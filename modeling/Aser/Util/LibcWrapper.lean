import Mathlib.Order.Basic
import Mathlib.Data.Int.Order.Basic

namespace Aser

/-- `pid_t`; `-1` stands for "no process" where the code stores one. -/
abbrev Pid := Int

/-- The exceptions the code throws, with what they carry. -/
inductive Exception
  | runtimeError (what : String)
  | invalidArgument (what : String)
  | systemError (errorCode : Int) (what : String)
  deriving DecidableEq, Repr

def Exception.what : Exception → String
  | .runtimeError what => what
  | .invalidArgument what => what
  | .systemError _ what => what

/-- Both overloads of `libc_error`: the error code is `errno` where the caller gives none. -/
def libcError {α : Type} (errorCode : Int) (msg : String) : Except Exception α :=
  .error (.systemError errorCode msg)

/-- `errno` is the value the failing call leaves behind. -/
def errorIfEqual {α : Type} [DecidableEq α] (errno : Int) (result errorResult : α)
    (errorMsg : String) : Except Exception α :=
  if result = errorResult then libcError errno errorMsg else .ok result

def errorIfNotEqual {α : Type} [DecidableEq α] (errno : Int) (result successResult : α)
    (errorMsg : String) : Except Exception α :=
  if result ≠ successResult then libcError errno errorMsg else .ok result

end Aser
