import Aser.Util.LibcWrapper

namespace Aser

/-- `process_config`: for each callback what calling it comes to, `none` being an empty
`std::function`. The callbacks that take an error code depend on it. -/
structure ProcessConfig where
  forkSetupCallback : Option (Except Exception Unit) := none
  execSetupCallback : Option (Except Exception Unit) := none
  forkSuccessCallback : Option (Except Exception Unit) := none
  forkErrorCallback : Option (Int → Except Exception Unit) := none
  execErrorCallback : Option (Int → Except Exception Unit) := none

namespace ProcessConfig

def forkSetup (config : ProcessConfig) : Except Exception Unit :=
  config.forkSetupCallback.getD (.ok ())

def execSetup (config : ProcessConfig) : Except Exception Unit :=
  config.execSetupCallback.getD (.ok ())

def forkSuccess (config : ProcessConfig) : Except Exception Unit :=
  config.forkSuccessCallback.getD (.ok ())

def forkError (config : ProcessConfig) (errorCode : Int) : Except Exception Unit :=
  (config.forkErrorCallback.map (· errorCode)).getD (.ok ())

def execError (config : ProcessConfig) (errorCode : Int) : Except Exception Unit :=
  (config.execErrorCallback.map (· errorCode)).getD (.ok ())

end ProcessConfig

/-- How `fork` ends in the parent. -/
inductive ForkResult
  | failed (errno : Int)
  | child (pid : Pid)
  deriving DecidableEq

/-- How the branch of `process::start` taken in the forked child ends. -/
inductive ChildFate
  | program
  | exits (status : Int)
  | throws (e : Exception)
  deriving DecidableEq

/-- `WIFEXITED` and `WIFSIGNALED` on a wait status. -/
def wifExited (status : Int) : Bool := status % 128 == 0

def wifSignaled (status : Int) : Bool := status % 128 != 0 && status % 128 != 127

/-- The status of a process killed by `SIGKILL`. -/
def sigkilled : Int := 9

/-- What `waitpid` answers: an error, or the pid and the status of the child it reaped. -/
abbrev WaitResult := Except Int (Pid × Int)

structure Process where
  config : ProcessConfig
  args : List String
  pid : Pid := -1
  terminationStatus : Option Int := none
  terminated : Bool := false

namespace Process

def make (args : List String) (config : ProcessConfig := {}) : Except Exception Process :=
  if args.isEmpty then .error (.invalidArgument "Argument list is empty") else .ok { config, args }

def started (p : Process) : Bool := p.pid != -1

/-- What is left of an object that was moved from: the containers are empty, the scalars stay. -/
def movedFrom (p : Process) : Process := { p with config := {}, args := [] }

/-- The text of `Path %1% does not exist`; a path is printed between quotes. That is the text for a path
without quotes and without `&`, which are printed with an `&` before them. -/
def pathError (path : String) : String := "Path \"" ++ path ++ "\" does not exist"

/-- `start` in the parent, for an object that is not started; `pathExists` is what `fs::exists`
says of `args_[0]`. -/
def start (p : Process) (pathExists : Bool) (fork : ForkResult) : Except Exception Unit × Process :=
  if !pathExists then (.error (.invalidArgument (pathError (p.args.headD ""))), p)
  else match p.config.forkSetup with
    | .error e => (.error e, p)
    | .ok () => match fork with
      | .failed errno => (p.config.forkError errno, p)
      | .child pid => (p.config.forkSuccess, { p with pid })

/-- What follows an `execvp` that returned, in the forked child. -/
def afterExecvp (config : ProcessConfig) (errno : Int) : ChildFate :=
  match config.execError errno with
  | .error e => .throws e
  | .ok () => .exits 1

/-- `start` in the forked child; `execvp` is the error of that call, `none` if it succeeds. -/
def startInChild (config : ProcessConfig) (execvp : Option Int) : ChildFate :=
  match config.execSetup with
  | .error e => .throws e
  | .ok () => match execvp with
    | none => .program
    | some errno => afterExecvp config errno

/-- `wait`, once `waitpid` has answered, for an object that is started and not terminated. -/
def wait (p : Process) (waitpid : WaitResult) : Except Exception Unit × Process :=
  match waitpid with
  | .error errno => (libcError errno "Error waiting for process", p)
  | .ok (_, status) =>
    (.ok (), { p with
      terminationStatus := some status
      terminated := p.terminated || wifExited status || wifSignaled status })

/-- Whether `~process` has a child to kill and to wait for. -/
def holdsChild (p : Process) : Bool := p.started && !p.terminated

theorem make_fresh {args : List String} {config : ProcessConfig} {p : Process}
    (made : make args config = .ok p) : p.started = false ∧ p.terminated = false := by
  unfold make at made
  split at made
  · simp at made
  · cases made
    exact ⟨rfl, rfl⟩

@[simp] theorem start_terminated (p : Process) (pathExists : Bool) (fork : ForkResult) :
    (p.start pathExists fork).2.terminated = p.terminated := by
  unfold start
  repeat' split
  all_goals rfl

/-- `start` leaves an object started only after a `fork` that made a child. -/
theorem fork_of_started {p : Process} {pathExists : Bool} {fork : ForkResult}
    (unstarted : p.started = false) (started : (p.start pathExists fork).2.started = true) :
    fork = .child (p.start pathExists fork).2.pid := by
  cases pathExists with
  | false => simp [start, unstarted] at started
  | true =>
    cases setup : p.config.forkSetup with
    | error e => simp [start, setup, unstarted] at started
    | ok _ =>
      cases fork with
      | failed errno => simp [start, setup, unstarted] at started
      | child pid => simp [start, setup]

end Process

end Aser
