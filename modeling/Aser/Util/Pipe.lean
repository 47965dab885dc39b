import Aser.Util.LibcWrapper

namespace Aser

/-- `pipe::end_point`. -/
inductive EndPoint
  | readEnd
  | writeEnd
  deriving DecidableEq

/-- The errno of a call with a number that is no open descriptor. -/
def ebadf : Int := 9

/-- A call that reaches the kernel with a descriptor. -/
inductive FdCall
  | close (fd : Int)
  | read (fd : Int)
  | write (fd : Int)
  deriving DecidableEq

def FdCall.closed? : FdCall → Option Int
  | .close fd => some fd
  | _ => none

/-- The open descriptors of a process: those of its pipes, those that constructors of pipes have opened
and left behind, and the others. `obtained` lists what `pipe` and `pipe2` have returned and `calls` the
calls made, oldest first. -/
structure FdTable where
  opened : List Int := []
  orphans : List Int := []
  foreign : List Int
  obtained : List Int := []
  calls : List FdCall := []
  deriving DecidableEq

namespace FdTable

def closes (k : FdTable) : List Int := k.calls.filterMap FdCall.closed?

/-- The numbers in use. -/
def numbers (k : FdTable) : List Int := k.opened ++ k.orphans ++ k.foreign

/-- The kernel returns an error, or two numbers that are not in use. -/
def mayPipe (k : FdTable) : Except Int (Int × Int) → Bool
  | .error _ => true
  | .ok (r, w) => 0 ≤ r ∧ 0 ≤ w ∧ r ≠ w ∧ r ∉ k.numbers ∧ w ∉ k.numbers

/-- The two descriptors go to an object. -/
def pipe (k : FdTable) (ends : Int × Int) : FdTable :=
  { k with opened := ends.1 :: ends.2 :: k.opened, obtained := k.obtained ++ [ends.1, ends.2] }

/-- The constructor throws once it has the two descriptors. -/
def leaves (k : FdTable) (ends : Int × Int) : FdTable :=
  { k with orphans := ends.1 :: ends.2 :: k.orphans, obtained := k.obtained ++ [ends.1, ends.2] }

/-- `close` on a number closes whatever is open under it. -/
def close (k : FdTable) (fd : Int) : Int × FdTable :=
  (if fd ∈ k.numbers then 0 else -1,
    { k with
      opened := k.opened.filter (· ≠ fd)
      orphans := k.orphans.filter (· ≠ fd)
      foreign := k.foreign.filter (· ≠ fd)
      calls := k.calls ++ [.close fd] })

/-- A call that leaves the descriptors alone. -/
def call (k : FdTable) (c : FdCall) : FdTable := { k with calls := k.calls ++ [c] }

theorem closes_close (k : FdTable) (fd : Int) : (k.close fd).2.closes = k.closes ++ [fd] := by
  simp [close, closes, List.filterMap_append, FdCall.closed?]

theorem closes_call {c : FdCall} (other : c.closed? = none) (k : FdTable) : (k.call c).closes = k.closes := by
  simp [call, closes, List.filterMap_append, other]

end FdTable

/-- `pipe`: the two elements of `fd_`. -/
structure Pipe where
  readFd : Int := -1
  writeFd : Int := -1
  deriving DecidableEq

namespace Pipe

def fd (p : Pipe) : EndPoint → Int
  | .readEnd => p.readFd
  | .writeEnd => p.writeFd

def setFd (p : Pipe) (fd : Int) : EndPoint → Pipe
  | .readEnd => { p with readFd := fd }
  | .writeEnd => { p with writeFd := fd }

/-- `pipe::pipe()`; `pipe` is what the call of that name answers. -/
def make (pipe : Except Int (Int × Int)) : Except Exception Pipe :=
  match pipe with
  | .error errno => libcError errno "Error creating pipe"
  | .ok (readFd, writeFd) => .ok { readFd, writeFd }

/-- `pipe::pipe(int)`; `pipe2` is what that function comes to. When it throws there is no object. -/
def makeFlags (pipe2 : Except Exception (Int × Int)) : Except Exception Pipe :=
  match pipe2 with
  | .error e => .error e
  | .ok (readFd, writeFd) => .ok { readFd, writeFd }

def isOpen (p : Pipe) (ep : EndPoint) : Bool := p.fd ep != -1

def close (p : Pipe) (ep : EndPoint) (k : FdTable) : Except Exception Unit × Pipe × FdTable :=
  if !p.isOpen ep then (.ok (), p, k)
  else
    let (result, k) := k.close (p.fd ep)
    match errorIfNotEqual ebadf result 0 "Error closing pipe" with
    | .error e => (.error e, p, k)
    | .ok _ => (.ok (), p.setFd (-1) ep, k)

/-- `answer` is the bytes that the call returns, or its `errno`. -/
def read (p : Pipe) (answer : Int → Nat → Except Int (List UInt8)) (nbyte : Nat) (k : FdTable) :
    Except Exception (List UInt8) × FdTable :=
  if !p.isOpen .readEnd then (.error (.runtimeError "Cannot read from closed pipe"), k)
  else match answer p.readFd nbyte with
    | .error errno => (libcError errno "Error reading from pipe", k.call (.read p.readFd))
    | .ok bytes => (.ok bytes, k.call (.read p.readFd))

/-- `answer` is the number of bytes written, or the `errno`. -/
def write (p : Pipe) (answer : Int → List UInt8 → Except Int Nat) (buffer : List UInt8) (k : FdTable) :
    Except Exception Nat × FdTable :=
  if !p.isOpen .writeEnd then (.error (.runtimeError "Cannot write to closed pipe"), k)
  else match answer p.writeFd buffer with
    | .error errno => (libcError errno "Error writing to pipe", k.call (.write p.writeFd))
    | .ok n => (.ok n, k.call (.write p.writeFd))

/-- The descriptor that an end refers to. -/
def descriptor (p : Pipe) (ep : EndPoint) : Option Int := if p.isOpen ep then some (p.fd ep) else none

@[simp] theorem descriptor_empty (ep : EndPoint) : descriptor {} ep = none := by
  cases ep <;> rfl

theorem descriptor_eq_some {p : Pipe} {ep : EndPoint} {fd : Int} :
    p.descriptor ep = some fd ↔ p.fd ep = fd ∧ fd ≠ -1 := by
  simp only [descriptor, isOpen, bne_iff_ne, ne_eq, Option.ite_none_right_eq_some, Option.some.injEq]
  constructor
  · intro known
    exact ⟨known.2, known.2 ▸ known.1⟩
  · intro known
    exact ⟨known.1 ▸ known.2, known.1⟩

theorem descriptor_setFd (p : Pipe) (ep ep' : EndPoint) :
    (p.setFd (-1) ep).descriptor ep' = if ep' = ep then none else p.descriptor ep' := by
  cases ep <;> cases ep' <;> rfl

theorem isOpen_iff {p : Pipe} {ep : EndPoint} : p.isOpen ep = true ↔ ∃ fd, p.descriptor ep = some fd := by
  simp [descriptor, isOpen]

/-- Either end is a descriptor that the kernel has just returned. -/
theorem descriptor_mk {r w : Int} (atRead : 0 ≤ r) (atWrite : 0 ≤ w) (ep : EndPoint) (fd : Int) :
    descriptor ⟨r, w⟩ ep = some fd ↔ ep = .readEnd ∧ fd = r ∨ ep = .writeEnd ∧ fd = w := by
  rw [descriptor_eq_some]
  cases ep with
  | readEnd =>
    simp only [Pipe.fd, true_and, reduceCtorEq, false_and, or_false]
    constructor
    · intro known
      exact known.1.symm
    · intro same
      omega
  | writeEnd =>
    simp only [Pipe.fd, reduceCtorEq, false_and, true_and, false_or]
    constructor
    · intro known
      exact known.1.symm
    · intro same
      omega

theorem descriptor_of_closed {p : Pipe} {ep : EndPoint} (shut : ¬ p.isOpen ep = true) : p.descriptor ep = none :=
  if_neg shut

/-- A read is refused, or made with the descriptor of the read end. -/
theorem read_cases (p : Pipe) (answer : Int → Nat → Except Int (List UInt8)) (nbyte : Nat) (k : FdTable) :
    (p.descriptor .readEnd = none ∧
      p.read answer nbyte k = (.error (.runtimeError "Cannot read from closed pipe"), k)) ∨
    ∃ fd, p.descriptor .readEnd = some fd ∧ (p.read answer nbyte k).2 = k.call (.read fd) := by
  by_cases isOpen : p.isOpen .readEnd = true
  · refine .inr ⟨p.readFd, if_pos isOpen, ?_⟩
    rw [read, if_neg (by simp [isOpen])]
    split
    · rfl
    · rfl
  · exact .inl ⟨descriptor_of_closed isOpen, if_pos (by simp [isOpen])⟩

theorem write_cases (p : Pipe) (answer : Int → List UInt8 → Except Int Nat) (buffer : List UInt8) (k : FdTable) :
    (p.descriptor .writeEnd = none ∧
      p.write answer buffer k = (.error (.runtimeError "Cannot write to closed pipe"), k)) ∨
    ∃ fd, p.descriptor .writeEnd = some fd ∧ (p.write answer buffer k).2 = k.call (.write fd) := by
  by_cases isOpen : p.isOpen .writeEnd = true
  · refine .inr ⟨p.writeFd, if_pos isOpen, ?_⟩
    rw [write, if_neg (by simp [isOpen])]
    split
    · rfl
    · rfl
  · exact .inl ⟨descriptor_of_closed isOpen, if_pos (by simp [isOpen])⟩

end Pipe

end Aser
