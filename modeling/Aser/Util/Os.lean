import Mathlib.Logic.Function.Basic
import Aser.Util.Pipe

namespace Aser

/-- The descriptors that a process has open, with their flags. -/
abbrev DescriptorFlags := Int → Option (BitVec 32)

/-- `FD_CLOEXEC`. -/
def fdCloexec : BitVec 32 := 1

/-- A call of `fcntl` with `F_GETFD` or `F_SETFD`. -/
inductive FcntlCall
  | getFd (fd : Int)
  | setFd (fd : Int)

namespace DescriptorFlags

variable (k : DescriptorFlags)

/-- What `execvp` leaves open. -/
def exec : DescriptorFlags := fun fd => (k fd).filter fun flags => flags &&& fdCloexec = 0

/-- The kernel opens both ends of a pipe. -/
def openPipe (ends : Int × Int) (flags : BitVec 32) : DescriptorFlags :=
  Function.update (Function.update k ends.1 (some flags)) ends.2 (some flags)

/-- It does so under two numbers that are not in use. -/
def Fresh : Except Int (Int × Int) → Prop
  | .error _ => True
  | .ok (r, w) => r ≠ w ∧ k r = none ∧ k w = none

variable (failure : FcntlCall → Option Int)

def getFd (fd : Int) : Except Int (BitVec 32) :=
  match failure (.getFd fd), k fd with
  | some errno, _ => .error errno
  | none, some flags => .ok flags
  | none, none => .error ebadf

def setFd (fd : Int) (flags : BitVec 32) : Except Int DescriptorFlags :=
  match failure (.setFd fd), k fd with
  | some errno, _ => .error errno
  | none, some _ => .ok (Function.update k fd (some flags))
  | none, none => .error ebadf

end DescriptorFlags

/-- The systems that `pipe2` is written for. -/
inductive Platform
  | linux
  | mac
  deriving DecidableEq

namespace Os

variable (oCloexec flags : BitVec 32) (failure : FcntlCall → Option Int)

/-- The flags of a descriptor that is opened with `flags`, of which only `O_CLOEXEC` counts. -/
def opensWith : BitVec 32 := if flags &&& oCloexec ≠ 0 then fdCloexec else 0

/-- The loop over the ends of the pipe. -/
def markEnds : List Int → DescriptorFlags → Except Exception Unit × DescriptorFlags
  | [], k => (.ok (), k)
  | fd :: rest, k =>
    match k.getFd failure fd with
    | .error errno => (libcError errno "Error getting flags", k)
    | .ok fcntlFlags =>
      if flags &&& ~~~oCloexec ≠ 0 then (.error (.invalidArgument "Flags not supported"), k)
      else
        match k.setFd failure fd (if flags &&& oCloexec ≠ 0 then fcntlFlags ||| fdCloexec else fcntlFlags) with
        | .error errno => (libcError errno "Error settings flags", k)
        | .ok k => markEnds rest k

/-- `answer` is what the kernel answers to `::pipe2` on Linux and to `::pipe` on OS X, and `failure` tells
which calls of `fcntl` fail there. -/
def pipe2 (platform : Platform) (answer : Except Int (Int × Int)) (k : DescriptorFlags) :
    Except Exception (Int × Int) × DescriptorFlags :=
  match platform, answer with
  | .linux, .error errno => (libcError errno "Error at pipe2", k)
  | .linux, .ok ends => (.ok ends, k.openPipe ends (opensWith oCloexec flags))
  | .mac, .error errno => (libcError errno "Error creating pipe", k)
  | .mac, .ok ends =>
    match markEnds oCloexec flags failure [ends.1, ends.2] (k.openPipe ends 0) with
    | (.error e, k) => (.error e, k)
    | (.ok (), k) => (.ok ends, k)

/-- `pipe::pipe(int)` on either system. Nobody closes what `pipe2` has opened when it throws. -/
def makePipe (platform : Platform) (answer : Except Int (Int × Int)) (k : DescriptorFlags) :
    Except Exception Pipe × DescriptorFlags :=
  let (result, k) := pipe2 oCloexec flags failure platform answer k
  (Pipe.makeFlags result, k)

/-- Nothing keeps the loop from marking this end. -/
def Marks (fd : Int) : Prop :=
  flags &&& ~~~oCloexec = 0 ∧ failure (.getFd fd) = none ∧ failure (.setFd fd) = none

variable {oCloexec flags failure} {k : DescriptorFlags} {answer : Except Int (Int × Int)} {platform : Platform}

/-- One round of the loop marks the end, or leaves everything as it is and throws. -/
theorem markEnds_cons {fd : Int} {rest : List Int} {before : BitVec 32} (atFd : k fd = some before) :
    Marks oCloexec flags failure fd ∧ markEnds oCloexec flags failure (fd :: rest) k =
      markEnds oCloexec flags failure rest (Function.update k fd (some (before ||| opensWith oCloexec flags))) ∨
    ¬ Marks oCloexec flags failure fd ∧ ∃ e, markEnds oCloexec flags failure (fd :: rest) k = (.error e, k) := by
  rw [markEnds, DescriptorFlags.getFd, atFd]
  cases gets : failure (.getFd fd) with
  | some errno =>
    refine .inr ⟨fun marks => ?_, _, rfl⟩
    simp [marks.2.1] at gets
  | none =>
    by_cases supported : flags &&& ~~~oCloexec = 0
    · dsimp only
      rw [if_neg (not_not_intro supported), DescriptorFlags.setFd, atFd]
      cases sets : failure (.setFd fd) with
      | some errno =>
        refine .inr ⟨fun marks => ?_, _, rfl⟩
        simp [marks.2.2] at sets
      | none =>
        refine .inl ⟨⟨supported, gets, sets⟩, ?_⟩
        have marked : (if flags &&& oCloexec ≠ 0 then before ||| fdCloexec else before) =
            before ||| opensWith oCloexec flags := by
          rw [opensWith]
          split
          · rfl
          · exact BitVec.or_zero.symm
        rw [marked]
    · dsimp only
      rw [if_pos supported]
      exact .inr ⟨fun marks => supported marks.1, _, rfl⟩

/-- Both ends are marked as Linux does it, or the write end is not marked and an exception leaves. -/
theorem pipe2_mac {ends : Int × Int} (fresh : k.Fresh (.ok ends)) :
    (Marks oCloexec flags failure ends.1 ∧ Marks oCloexec flags failure ends.2) ∧
      pipe2 oCloexec flags failure .mac (.ok ends) k = (.ok ends, k.openPipe ends (opensWith oCloexec flags)) ∨
    ¬ (Marks oCloexec flags failure ends.1 ∧ Marks oCloexec flags failure ends.2) ∧ ∃ e k',
      pipe2 oCloexec flags failure .mac (.ok ends) k = (.error e, k') ∧ k' ends.1 ≠ none ∧ k' ends.2 = some 0 := by
  obtain ⟨r, w⟩ := ends
  obtain ⟨distinct, _, _⟩ := fresh
  have atRead : k.openPipe (r, w) 0 r = some 0 := by
    simp [DescriptorFlags.openPipe, Function.update_of_ne distinct]
  have atWrite : k.openPipe (r, w) 0 w = some 0 := by
    simp [DescriptorFlags.openPipe]
  rcases markEnds_cons atRead with ⟨first, goesOn⟩ | ⟨refused, e, throws⟩
  · have still : Function.update (k.openPipe (r, w) 0) r (some (0 ||| opensWith oCloexec flags)) w = some 0 := by
      rw [Function.update_of_ne (Ne.symm distinct), atWrite]
    rcases markEnds_cons still with ⟨second, ends⟩ | ⟨refused, e, throws⟩
    · refine .inl ⟨⟨first, second⟩, ?_⟩
      have written : DescriptorFlags.openPipe k (r, w) (opensWith oCloexec flags) = Function.update
          (Function.update (k.openPipe (r, w) 0) r (some (0 ||| opensWith oCloexec flags))) w
            (some (0 ||| opensWith oCloexec flags)) := by
        have same : 0 ||| opensWith oCloexec flags = opensWith oCloexec flags := BitVec.zero_or
        funext fd
        rw [same]
        simp only [DescriptorFlags.openPipe, Function.update_apply]
        split_ifs <;> rfl
      rw [pipe2, goesOn, ends, markEnds, written]
    · refine .inr ⟨fun both => refused both.2, e, _, ?_, ?_, still⟩
      · rw [pipe2, goesOn, throws]
      · rw [Function.update_self]
        simp
  · refine .inr ⟨fun both => refused both.1, e, _, ?_, ?_, atWrite⟩
    · rw [pipe2, throws]
    · rw [atRead]
      simp

/-- What is opened to be closed by `execvp` is, and the rest stays. -/
theorem exec_openPipe {ends : Int × Int} (fresh : k.Fresh (.ok ends)) :
    (k.openPipe ends fdCloexec).exec = k.exec := by
  obtain ⟨_, noRead, noWrite⟩ := fresh
  funext fd
  rw [DescriptorFlags.exec, DescriptorFlags.exec, DescriptorFlags.openPipe]
  by_cases isWrite : fd = ends.2
  · rw [isWrite, Function.update_self, noWrite]
    rfl
  · rw [Function.update_of_ne isWrite]
    by_cases isRead : fd = ends.1
    · rw [isRead, Function.update_self, noRead]
      rfl
    · rw [Function.update_of_ne isRead]

/-- The constructor leaves the same pipe on both systems, and with `O_CLOEXEC` nothing of it to what is
executed. If it throws, either no pipe was opened, or both ends stay open on OS X, with no object to close them,
and the write end is passed on. -/
theorem made_or_leaked {result : Except Exception Pipe} {k' : DescriptorFlags} (fresh : k.Fresh answer)
    (made : makePipe oCloexec flags failure platform answer k = (result, k')) :
    (∃ ends, answer = .ok ends ∧
      (platform = .mac → Marks oCloexec flags failure ends.1 ∧ Marks oCloexec flags failure ends.2) ∧
      result = .ok { readFd := ends.1, writeFd := ends.2 } ∧ k' = k.openPipe ends (opensWith oCloexec flags) ∧
      (flags &&& oCloexec ≠ 0 → k'.exec = k.exec)) ∨
    (∃ errno e, answer = .error errno ∧ result = .error e ∧ k' = k) ∨
    ∃ ends e, answer = .ok ends ∧ platform = .mac ∧
      ¬ (Marks oCloexec flags failure ends.1 ∧ Marks oCloexec flags failure ends.2) ∧
      result = .error e ∧ k' ends.1 ≠ none ∧ k'.exec ends.2 ≠ none := by
  cases answer with
  | error errno =>
    refine .inr (.inl ⟨errno, ?_⟩)
    cases platform <;> cases made <;> exact ⟨_, rfl, rfl, rfl⟩
  | ok ends =>
    have marked : flags &&& oCloexec ≠ 0 → (k.openPipe ends (opensWith oCloexec flags)).exec = k.exec := by
      intro closes
      rw [opensWith, if_pos closes]
      exact exec_openPipe fresh
    cases platform with
    | linux =>
      cases made
      exact .inl ⟨ends, rfl, nofun, rfl, rfl, marked⟩
    | mac =>
      rcases pipe2_mac fresh with ⟨marks, same⟩ | ⟨refused, e, after, throws, atRead, atWrite⟩
      · rw [makePipe, same] at made
        cases made
        exact .inl ⟨ends, rfl, fun _ => marks, rfl, rfl, marked⟩
      · rw [makePipe, throws] at made
        cases made
        refine .inr (.inr ⟨ends, e, rfl, rfl, refused, rfl, atRead, ?_⟩)
        rw [DescriptorFlags.exec, atWrite]
        decide

/-- The flags of the read end cannot be set: both ends are lost. -/
theorem made_or_leaked_mac : ∃ k',
    makePipe 0x1000000 0x1000000 (fun | .setFd 3 => some ebadf | _ => none) .mac (.ok (3, 4)) (fun _ => none) =
      (libcError ebadf "Error settings flags", k') ∧ k' 3 ≠ none ∧ k'.exec 4 ≠ none := by
  have fresh : DescriptorFlags.Fresh (fun _ => none) (.ok (3, 4)) := ⟨by decide, rfl, rfl⟩
  have made : makePipe 0x1000000 0x1000000 (fun | .setFd 3 => some ebadf | _ => none) .mac (.ok (3, 4))
    (fun _ => none) = (libcError ebadf "Error settings flags", DescriptorFlags.openPipe (fun _ => none) (3, 4) 0) := rfl
  rcases made_or_leaked fresh made with ⟨_, _, _, result, _⟩ | ⟨_, _, answer, _⟩ |
    ⟨_, _, answer, _, _, _, atRead, atWrite⟩
  · simp [libcError] at result
  · simp at answer
  · cases answer
    exact ⟨_, made, atRead, atWrite⟩

end Os

end Aser
