import Aser.Library.Ownership
import Aser.Library.Run
import Aser.Library.Slots
import Aser.Util.Os

namespace Aser

open Library

/-- Any number of `pipe` objects, numbered in the order they were constructed, `none` once destroyed. -/
structure PipeObjects where
  pipes : List (Option Pipe)
  table : FdTable
  deriving DecidableEq

namespace PipeObjects

def init (foreign : List Int) : PipeObjects := ⟨[], { foreign }⟩

def pipe (s : PipeObjects) (o : Nat) : Option Pipe := slot s.pipes o

def put (s : PipeObjects) (o : Nat) (p : Option Pipe) : PipeObjects := { s with pipes := s.pipes.set o p }

def close (s : PipeObjects) (o : Nat) (ep : EndPoint) : Except Exception Unit × PipeObjects :=
  match s.pipe o with
  | none => (.ok (), s)
  | some p =>
    let (result, p, table) := p.close ep s.table
    (result, { s.put o (some p) with table })

/-- Both ends, as in the destructor and in the assignment. -/
def closeBoth (s : PipeObjects) (o : Nat) : Except Exception Unit × PipeObjects :=
  match s.close o .readEnd with
  | (.error e, s) => (.error e, s)
  | (.ok (), s) => s.close o .writeEnd

/-- `~pipe`. An exception that leaves the destructor ends the program. -/
def destroy (s : PipeObjects) (o : Nat) : Option PipeObjects :=
  match s.closeBoth o with
  | (.error _, _) => none
  | (.ok (), s) => some (s.put o none)

/-- `pipe::pipe(pipe&&)`, for the object that comes next. -/
def moveConstruct (s : PipeObjects) (source : Nat) (p : Pipe) : PipeObjects :=
  { s with pipes := s.pipes.set source (some {}) ++ [some p] }

/-- `operator=(pipe&&)`; the source may be the target itself. -/
def moveAssign (s : PipeObjects) (target source : Nat) : Except Exception Unit × PipeObjects :=
  match s.closeBoth target with
  | (.error e, s) => (.error e, s)
  | (.ok (), s) => (.ok (), (s.put target (s.pipe source)).put source (some {}))

inductive Action
  | construct (answer : Except Int (Int × Int))
  | constructFlags (flags : BitVec 32) (failure : FcntlCall → Option Int) (answer : Except Int (Int × Int))
  | moveConstruct (source : Nat)
  | moveAssign (target source : Nat)
  | close (o : Nat) (ep : EndPoint)
  | read (o : Nat) (answer : Except Int (List UInt8)) (nbyte : Nat)
  | write (o : Nat) (answer : Except Int Nat) (buffer : List UInt8)
  | destroy (o : Nat)
  | foreignOpen (fd : Int)
  | foreignClose (fd : Int)

/-- The open descriptors. What `pipe2` comes to does not depend on flags that are set, so none is here. -/
def descriptorFlags (s : PipeObjects) : DescriptorFlags := fun fd => if fd ∈ s.table.numbers then some 0 else none

variable (platform : Platform) (oCloexec : BitVec 32)

/-- An operation on a pipe that is alive, or one on a descriptor that is none of theirs. A constructor that
throws makes no object. -/
def step (s : PipeObjects) : Action → Option PipeObjects
  | .construct answer =>
    if s.table.mayPipe answer then
      match Pipe.make answer with
      | .error _ => some s
      | .ok p => some ⟨s.pipes ++ [some p], s.table.pipe (p.readFd, p.writeFd)⟩
    else none
  | .constructFlags flags failure answer =>
    if s.table.mayPipe answer then
      match (Os.makePipe oCloexec flags failure platform answer s.descriptorFlags).1, answer with
      | .error _, .error _ => some s
      | .error _, .ok ends => some { s with table := s.table.leaves ends }
      | .ok p, _ => some ⟨s.pipes ++ [some p], s.table.pipe (p.readFd, p.writeFd)⟩
    else none
  | .moveConstruct source => (s.pipe source).map fun p => s.moveConstruct source p
  | .moveAssign target source =>
    (s.pipe target).bind fun _ => (s.pipe source).map fun _ => (s.moveAssign target source).2
  | .close o ep => (s.pipe o).map fun _ => (s.close o ep).2
  | .read o answer nbyte =>
    (s.pipe o).map fun p => { s with table := (p.read (fun _ _ => answer) nbyte s.table).2 }
  | .write o answer buffer =>
    (s.pipe o).map fun p => { s with table := (p.write (fun _ _ => answer) buffer s.table).2 }
  | .destroy o => (s.pipe o).bind fun _ => s.destroy o
  | .foreignOpen fd =>
    if 0 ≤ fd ∧ fd ∉ s.table.numbers then
      some { s with table := { s.table with foreign := fd :: s.table.foreign } }
    else none
  | .foreignClose fd =>
    if fd ∈ s.table.foreign then
      some { s with table := { s.table with foreign := s.table.foreign.filter (· ≠ fd) } }
    else none

/-- The descriptor that an end of the live pipe `o` refers to. -/
def descriptor (s : PipeObjects) (o : Nat) (ep : EndPoint) : Option Int := (s.pipe o).bind (·.descriptor ep)

def Holds (s : PipeObjects) (i : Nat × EndPoint) (fd : Int) : Prop := s.descriptor i.1 i.2 = some fd

/-- Every open descriptor of a pipe is held at exactly one end of one live object, and these hold open
descriptors only. -/
def Matched (s : PipeObjects) : Prop := Exclusive s.Holds (· ∈ s.table.opened)

/-- Every time that a descriptor was obtained it was closed once, or is open still. -/
def Balanced (s : PipeObjects) : Prop :=
  ∀ fd, s.table.obtained.count fd =
    s.table.closes.count fd + if fd ∈ s.table.opened ∨ fd ∈ s.table.orphans then 1 else 0

/-- Every descriptor that no object holds was closed as often as it was obtained. -/
def ClosedOnce (s : PipeObjects) : Prop :=
  ∀ fd, (∀ i, ¬ s.Holds i fd) → s.table.obtained.count fd = s.table.closes.count fd

structure Sound (s : PipeObjects) : Prop where
  matched : s.Matched
  balanced : s.Balanced
  apart : ∀ fd ∈ s.table.opened, fd ∉ s.table.orphans

/-- A constructor throws on OS X although both ends are open: the flags are others than `O_CLOEXEC`, or a
call of `fcntl` fails. -/
def Leaks : Action → Prop
  | .constructFlags flags failure (.ok ends) =>
    platform = .mac ∧ ¬ (Os.Marks oCloexec flags failure ends.1 ∧ Os.Marks oCloexec flags failure ends.2)
  | _ => False

/-- The ends whose descriptors an operation passes to the kernel, and the calls it makes. -/
def Action.uses : Action → List (Nat × EndPoint × (Int → FdCall))
  | .close o ep => [(o, ep, .close)]
  | .destroy o => [(o, .readEnd, .close), (o, .writeEnd, .close)]
  | .moveAssign target _ => [(target, .readEnd, .close), (target, .writeEnd, .close)]
  | .read o _ _ => [(o, .readEnd, .read)]
  | .write o _ _ => [(o, .writeEnd, .write)]
  | _ => []

/-- The calls an operation makes if it passes to the kernel what these ends hold and nothing else. -/
def ownCalls (s : PipeObjects) (a : Action) : List FdCall :=
  a.uses.flatMap fun use => ((s.descriptor use.1 use.2.1).map use.2.2).toList

/-- Reading and writing without a descriptor is an error, and the kernel does not hear of it. -/
def Refuses (s : PipeObjects) (o : Nat) (p : Pipe) : Prop :=
  (s.descriptor o .readEnd = none → ∀ answer nbyte,
    p.read answer nbyte s.table = (.error (.runtimeError "Cannot read from closed pipe"), s.table)) ∧
  (s.descriptor o .writeEnd = none → ∀ answer buffer,
    p.write answer buffer s.table = (.error (.runtimeError "Cannot write to closed pipe"), s.table))

variable {platform oCloexec} {s s' : PipeObjects} {o : Nat} {ep : EndPoint} {p : Pipe} {fd : Int}

theorem pipe_put (alive : s.pipe o = some p) (q : Option Pipe) (j : Nat) :
    (s.put o q).pipe j = if j = o then q else s.pipe j :=
  slot_set alive q j

theorem descriptor_put (alive : s.pipe o = some p) (q : Option Pipe) (j : Nat) (ep : EndPoint) :
    (s.put o q).descriptor j ep = if j = o then q.bind (·.descriptor ep) else s.descriptor j ep := by
  unfold descriptor
  rw [pipe_put alive]
  split <;> rfl

theorem descriptor_append (s : PipeObjects) (p : Pipe) (table : FdTable) (j : Nat) (ep : EndPoint) :
    (PipeObjects.mk (s.pipes ++ [some p]) table).descriptor j ep =
      if j = s.pipes.length then p.descriptor ep else s.descriptor j ep := by
  unfold descriptor pipe
  rw [slot_append]
  split <;> rfl

theorem put_self (alive : s.pipe o = some p) : s.put o (some p) = s := by
  have there : s.pipes[o]? = some (some p) := Option.join_eq_some_iff.mp alive
  obtain ⟨within, same⟩ := List.getElem?_eq_some_iff.mp there
  rw [put, ← same, List.set_getElem_self within]

/-- What an operation leaves where it is stays sound. -/
theorem Sound.congr (sound : s.Sound) (table : s'.table = s.table)
    (same : ∀ j ep, s'.descriptor j ep = s.descriptor j ep) : s'.Sound where
  matched := Exclusive.congr sound.matched (fun j fd => by rw [Holds, same, Holds]) (fun fd => by rw [table])
  balanced := by
    intro fd
    rw [table]
    exact sound.balanced fd
  apart := by
    rw [table]
    exact sound.apart

/-- One more call is not a `close`. -/
theorem Sound.call (sound : s.Sound) {c : FdCall} (other : c.closed? = none) :
    Sound { s with table := s.table.call c } where
  matched := Exclusive.congr sound.matched (fun _ _ => Iff.rfl) (fun _ => Iff.rfl)
  balanced := by
    intro fd
    show s.table.obtained.count fd =
      (s.table.call c).closes.count fd + if fd ∈ s.table.opened ∨ fd ∈ s.table.orphans then 1 else 0
    rw [FdTable.closes_call other]
    exact sound.balanced fd
  apart := sound.apart

theorem close_shut (alive : s.pipe o = some p) (none : p.descriptor ep = none) : s.close o ep = (.ok (), s) := by
  have shut : p.isOpen ep = false := by
    by_contra isOpen
    obtain ⟨fd, known⟩ := Pipe.isOpen_iff.mp (by simpa using isOpen)
    simp [none] at known
  simp [close, alive, Pipe.close, shut, put_self alive]

/-- The objects and the descriptors after end `ep` of pipe `o` has given `fd` back. -/
def released (s : PipeObjects) (o : Nat) (p : Pipe) (ep : EndPoint) (fd : Int) : PipeObjects :=
  { s.put o (some (p.setFd (-1) ep)) with table := (s.table.close fd).2 }

theorem pipe_released (alive : s.pipe o = some p) (j : Nat) :
    (s.released o p ep fd).pipe j = if j = o then some (p.setFd (-1) ep) else s.pipe j :=
  pipe_put alive _ j

theorem descriptor_released (alive : s.pipe o = some p) (j : Nat) (ep' : EndPoint) :
    (s.released o p ep fd).descriptor j ep' = if j = o ∧ ep' = ep then none else s.descriptor j ep' := by
  unfold descriptor
  rw [pipe_released alive]
  by_cases here : j = o
  · rw [if_pos here, Option.bind_some, Pipe.descriptor_setFd, here, alive]
    simp
  · simp [here]

/-- An end that holds a descriptor gives it back, and the kernel does not object. -/
theorem Sound.close_held (sound : s.Sound) (alive : s.pipe o = some p) (held : p.descriptor ep = some fd) :
    s.close o ep = (.ok (), s.released o p ep fd) ∧ (s.released o p ep fd).Sound := by
  have isOpen : p.isOpen ep = true := Pipe.isOpen_iff.mpr ⟨fd, held⟩
  have known := (Pipe.descriptor_eq_some.mp held).1
  have holds : s.Holds (o, ep) fd := by
    rw [Holds, descriptor, alive]
    exact held
  have there : fd ∈ s.table.opened := sound.matched.present holds
  have inUse : fd ∈ s.table.numbers := by simp [FdTable.numbers, there]
  refine ⟨?_, ?_, fun x => ?_, fun x member => ?_⟩
  · simp [PipeObjects.close, alive, Pipe.close, isOpen, known, FdTable.close, inUse, errorIfNotEqual, put, released]
  · refine Exclusive.release sound.matched holds (fun j x => ?_) (fun x => by simp [released, FdTable.close])
    rw [Holds, descriptor_released alive]
    split
    · rename_i here
      have same : j = (o, ep) := Prod.ext here.1 here.2
      subst same
      have only : s.Holds (o, ep) x → fd = x := fun other => Option.some.inj (holds.symm.trans other)
      constructor
      · simp
      · intro both
        exact absurd ⟨rfl, (only both.1).symm⟩ both.2
    · rename_i elsewhere
      constructor
      · intro other
        refine ⟨other, fun both => elsewhere ?_⟩
        rw [both.1]
        exact ⟨rfl, rfl⟩
      · exact And.left
  · have balance := sound.balanced x
    show s.table.obtained.count x = (s.table.close fd).2.closes.count x + _
    rw [FdTable.closes_close, List.count_append]
    by_cases same : x = fd
    · subst same
      simpa [there, released, FdTable.close] using balance
    · simpa [same, Ne.symm same, released, FdTable.close] using balance
  · have before := (List.mem_filter.mp member).1
    exact fun orphaned => sound.apart x before (List.mem_filter.mp orphaned).1

/-- `close` gives back what the end holds, if anything, and succeeds. -/
theorem Sound.close (sound : s.Sound) (alive : s.pipe o = some p) (ep : EndPoint) :
    ∃ s', s.close o ep = (.ok (), s') ∧ s'.Sound ∧ (∀ j, (s'.pipe j).isSome = (s.pipe j).isSome) ∧
      s'.table.calls = s.table.calls ++ ((s.descriptor o ep).map FdCall.close).toList ∧
      s'.table.orphans = s.table.orphans ∧
      ∀ j ep', s'.descriptor j ep' = if j = o ∧ ep' = ep then none else s.descriptor j ep' := by
  have mine : s.descriptor o ep = p.descriptor ep := by simp [descriptor, alive]
  cases held : p.descriptor ep with
  | none =>
    refine ⟨s, close_shut alive held, sound, fun _ => rfl, by simp [mine, held], rfl, fun j ep' => ?_⟩
    split
    · rename_i here
      rw [here.1, here.2, mine, held]
    · rfl
  | some fd =>
    obtain ⟨closed, sound'⟩ := sound.close_held alive held
    have there : fd ∈ s.table.opened := by
      refine sound.matched.present (i := (o, ep)) ?_
      rw [Holds, mine, held]
    refine ⟨s.released o p ep fd, closed, sound', fun j => ?_, ?_, ?_, descriptor_released alive⟩
    · rw [pipe_released alive]
      split
      · rename_i here
        simp [here, alive]
      · rfl
    · rw [mine, held]
      rfl
    · refine List.filter_eq_self.mpr fun x orphaned => ?_
      have other : x ≠ fd := fun same => sound.apart fd there (same ▸ orphaned)
      simpa using other

theorem Sound.closeBoth (sound : s.Sound) (alive : s.pipe o = some p) :
    ∃ s', s.closeBoth o = (.ok (), s') ∧ s'.Sound ∧ (∀ j, (s'.pipe j).isSome = (s.pipe j).isSome) ∧
      s'.table.calls = s.table.calls ++ ((s.descriptor o .readEnd).map FdCall.close).toList ++
        ((s.descriptor o .writeEnd).map FdCall.close).toList ∧
      s'.table.orphans = s.table.orphans ∧
      ∀ j ep, s'.descriptor j ep = if j = o then none else s.descriptor j ep := by
  obtain ⟨s₁, first, sound₁, kept₁, calls₁, orphans₁, now₁⟩ := sound.close alive .readEnd
  obtain ⟨p₁, alive₁⟩ := Option.isSome_iff_exists.mp ((kept₁ o).trans (by rw [alive]; rfl))
  obtain ⟨s₂, second, sound₂, kept₂, calls₂, orphans₂, now₂⟩ := sound₁.close alive₁ .writeEnd
  refine ⟨s₂, ?_, sound₂, fun j => (kept₂ j).trans (kept₁ j), ?_, orphans₂.trans orphans₁, fun j ep => ?_⟩
  · rw [PipeObjects.closeBoth, first]
    exact second
  · rw [calls₂, calls₁, now₁]
    simp
  · rw [now₂, now₁]
    by_cases here : j = o
    · cases ep <;> simp [here]
    · simp [here]

/-- Two descriptors are obtained, and are open from then on. -/
theorem Balanced.obtains (balanced : s.Balanced) {r w : Int} (differ : r ≠ w)
    (newRead : ¬ (r ∈ s.table.opened ∨ r ∈ s.table.orphans)) (newWrite : ¬ (w ∈ s.table.opened ∨ w ∈ s.table.orphans))
    (obtained : s'.table.obtained = s.table.obtained ++ [r, w]) (closes : s'.table.closes = s.table.closes)
    (now : ∀ fd, fd ∈ s'.table.opened ∨ fd ∈ s'.table.orphans ↔
      fd = r ∨ fd = w ∨ fd ∈ s.table.opened ∨ fd ∈ s.table.orphans) : s'.Balanced := by
  intro fd
  have balance := balanced fd
  rw [obtained, closes, List.count_append, balance]
  simp only [now]
  by_cases isRead : fd = r
  · subst isRead
    simp [newRead, Ne.symm differ]
  · by_cases isWrite : fd = w
    · subst isWrite
      simp [newWrite, differ]
    · simp [isRead, isWrite, Ne.symm isRead, Ne.symm isWrite]

/-- A new object gets what the kernel has just returned. -/
theorem Sound.construct (sound : s.Sound) {r w : Int} (may : s.table.mayPipe (.ok (r, w)) = true) :
    Sound ⟨s.pipes ++ [some ⟨r, w⟩], s.table.pipe (r, w)⟩ := by
  have fresh : ∀ ep, s.descriptor s.pipes.length ep = none := by
    intro ep
    simp [descriptor, pipe]
  simp only [FdTable.mayPipe, FdTable.numbers, List.mem_append, not_or, decide_eq_true_eq] at may
  obtain ⟨atRead, atWrite, differ, ⟨⟨newRead, noRead⟩, _⟩, ⟨newWrite, noWrite⟩, _⟩ := may
  have now : ∀ (j : Nat × EndPoint) fd, Holds ⟨s.pipes ++ [some ⟨r, w⟩], s.table.pipe (r, w)⟩ j fd ↔
      (s.Holds j fd ∨ j = (s.pipes.length, .readEnd) ∧ fd = r) ∨ j = (s.pipes.length, .writeEnd) ∧ fd = w := by
    intro j fd
    rw [Holds, descriptor_append]
    split
    · rename_i last
      rw [Pipe.descriptor_mk atRead atWrite, Holds, last, fresh]
      simp [Prod.ext_iff, last]
    · rename_i old
      simp [Prod.ext_iff, old, Holds]
  refine ⟨?_, sound.balanced.obtains differ (by simp [newRead, noRead]) (by simp [newWrite, noWrite]) rfl rfl
    fun fd => ?_, fun fd member => ?_⟩
  · have first := Exclusive.acquire (i := (s.pipes.length, EndPoint.readEnd)) sound.matched newRead
      (fun _ _ => Iff.rfl) (fun _ => Iff.rfl)
    refine Exclusive.acquire (i := (s.pipes.length, EndPoint.writeEnd)) first ?_ now ?_
    · intro there
      rcases there with old | same
      · exact newWrite old
      · exact differ same.symm
    · intro fd
      show fd ∈ r :: w :: s.table.opened ↔ _
      simp only [List.mem_cons]
      tauto
  · simp only [FdTable.pipe, List.mem_cons]
    tauto
  · have cases : fd = r ∨ fd = w ∨ fd ∈ s.table.opened := by simpa [FdTable.pipe] using member
    rcases cases with rfl | rfl | old
    · exact noRead
    · exact noWrite
    · exact sound.apart fd old

/-- What a constructor leaves behind nobody holds. -/
theorem Sound.leaves (sound : s.Sound) {r w : Int} (may : s.table.mayPipe (.ok (r, w)) = true) :
    Sound { s with table := s.table.leaves (r, w) } := by
  simp only [FdTable.mayPipe, FdTable.numbers, List.mem_append, not_or, decide_eq_true_eq] at may
  obtain ⟨_, _, differ, ⟨⟨newRead, noRead⟩, _⟩, ⟨newWrite, noWrite⟩, _⟩ := may
  refine ⟨sound.matched, sound.balanced.obtains differ (by simp [newRead, noRead]) (by simp [newWrite, noWrite]) rfl rfl
    fun fd => ?_, fun fd member orphaned => ?_⟩
  · simp only [FdTable.leaves, List.mem_cons]
    tauto
  · have cases : fd = r ∨ fd = w ∨ fd ∈ s.table.orphans := by simpa [FdTable.leaves] using orphaned
    rcases cases with rfl | rfl | old
    · exact newRead member
    · exact newWrite member
    · exact sound.apart fd member old

/-- `pipe::pipe(int)` makes an object of the two ends unless it leaks them. -/
theorem makePipe_cases {r w : Int} (may : s.table.mayPipe (.ok (r, w)) = true) (flags : BitVec 32)
    (failure : FcntlCall → Option Int) :
    (¬ Leaks platform oCloexec (.constructFlags flags failure (.ok (r, w))) ∧
      (Os.makePipe oCloexec flags failure platform (.ok (r, w)) s.descriptorFlags).1 = .ok ⟨r, w⟩) ∨
    Leaks platform oCloexec (.constructFlags flags failure (.ok (r, w))) ∧ ∃ e,
      (Os.makePipe oCloexec flags failure platform (.ok (r, w)) s.descriptorFlags).1 = .error e := by
  simp only [FdTable.mayPipe, decide_eq_true_eq] at may
  obtain ⟨_, _, differ, newRead, newWrite⟩ := may
  have fresh : s.descriptorFlags.Fresh (.ok (r, w)) := ⟨differ, if_neg newRead, if_neg newWrite⟩
  cases platform with
  | linux => exact .inl ⟨by simp [Leaks], rfl⟩
  | mac =>
    have outcomes := @Os.pipe2_mac oCloexec flags failure _ _ fresh
    rcases outcomes with ⟨marks, made⟩ | ⟨refused, e, k', throws, _⟩
    · exact .inl ⟨fun leaks => leaks.2 marks, by rw [Os.makePipe, made]; rfl⟩
    · exact .inr ⟨⟨rfl, refused⟩, e, by rw [Os.makePipe, throws]; rfl⟩

/-- What the source held is held by the new object, end by end. -/
theorem Sound.moveConstruct (sound : s.Sound) {source : Nat} (alive : s.pipe source = some p) :
    (s.moveConstruct source p).Sound := by
  have within := slot_lt alive
  have now : ∀ j ep, (s.moveConstruct source p).descriptor j ep =
      if j = s.pipes.length then p.descriptor ep else if j = source then none else s.descriptor j ep := by
    intro j ep
    refine (descriptor_append (s.put source (some {})) p s.table j ep).trans ?_
    rw [descriptor_put alive]
    simp [put]
  refine ⟨Exclusive.rename sound.matched (fun i => if i.1 = source then (s.pipes.length, i.2) else i) ?_ ?_,
    sound.balanced, sound.apart⟩
  · intro i fd held
    rw [Holds, now]
    by_cases here : i.1 = source
    · have known : p.descriptor i.2 = some fd := by simpa [Holds, descriptor, here, alive] using held
      simp [here, known]
    · have old : i.1 ≠ s.pipes.length := by
        intro last
        simp [Holds, descriptor, pipe, last] at held
      simp only [here, if_false, old]
      exact held
  · intro j fd held
    rw [Holds, now] at held
    split at held
    · rename_i last
      exact ⟨(source, j.2), by simp [← last], by simpa [Holds, descriptor, alive] using held⟩
    · split at held
      · cases held
      · rename_i other
        exact ⟨j, by simp [other], held⟩

/-- The target gives back what it holds and gets what the source holds after that: nothing if they are
the same object. -/
theorem Sound.moveAssign (sound : s.Sound) {target source : Nat} {q : Pipe} (alive : s.pipe target = some p)
    (alive' : s.pipe source = some q) : ∃ s', s.moveAssign target source = (.ok (), s') ∧ s'.Sound ∧
      s'.table.calls = s.table.calls ++ ((s.descriptor target .readEnd).map FdCall.close).toList ++
        ((s.descriptor target .writeEnd).map FdCall.close).toList ∧
      s'.table.orphans = s.table.orphans := by
  obtain ⟨s₁, closed, sound₁, kept, calls, orphans, freed⟩ := sound.closeBoth alive
  obtain ⟨p₁, alive₁⟩ := Option.isSome_iff_exists.mp ((kept target).trans (by rw [alive]; rfl))
  obtain ⟨q₁, alive₁'⟩ := Option.isSome_iff_exists.mp ((kept source).trans (by rw [alive']; rfl))
  have given : (s₁.put target (s₁.pipe source)).pipe source = some q₁ := by
    rw [pipe_put alive₁]
    split
    · exact alive₁'
    · exact alive₁'
  have now : ∀ j ep, ((s₁.put target (s₁.pipe source)).put source (some {})).descriptor j ep =
      if j = source then none else if j = target then s₁.descriptor source ep else s₁.descriptor j ep := by
    intro j ep
    rw [descriptor_put given, descriptor_put alive₁]
    simp [descriptor]
  refine ⟨(s₁.put target (s₁.pipe source)).put source (some {}), by rw [PipeObjects.moveAssign, closed], ?_, calls, orphans⟩
  refine ⟨Exclusive.rename sound₁.matched (fun i => if i.1 = source then (target, i.2) else i) ?_ ?_,
    sound₁.balanced, sound₁.apart⟩
  · intro i fd held
    have elsewhere : i.1 ≠ target := by
      intro atTarget
      simp [Holds, freed, atTarget] at held
    rw [Holds, now]
    by_cases atSource : i.1 = source
    · have differ : target ≠ source := fun same => elsewhere (atSource.trans same.symm)
      have known : s₁.descriptor source i.2 = some fd := atSource ▸ held
      simp [atSource, differ, known]
    · simp only [atSource, if_false, elsewhere]
      exact held
  · intro j fd held
    rw [Holds, now] at held
    split at held
    · cases held
    · rename_i notSource
      split at held
      · rename_i atTarget
        exact ⟨(source, j.2), by simp [← atTarget], held⟩
      · exact ⟨j, by simp [notSource], held⟩

theorem Sound.destroy (sound : s.Sound) (alive : s.pipe o = some p) : ∃ s', s.destroy o = some s' ∧ s'.Sound ∧
    s'.table.calls = s.table.calls ++ ((s.descriptor o .readEnd).map FdCall.close).toList ++
      ((s.descriptor o .writeEnd).map FdCall.close).toList ∧ s'.table.orphans = s.table.orphans := by
  obtain ⟨s₁, closed, sound₁, kept, calls, orphans, freed⟩ := sound.closeBoth alive
  obtain ⟨p₁, alive₁⟩ := Option.isSome_iff_exists.mp ((kept o).trans (by rw [alive]; rfl))
  refine ⟨s₁.put o none, by rw [PipeObjects.destroy, closed], sound₁.congr rfl fun j ep => ?_, calls, orphans⟩
  rw [descriptor_put alive₁]
  split
  · rename_i here
    simp [freed, here]
  · rfl

/-- The operation makes the calls it should with what its object holds, and no others, and leaves no
descriptor behind unless it is a constructor that leaks. -/
theorem Sound.step (sound : s.Sound) {a : Action} (taken : s.step platform oCloexec a = some s') :
    s'.Sound ∧ s'.table.calls = s.table.calls ++ s.ownCalls a ∧
      (s'.table.orphans = [] ↔ s.table.orphans = [] ∧ ¬ Leaks platform oCloexec a) := by
  cases a with
  | construct answer =>
    simp only [PipeObjects.step, Option.ite_none_right_eq_some] at taken
    obtain ⟨may, made⟩ := taken
    cases answer with
    | error errno =>
      cases Option.some.inj made
      exact ⟨sound, by simp [ownCalls, Action.uses], by simp [Leaks]⟩
    | ok both =>
      cases Option.some.inj made
      exact ⟨sound.construct may, by simp [ownCalls, Action.uses, FdTable.pipe], by simp [Leaks, FdTable.pipe]⟩
  | constructFlags flags failure answer =>
    simp only [PipeObjects.step, Option.ite_none_right_eq_some] at taken
    obtain ⟨may, made⟩ := taken
    cases answer with
    | error errno =>
      have throws : ∃ e, (Os.makePipe oCloexec flags failure platform (.error errno) s.descriptorFlags).1 = .error e := by
        cases platform <;> exact ⟨_, rfl⟩
      obtain ⟨e, throws⟩ := throws
      rw [throws] at made
      cases Option.some.inj made
      exact ⟨sound, by simp [ownCalls, Action.uses], by simp [Leaks]⟩
    | ok both =>
      rcases makePipe_cases may flags failure with ⟨safe, object⟩ | ⟨leaks, e, throws⟩
      · rw [object] at made
        cases Option.some.inj made
        exact ⟨sound.construct may, by simp [ownCalls, Action.uses, FdTable.pipe], by simp [safe, FdTable.pipe]⟩
      · rw [throws] at made
        cases Option.some.inj made
        exact ⟨sound.leaves may, by simp [ownCalls, Action.uses, FdTable.leaves], by simp [leaks, FdTable.leaves]⟩
  | moveConstruct source =>
    obtain ⟨p, alive, rfl⟩ := Option.map_eq_some_iff.mp taken
    exact ⟨sound.moveConstruct alive, by simp [ownCalls, Action.uses, PipeObjects.moveConstruct],
      by simp [Leaks, PipeObjects.moveConstruct]⟩
  | moveAssign target source =>
    obtain ⟨p, alive, taken⟩ := Option.bind_eq_some_iff.mp taken
    obtain ⟨q, alive', rfl⟩ := Option.map_eq_some_iff.mp taken
    obtain ⟨s₁, assigned, sound₁, calls, orphans⟩ := sound.moveAssign alive alive'
    rw [assigned]
    exact ⟨sound₁, calls.trans (by simp [ownCalls, Action.uses]), by simp [orphans, Leaks]⟩
  | close o ep =>
    obtain ⟨p, alive, rfl⟩ := Option.map_eq_some_iff.mp taken
    obtain ⟨s₁, closed, sound₁, _, calls, orphans, _⟩ := sound.close alive ep
    rw [closed]
    exact ⟨sound₁, calls.trans (by simp [ownCalls, Action.uses]), by simp [orphans, Leaks]⟩
  | read o answer nbyte =>
    obtain ⟨p, alive, rfl⟩ := Option.map_eq_some_iff.mp taken
    rcases p.read_cases (fun _ _ => answer) nbyte s.table with ⟨none, refused⟩ | ⟨fd, held, made⟩
    · rw [refused]
      exact ⟨sound, by simp [ownCalls, Action.uses, descriptor, alive, none], by simp [Leaks]⟩
    · rw [made]
      exact ⟨sound.call rfl, by simp [ownCalls, Action.uses, descriptor, alive, held, FdTable.call],
        by simp [Leaks, FdTable.call]⟩
  | write o answer buffer =>
    obtain ⟨p, alive, rfl⟩ := Option.map_eq_some_iff.mp taken
    rcases p.write_cases (fun _ _ => answer) buffer s.table with ⟨none, refused⟩ | ⟨fd, held, made⟩
    · rw [refused]
      exact ⟨sound, by simp [ownCalls, Action.uses, descriptor, alive, none], by simp [Leaks]⟩
    · rw [made]
      exact ⟨sound.call rfl, by simp [ownCalls, Action.uses, descriptor, alive, held, FdTable.call],
        by simp [Leaks, FdTable.call]⟩
  | destroy o =>
    obtain ⟨p, alive, taken⟩ := Option.bind_eq_some_iff.mp taken
    obtain ⟨s₁, destroyed, sound₁, calls, orphans⟩ := sound.destroy alive
    cases Option.some.inj (destroyed.symm.trans taken)
    exact ⟨sound₁, calls.trans (by simp [ownCalls, Action.uses]), by simp [orphans, Leaks]⟩
  | foreignOpen fd =>
    simp only [PipeObjects.step, Option.ite_none_right_eq_some, Option.some.injEq] at taken
    obtain ⟨_, rfl⟩ := taken
    exact ⟨⟨sound.matched, sound.balanced, sound.apart⟩, by simp [ownCalls, Action.uses], by simp [Leaks]⟩
  | foreignClose fd =>
    simp only [PipeObjects.step, Option.ite_none_right_eq_some, Option.some.injEq] at taken
    obtain ⟨_, rfl⟩ := taken
    exact ⟨⟨sound.matched, sound.balanced, sound.apart⟩, by simp [ownCalls, Action.uses], by simp [Leaks]⟩

theorem init_sound (foreign : List Int) : (init foreign).Sound where
  matched := by
    constructor
    · intro fd there
      simp [init] at there
    · intro i j fd held
      simp [init, Holds, descriptor, pipe] at held
    · intro i fd held
      simp [init, Holds, descriptor, pipe] at held
  balanced := by
    intro fd
    simp [init, FdTable.closes]
  apart := by simp [init]

theorem sound {foreign : List Int} {ts : List (Transition PipeObjects Action)}
    (run : Run (step platform oCloexec) (init foreign) ts s) : s.Sound :=
  run.invariant (I := Sound) (init_sound foreign) fun sound taken => (sound.step taken).1

/-- An end is open exactly if its number is that of a descriptor that is open. -/
theorem Sound.isOpen_iff (sound : s.Sound) (alive : s.pipe o = some p) (ep : EndPoint) :
    p.isOpen ep = true ↔ p.fd ep ∈ s.table.opened := by
  constructor
  · intro isOpen
    refine sound.matched.present (i := (o, ep)) ?_
    simp [Holds, descriptor, alive, Pipe.descriptor, isOpen]
  · intro there
    -- somebody holds it, so it is not -1
    obtain ⟨⟨j, ep'⟩, held⟩ := sound.matched.owned there
    obtain ⟨q, _, known⟩ := Option.bind_eq_some_iff.mp held
    have other := (Pipe.descriptor_eq_some.mp known).2
    simpa [Pipe.isOpen] using other

/-- What nobody holds is closed, exactly if no constructor has left anything behind. -/
theorem Sound.closedOnce_iff (sound : s.Sound) : s.ClosedOnce ↔ s.table.orphans = [] := by
  constructor
  · intro once
    refine List.eq_nil_iff_forall_not_mem.mpr fun fd orphaned => ?_
    have nobody : ∀ i, ¬ s.Holds i fd := fun i held => sound.apart fd (sound.matched.present held) orphaned
    have balance := sound.balanced fd
    rw [once fd nobody, if_pos (.inr orphaned)] at balance
    omega
  · intro none fd nobody
    have gone : fd ∉ s.table.opened := by
      intro there
      obtain ⟨i, held⟩ := sound.matched.owned there
      exact nobody i held
    simpa [gone, none] using sound.balanced fd

theorem refuses (alive : s.pipe o = some p) : s.Refuses o p := by
  constructor
  · intro none answer nbyte
    rcases p.read_cases answer nbyte s.table with ⟨_, refused⟩ | ⟨fd, held, _⟩
    · exact refused
    · simp [descriptor, alive, held] at none
  · intro none answer buffer
    rcases p.write_cases answer buffer s.table with ⟨_, refused⟩ | ⟨fd, held, _⟩
    · exact refused
    · simp [descriptor, alive, held] at none

/-- In every state that operations on pipes lead to, on either system, each descriptor that a pipe was given
is held at one end of one live object as long as it is open, and these hold nothing else; the calls that
reach the kernel are those with what the object operated on holds; and every object can be destroyed. Each
descriptor that no object holds was closed as often as it was obtained if and only if no constructor has
thrown on OS X between `pipe` and its end. -/
theorem descriptors_closed_once_iff {foreign : List Int} {ts : List (Transition PipeObjects Action)}
    (run : Run (step platform oCloexec) (init foreign) ts s) :
    (s.Matched ∧ s.Balanced ∧
      (∀ t ∈ ts, t.after.table.calls = t.before.table.calls ++ t.before.ownCalls t.action) ∧
      ∀ o p, s.pipe o = some p → (∀ ep, p.isOpen ep = true ↔ p.fd ep ∈ s.table.opened) ∧ s.Refuses o p ∧
        ∃ s', s.destroy o = some s') ∧
    (s.ClosedOnce ↔ ∀ t ∈ ts, ¬ Leaks platform oCloexec t.action) := by
  have known := sound run
  refine ⟨⟨known.matched, known.balanced, fun t member => ?_, fun o p alive => ?_⟩, ?_⟩
  · obtain ⟨taken, _, _, _, reached⟩ := run.transition member
    exact ((sound reached).step taken).2.1
  · obtain ⟨s', destroyed, _⟩ := known.destroy alive
    exact ⟨known.isOpen_iff alive, refuses alive, s', destroyed⟩
  · rw [known.closedOnce_iff]
    exact run.kept_iff_guard (I := Sound) (P := fun s => s.table.orphans = [])
      (G := fun _ a => ¬ Leaks platform oCloexec a) sound rfl (fun known taken => (known.step taken).2.2)

/-- On OS X: an object is assigned another one and then itself, a third one is moved from, the kernel uses
numbers again, and all objects are destroyed. -/
theorem descriptors_closed_once_iff_reused : ∃ ts s, Run (step .mac 0x1000000) (init [0, 1, 2]) ts s ∧
    ts.map Transition.action = [.construct (.ok (3, 4)), .constructFlags 0x1000000 (fun _ => none) (.ok (5, 6)),
      .moveAssign 0 1, .read 0 (.ok [7]) 1, .moveAssign 0 0, .construct (.ok (3, 5)), .moveConstruct 2,
      .close 3 .writeEnd, .destroy 0, .destroy 1, .destroy 2, .destroy 3] ∧
    s.table.obtained = [3, 4, 5, 6, 3, 5] ∧ s.table.opened = [] ∧ s.ClosedOnce := by
  obtain ⟨ts, s, run, labels, test⟩ := run_of_exec_any (step .mac 0x1000000) (init [0, 1, 2])
    [.construct (.ok (3, 4)), .constructFlags 0x1000000 (fun _ => none) (.ok (5, 6)), .moveAssign 0 1,
      .read 0 (.ok [7]) 1, .moveAssign 0 0, .construct (.ok (3, 5)), .moveConstruct 2, .close 3 .writeEnd,
      .destroy 0, .destroy 1, .destroy 2, .destroy 3]
    (fun s => s.table.obtained = [3, 4, 5, 6, 3, 5] && s.table.opened = []) rfl
  obtain ⟨obtained, closed⟩ := Bool.and_eq_true_iff.mp test
  refine ⟨ts, s, run, labels, of_decide_eq_true obtained, of_decide_eq_true closed,
    (descriptors_closed_once_iff run).2.mpr fun t member leaks => ?_⟩
  have action := List.mem_map_of_mem (f := Transition.action) member
  rw [labels] at action
  cases made : t.action with
  | constructFlags flags failure answer =>
    simp only [made, List.mem_cons, Action.constructFlags.injEq, reduceCtorEq, List.not_mem_nil, or_false,
      false_or] at action
    obtain ⟨rfl, rfl, rfl⟩ := action
    rw [made] at leaks
    exact leaks.2 ⟨⟨by decide, rfl, rfl⟩, by decide, rfl, rfl⟩
  | _ => simp [made, Leaks] at leaks

/-- On OS X a pipe is to be made with `O_NONBLOCK`: there is no object, and the two descriptors that were
obtained are never closed. -/
theorem descriptors_left_open : ∃ ts s, Run (step .mac 0x1000000) (init [0, 1, 2]) ts s ∧
    ts.map Transition.action = [.constructFlags 4 (fun _ => none) (.ok (3, 4))] ∧ s.pipes = [] ∧
    s.table.obtained = [3, 4] ∧ s.table.closes = [] ∧ ¬ s.ClosedOnce := by
  obtain ⟨ts, s, run, labels, test⟩ := run_of_exec_any (step .mac 0x1000000) (init [0, 1, 2])
    [.constructFlags 4 (fun _ => none) (.ok (3, 4))]
    (fun s => s.pipes = [] ∧ s.table.obtained = [3, 4] ∧ s.table.closes = []) rfl
  obtain ⟨none, obtained, closes⟩ := of_decide_eq_true test
  refine ⟨ts, s, run, labels, none, obtained, closes, fun once => ?_⟩
  have balance := once 3 fun i held => by simp [Holds, descriptor, pipe, none] at held
  simp [obtained, closes] at balance

end PipeObjects

end Aser
