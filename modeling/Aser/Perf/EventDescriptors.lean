import Aser.Library.Ownership
import Aser.Library.Run
import Aser.Library.Slots
import Aser.Perf.Event

namespace Aser.Perf

open Library

/-- Any number of `event` objects, numbered in the order they were constructed, `none` once
destroyed; the descriptors `perf_event_open` returned that are still open; and whatever else the
process has open. -/
structure EventObjects where
  events : List (Option Event)
  opened : List Int
  foreign : List Int

namespace EventObjects

def init (foreign : List Int) : EventObjects := ⟨[], [], foreign⟩

def event (s : EventObjects) (o : Nat) : Option Event := slot s.events o

def put (s : EventObjects) (o : Nat) (e : Option Event) : EventObjects :=
  { s with events := s.events.set o e }

/-- `close` on a number closes whatever is open under it. -/
def close (s : EventObjects) (fd : Int) : EventObjects :=
  { s with opened := s.opened.filter (· ≠ fd), foreign := s.foreign.filter (· ≠ fd) }

/-- The kernel returns an error, or a number that is not in use. -/
def mayOpen (s : EventObjects) : Except Int Int → Bool
  | .error _ => true
  | .ok fd => 0 ≤ fd ∧ fd ∉ s.opened ∧ fd ∉ s.foreign

inductive Action
  | construct (info : EventInfo)
  | openFd (o : Nat) (pid : Pid) (attach : Bool) (perfEventOpen : Except Int Int)
  | read (o : Nat) (readFd : Except Int Counts)
  | moveConstruct (source : Nat)
  | moveAssign (target source : Nat)
  | destroy (o : Nat)
  | foreignOpen (fd : Int)
  | foreignClose (fd : Int)

/-- An operation on an event that is alive, or one on a descriptor that is none of theirs. -/
def step (s : EventObjects) : Action → Option EventObjects
  | .construct info => (Event.make info).map fun e => { s with events := s.events ++ [some e] }
  | .openFd o pid attach perfEventOpen =>
    (s.event o).bind fun e =>
      if s.mayOpen perfEventOpen then
        some { s.put o (e.openFd pid attach fun _ _ => perfEventOpen).2 with
          opened := match perfEventOpen with
            | .error _ => s.opened
            | .ok fd => fd :: s.opened }
      else none
  | .read o readFd => (s.event o).map fun e => s.put o (e.read fun _ => readFd).2
  | .moveConstruct source =>
    (s.event source).map fun e =>
      { s with events := s.events.set source (some e.movedFrom) ++ [some e] }
  | .moveAssign target source =>
    (s.event source).bind fun e =>
      (s.event target).map fun _ => (s.put target e).put source e.movedFrom
  | .destroy o =>
    (s.event o).map fun e =>
      match e.impl.destroy with
      | none => s.put o none
      | some fd => (s.put o none).close fd
  | .foreignOpen fd =>
    if s.mayOpen (.ok fd) then some { s with foreign := fd :: s.foreign } else none
  | .foreignClose fd =>
    if fd ∈ s.foreign then some { s with foreign := s.foreign.filter (· ≠ fd) } else none

/-- The live event `o` refers to the descriptor `fd` and will close it. -/
def Holds (s : EventObjects) (o : Nat) (fd : Int) : Prop :=
  (s.event o).bind (·.impl.destroy) = some fd

/-- Every descriptor still open belongs to exactly one live event, and live events refer to open
descriptors only. -/
def Matched (s : EventObjects) : Prop := Exclusive s.Holds (· ∈ s.opened)

/-- What the destructor closes is open and no other live event refers to it. -/
def ClosesOwn (s : EventObjects) (a : Action) : Prop :=
  match a with
  | .destroy o => ∀ fd, s.Holds o fd → fd ∈ s.opened ∧ ∀ j, s.Holds j fd → j = o
  | _ => True

/-- The event refers to no descriptor. -/
def Closed (s : EventObjects) (o : Nat) : Prop := ∀ fd, ¬ s.Holds o fd

/-- Only closed events are opened, with a descriptor other than 0, and no open event takes part in a
move, other than one to itself. -/
def MovesClosed (s : EventObjects) (a : Action) : Prop :=
  match a with
  | .openFd o _ _ (.ok fd) => fd ≠ 0 ∧ s.Closed o
  | .moveConstruct source => s.Closed source
  | .moveAssign target source => target = source ∨ s.Closed target ∧ s.Closed source
  | _ => True

variable {s s' : EventObjects} {o : Nat} {e : Event} {fd : Int}

theorem event_put (alive : s.event o = some e) (e' : Option Event) (j : Nat) :
    (s.put o e').event j = if j = o then e' else s.event j :=
  slot_set alive e' j

theorem holds_self (alive : s.event o = some e) : s.Holds o fd ↔ e.impl.destroy = some fd := by
  simp [Holds, alive]

theorem closed_iff (alive : s.event o = some e) : s.Closed o ↔ e.impl.destroy = none := by
  constructor
  · intro closed
    cases held : e.impl.destroy with
    | none => rfl
    | some fd => exact absurd ((holds_self alive).mpr held) (closed fd)
  · intro none fd held
    simp [holds_self alive, none] at held

/-- Replacing an event changes what it holds itself. -/
theorem holds_put (alive : s.event o = some e) (e' : Option Event) (opened foreign : List Int) (j : Nat) :
    Holds ⟨(s.put o e').events, opened, foreign⟩ j fd ↔
      if j = o then e'.bind (·.impl.destroy) = some fd else s.Holds j fd := by
  have same : (EventObjects.mk (s.put o e').events opened foreign).event j = (s.put o e').event j := rfl
  unfold Holds
  rw [same, event_put alive]
  split <;> rfl

/-- An event that holds nothing before and after is as good as untouched. -/
theorem holds_put_closed {q : Option Event} (alive : s.event o = some e) (closed : e.impl.destroy = none)
    (closed' : q.bind (·.impl.destroy) = none) (opened foreign : List Int) (j : Nat) :
    Holds ⟨(s.put o q).events, opened, foreign⟩ j fd ↔ s.Holds j fd := by
  rw [holds_put alive]
  split
  · rename_i here
    simp [here, holds_self alive, closed, closed']
  · rfl

theorem holds_append (s : EventObjects) (e : Event) (closed : e.impl.destroy = none) (j : Nat) :
    Holds { s with events := s.events ++ [some e] } j fd ↔ s.Holds j fd := by
  unfold Holds event
  rw [slot_append]
  split
  · rename_i last
    simp [last, closed]
  · rfl

theorem Matched.openFd (m : s.Matched) {pid : Pid} {attach : Bool} {answer : Except Int Int}
    (taken : s.step (.openFd o pid attach answer) = some s') :
    s'.Matched ↔ s.MovesClosed (.openFd o pid attach answer) := by
  obtain ⟨e, alive, taken⟩ := Option.bind_eq_some_iff.mp taken
  split at taken
  · rename_i may
    cases Option.some.inj taken
    cases answer with
    | error errno =>
      refine iff_of_true (Exclusive.congr m (fun j fd => ?_) (fun _ => Iff.rfl)) trivial
      rw [Event.openFd_error, holds_put alive]
      split
      · rename_i here
        rw [here, holds_self alive]
        rfl
      · rfl
    | ok fd =>
      have fresh : fd ∉ s.opened := by
        simp only [mayOpen, decide_eq_true_eq] at may
        exact may.2.1
      have holdsNow : ∀ j x, Holds { s.put o (e.openFd pid attach fun _ _ => .ok fd).2 with
          opened := fd :: s.opened } j x ↔
          if j = o then fd ≠ 0 ∧ x = fd else s.Holds j x := by
        intro j x
        rw [holds_put alive]
        split
        · simp [Event.openFd, EventLinuxImpl.openFd, EventLinuxImpl.destroy, eq_comm]
        · rfl
      constructor
      · intro m'
        have owned : ∀ x, x = fd ∨ x ∈ s.opened → ∃ j, if j = o then fd ≠ 0 ∧ x = fd else s.Holds j x := by
          intro x there
          obtain ⟨j, held⟩ := m'.owned (by simpa using there)
          exact ⟨j, (holdsNow j x).mp held⟩
        refine ⟨?_, fun x held => ?_⟩
        · obtain ⟨j, held⟩ := owned fd (.inl rfl)
          split at held
          · exact held.1
          · exact absurd (m.present held) fresh
        · obtain ⟨j, held'⟩ := owned x (.inr (m.present held))
          split at held'
          · exact fresh (held'.2 ▸ m.present held)
          · rename_i elsewhere
            exact elsewhere (m.single held' held)
      · intro guard
        obtain ⟨notZero, closed⟩ := guard
        refine Exclusive.acquire (i := o) m fresh (fun j x => ?_) (fun x => by simp [or_comm])
        rw [holdsNow]
        split
        · rename_i here
          subst here
          simp [notZero, closed x]
        · rename_i elsewhere
          simp [elsewhere]
  · simp at taken

theorem Matched.moveConstruct (m : s.Matched) {source : Nat}
    (taken : s.step (.moveConstruct source) = some s') :
    s'.Matched ↔ s.MovesClosed (.moveConstruct source) := by
  obtain ⟨e, alive, rfl⟩ := Option.map_eq_some_iff.mp taken
  have within := slot_lt alive
  constructor
  · intro m' fd held
    -- the new event and its source both refer to the descriptor
    have atSource : Holds ⟨s.events.set source (some e.movedFrom) ++ [some e], s.opened, s.foreign⟩ source fd := by
      have other : source ≠ (s.events.set source (some e.movedFrom)).length := by
        rw [List.length_set]
        omega
      have still := (holds_self alive).mp held
      simpa [Holds, event, slot_append, other, slot_set alive, Event.movedFrom] using still
    have atNew : Holds ⟨s.events.set source (some e.movedFrom) ++ [some e], s.opened, s.foreign⟩
        s.events.length fd := by
      have still := (holds_self alive).mp held
      simpa [Holds, event, slot_append] using still
    have same := m'.single atSource atNew
    omega
  · intro closed
    have free := (closed_iff alive).mp closed
    have moved : Matched (s.put source (some e.movedFrom)) :=
      Exclusive.congr m (fun j fd => holds_put_closed (q := some e.movedFrom) alive free free _ _ j) (fun _ => Iff.rfl)
    exact Exclusive.congr moved (fun j fd => holds_append (s.put source _) e free j) (fun _ => Iff.rfl)

theorem Matched.moveAssign (m : s.Matched) {target source : Nat}
    (taken : s.step (.moveAssign target source) = some s') :
    s'.Matched ↔ s.MovesClosed (.moveAssign target source) := by
  obtain ⟨e, alive, taken⟩ := Option.bind_eq_some_iff.mp taken
  obtain ⟨e', alive', rfl⟩ := Option.map_eq_some_iff.mp taken
  have given : (s.put target (some e)).event source = some e := by
    rw [event_put alive']
    split
    · rfl
    · exact alive
  have holdsNow : ∀ j fd, ((s.put target (some e)).put source (some e.movedFrom)).Holds j fd ↔
      if j = source ∨ j = target then e.impl.destroy = some fd else s.Holds j fd := by
    intro j fd
    unfold Holds
    rw [event_put given, event_put alive']
    by_cases atSource : j = source
    · simp [atSource, Event.movedFrom]
    · by_cases atTarget : j = target
      · subst atTarget
        simp [atSource]
      · simp [atSource, atTarget]
  constructor
  · intro m'
    by_cases same : target = source
    · exact .inl same
    refine .inr ⟨fun fd held => ?_, fun fd held => ?_⟩
    · -- the descriptor of the target is open, so somebody must have it; it can only be the source
      obtain ⟨j, held'⟩ := m'.owned (m.present held)
      rw [holdsNow] at held'
      split at held'
      · exact same (m.single held ((holds_self alive).mpr held'))
      · rename_i other
        exact other (.inr (m.single held' held))
    · have still := (holds_self alive).mp held
      have atSource := (holdsNow source fd).mpr (by simpa using still)
      have atTarget := (holdsNow target fd).mpr (by simpa using still)
      exact same (m'.single atTarget atSource)
  · intro guard
    rcases guard with rfl | ⟨closedTarget, closedSource⟩
    · refine Exclusive.congr m (fun j fd => ?_) (fun _ => Iff.rfl)
      rw [holdsNow]
      split
      · rename_i here
        rw [or_self] at here
        rw [here, holds_self alive]
      · rfl
    · refine Exclusive.congr m (fun j fd => ?_) (fun _ => Iff.rfl)
      rw [holdsNow]
      split
      · rename_i here
        have none := (closed_iff alive).mp closedSource
        rcases here with rfl | rfl
        · simp [none, closedSource fd]
        · simp [none, closedTarget fd]
      · rfl

theorem Matched.destroy (m : s.Matched) (taken : s.step (.destroy o) = some s') :
    s'.Matched ∧ s.ClosesOwn (.destroy o) := by
  obtain ⟨e, alive, rfl⟩ := Option.map_eq_some_iff.mp taken
  refine ⟨?_, fun fd held => ⟨m.present held, fun j other => m.single other held⟩⟩
  cases owns : e.impl.destroy with
  | none => exact Exclusive.congr m (fun j fd => holds_put_closed alive owns rfl _ _ j) (fun _ => Iff.rfl)
  | some fd =>
    have held := (holds_self alive).mpr owns
    refine Exclusive.release m held (fun j x => ?_) (fun x => by simp [close, put])
    refine (holds_put alive none _ _ j).trans ?_
    split
    · rename_i here
      subst here
      simp [holds_self alive, owns, eq_comm]
    · rename_i elsewhere
      simp [elsewhere]

theorem Matched.step (m : s.Matched) {a : Action} (taken : s.step a = some s') :
    s'.Matched ∧ s.ClosesOwn a ↔ s.MovesClosed a := by
  cases a with
  | construct info =>
    obtain ⟨e, made, rfl⟩ := Option.map_eq_some_iff.mp taken
    have closed : e.impl.destroy = none := by simp [EventLinuxImpl.destroy, Event.make_closed made]
    exact iff_of_true ⟨Exclusive.congr m (fun j fd => holds_append s e closed j) (fun _ => Iff.rfl), trivial⟩ trivial
  | openFd o pid attach answer => exact (and_iff_left trivial).trans (m.openFd taken)
  | read o readFd =>
    obtain ⟨e, alive, rfl⟩ := Option.map_eq_some_iff.mp taken
    refine iff_of_true ⟨Exclusive.congr m (fun j fd => ?_) (fun _ => Iff.rfl), trivial⟩ trivial
    refine (holds_put alive _ _ _ j).trans ?_
    split
    · rename_i here
      simp [here, holds_self alive]
    · rfl
  | moveConstruct source => exact (and_iff_left trivial).trans (m.moveConstruct taken)
  | moveAssign target source => exact (and_iff_left trivial).trans (m.moveAssign taken)
  | destroy o => exact iff_of_true (m.destroy taken) trivial
  | foreignOpen fd =>
    simp only [EventObjects.step, Option.ite_none_right_eq_some, Option.some.injEq] at taken
    obtain ⟨_, rfl⟩ := taken
    exact iff_of_true ⟨Exclusive.congr m (fun _ _ => Iff.rfl) (fun _ => Iff.rfl), trivial⟩ trivial
  | foreignClose fd =>
    simp only [EventObjects.step, Option.ite_none_right_eq_some, Option.some.injEq] at taken
    obtain ⟨_, rfl⟩ := taken
    exact iff_of_true ⟨Exclusive.congr m (fun _ _ => Iff.rfl) (fun _ => Iff.rfl), trivial⟩ trivial

theorem init_matched (foreign : List Int) : (init foreign).Matched where
  owned there := by simp [init] at there
  single held := by simp [init, Holds, event] at held
  present held := by simp [init, Holds, event] at held

/-- In a run every open descriptor belongs to one live event and is closed by that event only, exactly
if no event is opened while it is open or under descriptor 0, and none takes part in a move while it
is open; nothing stays open then when all events are gone. -/
theorem descriptors_iff {foreign : List Int} {ts : List (Transition EventObjects Action)}
    (run : Run step (init foreign) ts s) :
    ((∀ t ∈ ts, t.after.Matched ∧ t.before.ClosesOwn t.action) ↔ ∀ t ∈ ts, t.before.MovesClosed t.action) ∧
      ((∀ t ∈ ts, t.before.MovesClosed t.action) → (∀ o, s.event o = none) → s.opened = []) := by
  refine ⟨Run.contract_iff_guard (I := fun _ => True) (P := Matched) (Q := fun s a _ => s.ClosesOwn a)
    (fun _ => trivial) (init_matched foreign) (fun _ m taken => m.step taken) run, fun guarded gone => ?_⟩
  have m : s.Matched := run.invariant_of_guard (I := Matched) (init_matched foreign)
    (fun m guard taken => ((m.step taken).mpr guard).1) guarded
  refine List.eq_nil_iff_forall_not_mem.mpr fun fd there => ?_
  obtain ⟨o, held⟩ := m.owned there
  simp [Holds, gone o] at held

/-- An event is opened and destroyed, and its descriptor is closed. -/
theorem descriptors_iff_destroyed : ∃ ts s, Run step (init [0, 1, 2]) ts s ∧
    ts.map Transition.action = [.construct ⟨.hardware, 0, 0⟩, .openFd 0 7 true (.ok 3), .destroy 0] ∧
    (∀ t ∈ ts, t.after.Matched ∧ t.before.ClosesOwn t.action) ∧ s.opened = [] := by
  let fresh : EventObjects := ⟨[some { info := ⟨.hardware, 0, 0⟩ }], [], [0, 1, 2]⟩
  let inUse : EventObjects := ⟨[some { info := ⟨.hardware, 0, 0⟩, impl := ⟨3⟩ }], [3], [0, 1, 2]⟩
  let done : EventObjects := ⟨[none], [], [0, 1, 2]⟩
  have run : Run step (init [0, 1, 2]) [⟨init [0, 1, 2], .construct ⟨.hardware, 0, 0⟩, fresh⟩,
      ⟨fresh, .openFd 0 7 true (.ok 3), inUse⟩, ⟨inUse, .destroy 0, done⟩] done :=
    .next (.next (.next .start rfl) rfl) rfl
  have guarded : ∀ t ∈ [⟨init [0, 1, 2], .construct ⟨.hardware, 0, 0⟩, fresh⟩,
      ⟨fresh, .openFd 0 7 true (.ok 3), inUse⟩, (⟨inUse, .destroy 0, done⟩ : Transition EventObjects Action)],
      t.before.MovesClosed t.action := by
    simp only [List.forall_mem_cons, List.not_mem_nil, false_imp_iff, implies_true, and_true]
    refine ⟨trivial, ⟨by decide, fun fd held => ?_⟩, trivial⟩
    simp [fresh, Holds, event, slot, EventLinuxImpl.destroy] at held
  exact ⟨_, _, run, rfl, (descriptors_iff run).1.mpr guarded, rfl⟩

/-- An open event is moved from and destroyed: the descriptor is closed under the event that it was
moved to. -/
theorem closed_under_live_event : ∃ ts s, Run step (init [0, 1, 2]) ts s ∧
    ts.map Transition.action = [.construct ⟨.hardware, 0, 0⟩, .openFd 0 7 true (.ok 3), .moveConstruct 0, .destroy 0] ∧
    s.Holds 1 3 ∧ 3 ∉ s.opened ∧ ¬ s.Matched := by
  obtain ⟨ts, s, run, labels, stale⟩ := run_of_exec_any step (init [0, 1, 2])
    [.construct ⟨.hardware, 0, 0⟩, .openFd 0 7 true (.ok 3), .moveConstruct 0, .destroy 0]
    (fun s => (s.event 1).bind (·.impl.destroy) = some 3 ∧ 3 ∉ s.opened) rfl
  obtain ⟨held, gone⟩ := of_decide_eq_true stale
  exact ⟨ts, s, run, labels, held, gone, fun m => gone (m.present held)⟩

end EventObjects

end Aser.Perf
