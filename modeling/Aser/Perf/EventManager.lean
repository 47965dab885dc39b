import Aser.Perf.EventScale

namespace Aser.Perf

open Library

/-- An event of an `event_manager` with its place in `latest_samples_`. -/
structure EventSlot where
  event : Event
  latestSample : EventSample := ⟨.finite 0, .finite 0, false⟩
  deriving DecidableEq

/-- `event_manager<event<event_linux_impl>>`: `events_` and `latest_samples_` side by side, which have
the same length from the constructor on. -/
structure EventManager where
  slots : List EventSlot
  deriving DecidableEq

namespace EventManager

/-- What the constructor makes; opening the events leaves their counters alone. -/
def make (events : List EventInfo) : EventManager := ⟨events.map fun info => { event := { info } }⟩

def latestSamples (m : EventManager) : List EventSample := m.slots.map EventSlot.latestSample

/-- The reference counters of the events. -/
def references (m : EventManager) : List Counts := m.slots.map (·.event.prev)

/-- The counters that were read last. -/
def counts (m : EventManager) : List Counts := m.slots.map fun slot => slot.event.count.getD .zero

/-- The loop over `read`; `answers` is what the `read` of each event gives. -/
def readAll : List EventSlot → (Nat → Except Int Counts) → Except Exception Unit × List EventSlot
  | [], _ => (.ok (), [])
  | slot :: rest, answers =>
    let (result, event) := slot.event.read fun _ => answers 0
    match result with
    | .error thrown => (.error thrown, { slot with event } :: rest)
    | .ok () =>
      let (result, rest) := readAll rest fun k => answers (k + 1)
      (result, { slot with event } :: rest)

/-- The `std::transform` over `scale`, which writes every sample as it comes. -/
def scaleAll (mode : EventReadMode) : List EventSlot → Option (Except Exception Unit × List EventSlot)
  | [] => some (.ok (), [])
  | slot :: rest => (slot.event.scale mode).bind fun (result, event) => match result with
    | .error thrown => some (.error thrown, { slot with event } :: rest)
    | .ok latestSample => (scaleAll mode rest).map fun (result, rest) =>
      (result, { event, latestSample } :: rest)

def readEvents (m : EventManager) (mode : EventReadMode) (answers : Nat → Except Int Counts) :
    Option (Except Exception (List EventSample) × EventManager) :=
  match readAll m.slots answers with
  | (.error thrown, slots) => some (.error thrown, { slots })
  | (.ok (), slots) => (scaleAll mode slots).map fun (result, slots) =>
      (result.map fun _ => latestSamples { slots }, { slots })

end EventManager

/-- An event of the manager with the counters that a call read for it. -/
abbrev Reading := EventSlot × Counts

namespace Reading

/-- What `read` makes of the slot. -/
def taken (r : Reading) : EventSlot := { r.1 with event := { r.1.event with count := some r.2 } }

/-- What `scale` makes of it then, if the counters pass its guards. -/
def reported (mode : EventReadMode) (r : Reading) : EventSlot where
  event := r.taken.event.moveReference r.2 mode
  latestSample := (r.2.span r.1.event.prev mode).sample

def Passes (r : Reading) : Prop := r.2.check r.1.event.prev = .ok ()

instance (r : Reading) : Decidable r.Passes := inferInstanceAs (Decidable (_ = _))

/-- Nothing happened to the event since it was reported, nor before that. -/
def Idle (r : Reading) : Prop := r.2 = r.1.event.prev ∧ r.1.latestSample = ⟨.finite 0, .finite 0, false⟩

instance (r : Reading) : Decidable r.Idle := inferInstanceAs (Decidable (_ ∧ _))

/-- Only idle events come before one that is rejected, if that is the first. -/
def Harmless : List Reading → Prop
  | [] => True
  | r :: rest => ¬ Passes r ∨ (∀ p ∈ rest, Passes p) ∨ Idle r ∧ Harmless rest

end Reading

namespace EventManager

variable {slots : List EventSlot} {answers : Nat → Except Int Counts} {mode : EventReadMode}

/-- The counters that the answers give to `n` events, if none of them is an error. -/
def Answered (n : Nat) (answers : Nat → Except Int Counts) (counts : List Counts) : Prop :=
  counts.length = n ∧ ∀ i count, counts[i]? = some count → answers i = .ok count

theorem answered_or_fails (n : Nat) (answers : Nat → Except Int Counts) :
    (∃ counts, Answered n answers counts) ∨ ∃ i < n, ∃ errno, answers i = .error errno := by
  induction n generalizing answers with
  | zero => exact .inl ⟨[], rfl, by simp⟩
  | succ n ih =>
    cases answer : answers 0 with
    | error errno => exact .inr ⟨0, Nat.zero_lt_succ n, errno, answer⟩
    | ok count =>
      rcases ih fun k => answers (k + 1) with ⟨counts, length, known⟩ | ⟨i, within, errno, fails⟩
      · refine .inl ⟨count :: counts, by simp [length], ?_⟩
        intro i count' atI
        cases i with
        | zero =>
          cases Option.some.inj atI
          exact answer
        | succ i => exact known i count' atI
      · exact .inr ⟨i + 1, Nat.succ_lt_succ within, errno, fails⟩

/-- Whether it succeeds or not, reading changes no reference counters and no sample. -/
theorem readAll_frame (slots : List EventSlot) (answers : Nat → Except Int Counts) :
    (readAll slots answers).2.map (·.event.prev) = slots.map (·.event.prev) ∧
      (readAll slots answers).2.map EventSlot.latestSample = slots.map EventSlot.latestSample := by
  induction slots generalizing answers with
  | nil => exact ⟨rfl, rfl⟩
  | cons slot rest ih =>
    cases answer : answers 0 with
    | error errno => simp [readAll, answer, Event.read, EventLinuxImpl.read, libcError]
    | ok count =>
      obtain ⟨prev, latest⟩ := ih fun k => answers (k + 1)
      simp [readAll, answer, Event.read, EventLinuxImpl.read, prev, latest]

theorem readAll_answered {counts : List Counts} (answered : Answered slots.length answers counts) :
    readAll slots answers = (.ok (), (slots.zip counts).map Reading.taken) := by
  obtain ⟨length, known⟩ := answered
  induction slots generalizing answers counts with
  | nil => rfl
  | cons slot rest ih =>
    cases counts with
    | nil => simp at length
    | cons count counts =>
      have first : answers 0 = .ok count := known 0 count rfl
      have later : readAll rest (fun k => answers (k + 1)) = (.ok (), (rest.zip counts).map Reading.taken) :=
        ih (by simpa using length) (fun i count' atI => known (i + 1) count' atI)
      simp [readAll, first, Event.read, EventLinuxImpl.read, later, Reading.taken]

theorem readAll_fails {i : Nat} {errno : Int} (within : i < slots.length) (fails : answers i = .error errno) :
    ∃ thrown, (readAll slots answers).1 = .error thrown := by
  induction slots generalizing answers i with
  | nil => simp at within
  | cons slot rest ih =>
    cases answer : answers 0 with
    | error errno => simp [readAll, answer, Event.read, EventLinuxImpl.read, libcError]
    | ok count =>
      cases i with
      | zero => simp [answer] at fails
      | succ i =>
        have later : ∃ thrown, (readAll rest fun k => answers (k + 1)).1 = .error thrown :=
          ih (by simpa using within) fails
        obtain ⟨thrown, failed⟩ := later
        exact ⟨thrown, by simp [readAll, answer, Event.read, EventLinuxImpl.read, failed]⟩

theorem scaleAll_passes {r : Reading} (passes : r.Passes) (rest : List EventSlot) :
    scaleAll mode (r.taken :: rest) =
      (scaleAll mode rest).map fun (result, rest) => (result, r.reported mode :: rest) := by
  have check : r.2.check r.1.event.prev = .ok () := passes
  simp [scaleAll, Event.scale, Reading.taken, Reading.reported, check]

theorem scaleAll_rejected {r : Reading} {thrown : Exception} (rejected : r.2.check r.1.event.prev = .error thrown)
    (rest : List EventSlot) : scaleAll mode (r.taken :: rest) = some (.error thrown, r.taken :: rest) := by
  simp [scaleAll, Event.scale, Reading.taken, rejected]

/-- Scaling reports the events one by one, up to the first one that is rejected. -/
theorem scaleAll_cases (mode : EventReadMode) (readings : List Reading) :
    ((∀ r ∈ readings, r.Passes) ∧
      scaleAll mode (readings.map Reading.taken) = some (.ok (), readings.map (Reading.reported mode))) ∨
    ∃ before r after thrown, readings = before ++ r :: after ∧ (∀ q ∈ before, Reading.Passes q) ∧
      ¬ Reading.Passes r ∧ scaleAll mode (readings.map Reading.taken) =
        some (.error thrown, before.map (Reading.reported mode) ++ (r :: after).map Reading.taken) := by
  induction readings with
  | nil => exact .inl ⟨by simp, rfl⟩
  | cons r rest ih =>
    cases check : r.2.check r.1.event.prev with
    | error thrown =>
      exact .inr ⟨[], r, rest, thrown, rfl, by simp, by simp [Reading.Passes, check], scaleAll_rejected check _⟩
    | ok passed =>
      have first : r.Passes := check
      rcases ih with ⟨pass, scaled⟩ | ⟨before, p, after, thrown, rfl, pass, rejected, scaled⟩
      · refine .inl ⟨by simpa [first] using pass, ?_⟩
        rw [List.map_cons, scaleAll_passes first, scaled]
        rfl
      · refine .inr ⟨r :: before, p, after, thrown, rfl, by simpa [first] using pass, rejected, ?_⟩
        rw [List.map_cons, scaleAll_passes first, scaled]
        rfl

theorem harmless_of_passes {readings : List Reading} (pass : ∀ r ∈ readings, r.Passes) :
    Reading.Harmless readings := by
  cases readings with
  | nil => trivial
  | cons r rest => exact .inr (.inl fun p member => pass p (List.mem_cons_of_mem r member))

theorem harmless_iff {before after : List Reading} {r : Reading} (pass : ∀ q ∈ before, q.Passes)
    (rejected : ¬ r.Passes) : Reading.Harmless (before ++ r :: after) ↔ ∀ q ∈ before, q.Idle := by
  induction before with
  | nil => exact iff_of_true (.inl rejected) (by simp)
  | cons q before ih =>
    rw [List.forall_mem_cons] at pass
    have later : ¬ ∀ p ∈ before ++ r :: after, Reading.Passes p := fun all => rejected (all r (by simp))
    rw [List.cons_append, Reading.Harmless, ih pass.2, List.forall_mem_cons]
    simp only [not_not.mpr pass.1, later, false_or]

/-- Reporting leaves a slot as it was exactly if its event is idle. -/
theorem reported_same_iff (r : Reading) :
    (r.reported .relative).event.prev = r.1.event.prev ∧ (r.reported .relative).latestSample = r.1.latestSample ↔
      r.Idle := by
  have reference : (r.reported .relative).event.prev = r.2 := rfl
  rw [reference, Reading.Idle]
  refine and_congr_right fun same => ?_
  have empty : (r.reported .relative).latestSample = ⟨.finite 0, .finite 0, false⟩ := by
    simp [Reading.reported, same, Counts.span, Counts.sample]
  rw [empty]
  exact eq_comm

end EventManager

/-- An `event_manager` on which `read_events(RELATIVE)` is called, with the counters that the calls that
succeeded have read. -/
structure ManagedEvents where
  manager : EventManager
  reported : List (List Counts) := []

namespace ManagedEvents

def init (events : List EventInfo) : ManagedEvents where manager := .make events

/-- One call; `answers` is what the kernel gives to each of its events. -/
def step (s : ManagedEvents) (answers : Nat → Except Int Counts) : Option ManagedEvents :=
  (s.manager.readEvents .relative answers).map fun (result, manager) =>
    { manager, reported := if result.toBool then s.reported ++ [manager.counts] else s.reported }

/-- The counters at the last call that succeeded, zero before there is one. -/
def base (s : ManagedEvents) : List Counts :=
  s.reported.getLast?.getD (s.manager.slots.map fun _ => .zero)

/-- Every event refers to the last call that succeeded. -/
def Referred (s : ManagedEvents) : Prop := s.manager.references = s.base

/-- A call that throws leaves the samples and the reference counters as they were; one that does not
reports for every event the counts since the last call that did not. -/
def Atomic (s : ManagedEvents) (answers : Nat → Except Int Counts) (s' : ManagedEvents) : Prop :=
  ∃ result, s.manager.readEvents .relative answers = some (result, s'.manager) ∧
    match result with
    | .error _ => s'.manager.latestSamples = s.manager.latestSamples ∧
        s'.manager.references = s.manager.references
    | .ok samples => samples = s'.manager.latestSamples ∧
        samples = List.zipWith (fun count base => (count.span base .relative).sample) s'.manager.counts s.base

/-- The call fails while it reads, or no event that moved comes before the first one whose counters are
rejected. -/
def HarmlessCall (s : ManagedEvents) (answers : Nat → Except Int Counts) : Prop :=
  ∀ counts, EventManager.Answered s.manager.slots.length answers counts →
    Reading.Harmless (s.manager.slots.zip counts)

variable {s s' : ManagedEvents} {answers : Nat → Except Int Counts}

open EventManager

theorem answered_unique {n : Nat} {counts counts' : List Counts} (answered : Answered n answers counts)
    (answered' : Answered n answers counts') : counts = counts' := by
  apply List.ext_getElem (answered.1.trans answered'.1.symm)
  intro i within within'
  have first := answered.2 i _ (List.getElem?_eq_getElem within)
  have second := answered'.2 i _ (List.getElem?_eq_getElem within')
  exact Except.ok.inj (first.symm.trans second)

/-- What a call comes to: it fails while it reads, it reports every event, or it stops at the first
event that is rejected, with the earlier ones reported. -/
theorem step_cases (taken : s.step answers = some s') :
    (∃ thrown, s.manager.readEvents .relative answers = some (.error thrown, s'.manager) ∧
      (∀ counts, ¬ Answered s.manager.slots.length answers counts) ∧ s'.reported = s.reported ∧
      s'.manager.references = s.manager.references ∧ s'.manager.latestSamples = s.manager.latestSamples) ∨
    ∃ counts, Answered s.manager.slots.length answers counts ∧
      ((s.manager.readEvents .relative answers = some (.ok s'.manager.latestSamples, s'.manager) ∧
        (∀ r ∈ s.manager.slots.zip counts, Reading.Passes r) ∧
        s'.reported = s.reported ++ [s'.manager.counts] ∧
        s'.manager.slots = (s.manager.slots.zip counts).map (Reading.reported .relative)) ∨
      ∃ before r after thrown, s.manager.slots.zip counts = before ++ r :: after ∧
        (∀ q ∈ before, Reading.Passes q) ∧ ¬ Reading.Passes r ∧
        s.manager.readEvents .relative answers = some (.error thrown, s'.manager) ∧ s'.reported = s.reported ∧
        s'.manager.slots = before.map (Reading.reported .relative) ++ (r :: after).map Reading.taken) := by
  obtain ⟨⟨result, manager⟩, call, rfl⟩ := Option.map_eq_some_iff.mp taken
  rcases answered_or_fails s.manager.slots.length answers with ⟨counts, answered⟩ | ⟨i, within, errno, fails⟩
  · refine .inr ⟨counts, answered, ?_⟩
    have called := call
    rw [readEvents, readAll_answered answered] at call
    rcases scaleAll_cases .relative (s.manager.slots.zip counts) with ⟨pass, scaled⟩ |
      ⟨before, r, after, thrown, split, pass, rejected, scaled⟩
    · simp only [scaled, Option.map_some, Option.some.injEq, Prod.mk.injEq] at call
      obtain ⟨rfl, rfl⟩ := call
      exact .inl ⟨called, pass, by simp [Except.map, Except.toBool], rfl⟩
    · simp only [scaled, Option.map_some, Option.some.injEq, Prod.mk.injEq] at call
      obtain ⟨rfl, rfl⟩ := call
      exact .inr ⟨before, r, after, thrown, split, pass, rejected, called, by simp [Except.map, Except.toBool], rfl⟩
  · obtain ⟨thrown, failed⟩ := readAll_fails within fails
    obtain ⟨references, samples⟩ := readAll_frame s.manager.slots answers
    have called := call
    rw [readEvents] at call
    split at call
    · rename_i same
      cases Option.some.inj call
      rw [same] at references samples
      refine .inl ⟨_, called, fun counts answered => ?_, by simp [Except.toBool], references, samples⟩
      have works := readAll_answered answered
      rw [same] at works
      cases works
    · rename_i same
      rw [same] at failed
      cases failed

theorem base_of_references (same : s'.manager.references = s.manager.references)
    (reported : s'.reported = s.reported) : s'.base = s.base := by
  have length := congrArg List.length same
  simp only [references, List.length_map] at length
  unfold base
  rw [reported]
  congr 1
  simpa using length

theorem slots_of_answered {counts : List Counts} (answered : Answered s.manager.slots.length answers counts) :
    s.manager.slots = (s.manager.slots.zip counts).map Prod.fst :=
  (List.map_fst_zip (Nat.le_of_eq answered.1.symm)).symm

theorem harmlessCall_iff {counts : List Counts} (answered : Answered s.manager.slots.length answers counts) :
    s.HarmlessCall answers ↔ Reading.Harmless (s.manager.slots.zip counts) := by
  constructor
  · intro harmless
    exact harmless counts answered
  · intro harmless counts' answered'
    rw [answered_unique answered' answered]
    exact harmless

/-- Of what reading leaves alone, a call that stops at an event keeps exactly what reporting the events
before it keeps. -/
theorem map_stopped_iff {β : Type*} (f : EventSlot → β) (keeps : ∀ r : Reading, f r.taken = f r.1)
    (before after : List Reading) (r : Reading) :
    (before.map (Reading.reported .relative) ++ (r :: after).map Reading.taken).map f =
        ((before ++ r :: after).map Prod.fst).map f ↔
      ∀ q ∈ before, f (q.reported .relative) = f q.1 := by
  have rest : ((r :: after).map Reading.taken).map f = ((r :: after).map Prod.fst).map f := by
    rw [List.map_map, List.map_map]
    exact List.map_congr_left fun q _ => keeps q
  rw [List.map_append, List.map_append, List.map_append, rest, List.append_cancel_right_eq, List.map_map,
    List.map_map, List.map_inj_left]
  exact Iff.rfl

/-- A call that stops at an event changes nothing exactly if the events before it are idle. -/
theorem unchanged_iff {before after : List Reading} {r : Reading}
    (start : s.manager.slots = (before ++ r :: after).map Prod.fst)
    (slots : s'.manager.slots = before.map (Reading.reported .relative) ++ (r :: after).map Reading.taken) :
    s'.manager.references = s.manager.references ∧ s'.manager.latestSamples = s.manager.latestSamples ↔
      ∀ q ∈ before, q.Idle := by
  rw [references, references, latestSamples, latestSamples, start, slots, map_stopped_iff _ (fun _ => rfl),
    map_stopped_iff _ (fun _ => rfl), ← forall₂_and]
  exact forall₂_congr fun q _ => reported_same_iff q

/-- Where every event refers to the last call that succeeded, a call is atomic, with every event
referring to the last one again, exactly if it is harmless. -/
theorem atomic_iff (referred : s.Referred) (taken : s.step answers = some s') :
    s'.Referred ∧ s.Atomic answers s' ↔ s.HarmlessCall answers := by
  have unchanged : ∀ thrown, s.manager.readEvents .relative answers = some (.error thrown, s'.manager) →
      s'.reported = s.reported →
      (s'.Referred ∧ s.Atomic answers s' ↔ s'.manager.references = s.manager.references ∧
        s'.manager.latestSamples = s.manager.latestSamples) := by
    intro thrown called reported
    constructor
    · intro both
      obtain ⟨_, result, called', atomic⟩ := both
      cases Option.some.inj (called.symm.trans called')
      exact ⟨atomic.2, atomic.1⟩
    · intro both
      refine ⟨?_, _, called, both.2, both.1⟩
      rw [Referred, base_of_references both.1 reported, both.1]
      exact referred
  rcases step_cases taken with ⟨thrown, called, unanswered, reported, references, samples⟩ |
    ⟨counts, answered, ⟨called, pass, reported, slots⟩ |
      ⟨before, r, after, thrown, split, pass, rejected, called, reported, slots⟩⟩
  · rw [unchanged thrown called reported]
    exact iff_of_true ⟨references, samples⟩ fun counts answered => absurd answered (unanswered counts)
  · have now : s'.manager.counts = (s.manager.slots.zip counts).map Prod.snd := by
      simp [EventManager.counts, slots, Reading.reported, Reading.taken]
    refine iff_of_true ⟨?_, _, called, rfl, ?_⟩ ((harmlessCall_iff answered).mpr (harmless_of_passes pass))
    · rw [Referred, base, reported, List.getLast?_concat, Option.getD_some, now]
      simp [references, slots, Reading.reported]
    · have known : s.base = (s.manager.slots.zip counts).map fun r => r.1.event.prev := by
        have same : s.base = s.manager.slots.map (·.event.prev) := referred.symm
        have known := congrArg (List.map (·.event.prev)) (slots_of_answered answered)
        rw [same, known, List.map_map]
        rfl
      rw [now, known, List.zipWith_map, List.zipWith_self]
      simp [latestSamples, slots, Reading.reported]
  · rw [unchanged thrown called reported, harmlessCall_iff answered, split, harmless_iff pass rejected]
    exact unchanged_iff (split ▸ slots_of_answered answered) slots

theorem referred_init (events : List EventInfo) : (init events).Referred := by
  simp [Referred, init, base, references, EventManager.make, Counts.zero]

/-- What was read passes the guards. -/
def allPass (s : ManagedEvents) (answers : Nat → Except Int Counts) : Bool :=
  s.manager.slots.zipIdx.all fun (slot, k) =>
    (answers k).toOption.all fun count => count.check slot.event.prev = .ok ()

theorem harmlessCall_of_allPass (pass : s.allPass answers = true) : s.HarmlessCall answers := by
  intro counts answered
  refine harmless_of_passes fun r member => ?_
  obtain ⟨i, atI⟩ := List.mem_iff_getElem?.mp member
  obtain ⟨atSlot, atCount⟩ := List.getElem?_zip_eq_some.mp atI
  have passes := List.all_eq_true.mp pass (r.1, i) (List.mem_zipIdx_iff_getElem?.mpr atSlot)
  simpa [answered.2 i r.2 atCount, Except.toOption, Reading.Passes] using passes

/-- The answers of a list, for as many events as it has. -/
def answersOf (answers : List (Except Int Counts)) (k : Nat) : Except Int Counts := answers.getD k (.error 0)

end ManagedEvents

end Aser.Perf
