import Aser.Perf.EventManager

namespace Aser.Perf.EventManager

/-- The loop over `open` in the constructor; `answers` is what `perf_event_open` gives to each event. -/
def openAll (pid : Pid) (attach : Bool) :
    List EventSlot → (Nat → Except Int Int) → Except Exception Unit × List EventSlot
  | [], _ => (.ok (), [])
  | slot :: rest, answers =>
    let (result, event) := slot.event.openFd pid attach fun _ _ => answers 0
    match result with
    | .error thrown => (.error thrown, { slot with event } :: rest)
    | .ok () =>
      let (result, rest) := openAll pid attach rest fun k => answers (k + 1)
      (result, { slot with event } :: rest)

/-- The descriptors that the kernel hands out to a loop over `n` events, which an error stops. -/
def granted : Nat → (Nat → Except Int Int) → List Int
  | 0, _ => []
  | n + 1, answers => match answers 0 with
    | .error _ => []
    | .ok fd => fd :: granted n fun k => answers (k + 1)

/-- What the destructors of the events close. -/
def destroy (m : EventManager) : List Int := m.slots.filterMap (·.event.impl.destroy)

/-- Nothing has been read yet. -/
def Unread (slots : List EventSlot) : Prop := ∀ slot ∈ slots, slot.event.count = none ∧ slot.event.prev = .zero

variable {pid : Pid} {attach : Bool} {slots : List EventSlot} {answers : Nat → Except Int Int}

/-- Whether or not it throws, the loop leaves every event with the descriptor it was granted. -/
theorem destroy_openAll (closed : ∀ slot ∈ slots, slot.event.impl.fd = 0)
    (notZero : 0 ∉ granted slots.length answers) :
    destroy ⟨(openAll pid attach slots answers).2⟩ = granted slots.length answers := by
  induction slots generalizing answers with
  | nil => rfl
  | cons slot rest ih =>
    rw [List.forall_mem_cons] at closed
    cases answer : answers 0 with
    | error errno =>
      have nothing : destroy ⟨rest⟩ = [] := by
        refine List.filterMap_eq_nil_iff.mpr fun slot member => ?_
        simp [EventLinuxImpl.destroy, closed.2 slot member]
      have self : slot.event.impl.destroy = none := by simp [EventLinuxImpl.destroy, closed.1]
      simpa [openAll, Event.openFd, EventLinuxImpl.openFd, answer, libcError, granted, destroy, self] using nothing
    | ok fd =>
      simp only [List.length_cons, granted, answer, List.mem_cons, not_or] at notZero
      have later : destroy ⟨(openAll pid attach rest fun k => answers (k + 1)).2⟩ = _ := ih closed.2 notZero.2
      have self : EventLinuxImpl.destroy ⟨fd⟩ = some fd := if_pos fun same => notZero.1 same.symm
      simp only [destroy] at later
      simp [openAll, Event.openFd, EventLinuxImpl.openFd, answer, granted, destroy, self, later]

theorem unread_openAll (unread : Unread slots) : Unread (openAll pid attach slots answers).2 := by
  induction slots generalizing answers with
  | nil => exact unread
  | cons slot rest ih =>
    obtain ⟨first, later⟩ := List.forall_mem_cons.mp unread
    cases answer : answers 0 with
    | error errno =>
      simpa [Unread, openAll, Event.openFd, EventLinuxImpl.openFd, answer, libcError, first] using later
    | ok fd =>
      have later : Unread (openAll pid attach rest fun k => answers (k + 1)).2 := ih later
      simpa [Unread, openAll, Event.openFd, EventLinuxImpl.openFd, answer, first] using later

/-- The loop throws exactly if an answer is an error. -/
theorem openAll_throws_iff : (∃ thrown, (openAll pid attach slots answers).1 = .error thrown) ↔
    ∃ k < slots.length, ∃ errno, answers k = .error errno := by
  induction slots generalizing answers with
  | nil => simp [openAll]
  | cons slot rest ih =>
    cases answer : answers 0 with
    | error errno =>
      refine iff_of_true ?_ ⟨0, Nat.zero_lt_succ _, errno, answer⟩
      simp [openAll, Event.openFd, EventLinuxImpl.openFd, answer, libcError]
    | ok fd =>
      have same : (openAll pid attach (slot :: rest) answers).1 =
          (openAll pid attach rest fun k => answers (k + 1)).1 := by
        simp [openAll, Event.openFd, EventLinuxImpl.openFd, answer]
      rw [same, ih]
      constructor
      · rintro ⟨k, within, errno, fails⟩
        exact ⟨k + 1, Nat.succ_lt_succ within, errno, fails⟩
      · rintro ⟨k, within, errno, fails⟩
        cases k with
        | zero =>
          rw [answer] at fails
          cases fails
        | succ k => exact ⟨k, Nat.lt_of_succ_lt_succ within, errno, fails⟩

theorem destroy_eq (m : EventManager) :
    m.destroy = (m.slots.map fun slot => slot.event.impl).filterMap EventLinuxImpl.destroy := by
  rw [destroy, List.filterMap_map]
  rfl

theorem impls_readAll (slots : List EventSlot) (answers : Nat → Except Int Counts) :
    (readAll slots answers).2.map (fun slot => slot.event.impl) = slots.map fun slot => slot.event.impl := by
  induction slots generalizing answers with
  | nil => rfl
  | cons slot rest ih =>
    cases answer : answers 0 with
    | error errno => simp [readAll, answer, Event.read, EventLinuxImpl.read, libcError]
    | ok count => simp [readAll, answer, Event.read, EventLinuxImpl.read, ih fun k => answers (k + 1)]

theorem impls_scaleAll {mode : EventReadMode} {slots slots' : List EventSlot} {result : Except Exception Unit}
    (scaled : scaleAll mode slots = some (result, slots')) :
    slots'.map (fun slot => slot.event.impl) = slots.map fun slot => slot.event.impl := by
  induction slots generalizing slots' result with
  | nil =>
    cases Option.some.inj scaled
    rfl
  | cons slot rest ih =>
    obtain ⟨⟨one, event⟩, first, scaled⟩ := Option.bind_eq_some_iff.mp scaled
    have kept : event.impl = slot.event.impl := by
      obtain ⟨count, _, same⟩ := Option.map_eq_some_iff.mp first
      split at same
      · cases same
        rfl
      · cases same
        cases mode <;> rfl
    cases one with
    | error thrown =>
      cases Option.some.inj scaled
      simp [kept]
    | ok sample =>
      obtain ⟨⟨result', rest'⟩, later, same⟩ := Option.map_eq_some_iff.mp scaled
      cases same
      simp [kept, ih later]

/-- Reading keeps the descriptors, whatever comes of it. -/
theorem destroy_readEvents {m m' : EventManager} {mode : EventReadMode} {answers : Nat → Except Int Counts}
    {result : Except Exception (List EventSample)} (called : m.readEvents mode answers = some (result, m')) :
    m'.destroy = m.destroy := by
  have impls := impls_readAll m.slots answers
  unfold readEvents at called
  rw [destroy_eq, destroy_eq]
  split at called
  · rename_i thrown slots read
    cases Option.some.inj called
    rw [read] at impls
    rw [impls]
  · rename_i slots read
    rw [read] at impls
    obtain ⟨⟨result', slots'⟩, scaled, same⟩ := Option.map_eq_some_iff.mp called
    cases same
    rw [impls_scaleAll scaled, impls]

end Aser.Perf.EventManager
