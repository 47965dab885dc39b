import Aser.Library.Progress
import Mathlib.Algebra.Order.BigOperators.Group.List
import Mathlib.Algebra.Order.Ring.Nat

namespace Aser

open Library

/-- Where a thread stands in a call on a `condition`: in `wait` from `entering` to `woken`, in `notify`
between its critical section and `notify_all`. -/
inductive ConditionPhase
  | outside
  | entering
  | blocked
  | woken
  | notifying
  deriving DecidableEq

namespace ConditionPhase

/-- What `notify_all` does to a thread. -/
def notified : ConditionPhase → ConditionPhase
  | blocked => woken
  | phase => phase

/-- How many steps the call still takes once the condition is ready. -/
def work : ConditionPhase → Nat
  | outside => 0
  | entering | woken | notifying => 1
  | blocked => 2

theorem work_le (phase : ConditionPhase) : phase.work ≤ 2 := by
  cases phase <;> simp [work]

theorem work_notified_le (phase : ConditionPhase) : phase.notified.work ≤ phase.work := by
  cases phase <;> simp [work, notified]

end ConditionPhase

/-- A `condition` with the threads that use it. `returned` lists the threads whose call of `wait` came
back, in the order of their last critical section. -/
structure Condition where
  ready : Bool := false
  threads : List ConditionPhase
  returned : List Nat := []

namespace Condition

def initial (threads : Nat) : Condition where threads := List.replicate threads .outside

def move (s : Condition) (k : Nat) (phase : ConditionPhase) : Condition :=
  { s with threads := s.threads.set k phase }

/-- The critical section that tests the predicate of `cv_.wait`. -/
def test (s : Condition) (k : Nat) : Condition :=
  if s.ready then { s.move k .outside with returned := s.returned ++ [k] } else s.move k .blocked

/-- `notify` is the critical section of that call, `notifyAll` what follows it; `wake` is a spurious
wake-up. -/
inductive Action
  | wait (k : Nat)
  | check (k : Nat)
  | notify (k : Nat)
  | notifyAll (k : Nat)
  | wake (k : Nat)

def step (s : Condition) : Action → Option Condition
  | .wait k => if s.threads[k]? = some .outside then some (s.move k .entering) else none
  | .check k =>
    if s.threads[k]? = some .entering ∨ s.threads[k]? = some .woken then some (s.test k) else none
  | .notify k =>
    if s.threads[k]? = some .outside then some { s.move k .notifying with ready := true } else none
  | .notifyAll k =>
    if s.threads[k]? = some .notifying then
      some { s with threads := (s.threads.set k .outside).map ConditionPhase.notified }
    else none
  | .wake k => if s.threads[k]? = some .blocked then some (s.move k .woken) else none

/-- The calls that are there go on, and no new call is made. -/
def Action.goesOn : Action → Bool
  | .check _ | .notifyAll _ | .wake _ => true
  | .wait _ | .notify _ => false

/-- No call can go on. -/
def Stuck (s : Condition) : Prop := ∀ a : Action, a.goesOn = true → s.step a = none

/-- A thread is to call `notify_all` as long as somebody is blocked although the condition is ready, and
before it is ready nobody has come back. -/
structure Attended (s : Condition) : Prop where
  notifier : s.ready = true → .blocked ∈ s.threads → .notifying ∈ s.threads
  before : s.ready = false → s.returned = []

variable {s s' : Condition} {a : Action} {k : Nat}

/-- Nothing but `notify` changes `ready_`. -/
theorem ready_step (taken : s.step a = some s') :
    s'.ready = false ↔ s.ready = false ∧ ∀ k, a ≠ .notify k := by
  cases a with
  | check k =>
    simp only [step, test, Option.ite_none_right_eq_some, Option.some.injEq] at taken
    obtain ⟨_, rfl⟩ := taken
    split <;> simp [move, *]
  | notify k =>
    simp only [step, Option.ite_none_right_eq_some, Option.some.injEq] at taken
    obtain ⟨_, rfl⟩ := taken
    simp
  | wait k | wake k | notifyAll k =>
    simp only [step, Option.ite_none_right_eq_some, Option.some.injEq] at taken
    obtain ⟨_, rfl⟩ := taken
    simp [move]

theorem ready_kept (ready : s.ready = true) (taken : s.step a = some s') : s'.ready = true := by
  by_contra unset
  have before := ((ready_step taken).mp (by simpa using unset)).1
  simp [ready] at before

/-- A thread that is not to notify goes on to a phase other than `blocked`. -/
theorem notifier_move {old phase : ConditionPhase} (notifier : .blocked ∈ s.threads → .notifying ∈ s.threads)
    (atK : s.threads[k]? = some old) (other : old ≠ .notifying) (awake : phase ≠ .blocked)
    (blocked : .blocked ∈ s.threads.set k phase) : .notifying ∈ s.threads.set k phase := by
  rcases List.mem_or_eq_of_mem_set blocked with before | same
  · obtain ⟨j, atJ⟩ := List.mem_iff_getElem?.mp (notifier before)
    have different : k ≠ j := by
      rintro rfl
      exact other (Option.some.inj (atK.symm.trans atJ))
    exact List.mem_of_getElem? (by rwa [List.getElem?_set_ne different])
  · exact absurd same.symm awake

theorem Attended.step (attended : s.Attended) (taken : s.step a = some s') : s'.Attended := by
  obtain ⟨notifier, before⟩ := attended
  cases a with
  | wait k =>
    simp only [Condition.step, Option.ite_none_right_eq_some, Option.some.injEq] at taken
    obtain ⟨atK, rfl⟩ := taken
    exact ⟨fun ready => notifier_move (notifier ready) atK (by simp) (by simp), before⟩
  | wake k =>
    simp only [Condition.step, Option.ite_none_right_eq_some, Option.some.injEq] at taken
    obtain ⟨atK, rfl⟩ := taken
    exact ⟨fun ready => notifier_move (notifier ready) atK (by simp) (by simp), before⟩
  | check k =>
    simp only [Condition.step, test, Option.ite_none_right_eq_some, Option.some.injEq] at taken
    obtain ⟨atK, rfl⟩ := taken
    split
    · rename_i ready
      refine ⟨fun _ => ?_, fun unset => absurd (ready.symm.trans unset) (by simp)⟩
      rcases atK with atK | atK
      all_goals exact notifier_move (notifier ready) atK (by simp) (by simp)
    · rename_i unset
      exact ⟨fun ready => absurd ready unset, before⟩
  | notify k =>
    simp only [Condition.step, Option.ite_none_right_eq_some, Option.some.injEq] at taken
    obtain ⟨atK, rfl⟩ := taken
    have within := (List.getElem?_eq_some_iff.mp atK).1
    exact ⟨fun _ _ => List.mem_of_getElem? (i := k) (by simp [move, within]), by simp⟩
  | notifyAll k =>
    simp only [Condition.step, Option.ite_none_right_eq_some, Option.some.injEq] at taken
    obtain ⟨_, rfl⟩ := taken
    refine ⟨fun _ blocked => ?_, before⟩
    obtain ⟨phase, _, blocked⟩ := List.mem_map.mp blocked
    cases phase <;> simp [ConditionPhase.notified] at blocked

theorem threads_step (taken : s.step a = some s') : s'.threads.length = s.threads.length := by
  cases a with
  | check k =>
    simp only [step, test, Option.ite_none_right_eq_some, Option.some.injEq] at taken
    obtain ⟨_, rfl⟩ := taken
    split <;> simp [move]
  | wait k | wake k | notify k | notifyAll k =>
    simp only [step, Option.ite_none_right_eq_some, Option.some.injEq] at taken
    obtain ⟨_, rfl⟩ := taken
    simp [move]

def work (s : Condition) : Nat := (s.threads.map ConditionPhase.work).sum

theorem work_move {old : ConditionPhase} (atK : s.threads[k]? = some old) (phase : ConditionPhase) :
    (s.move k phase).work + old.work = s.work + phase.work :=
  sum_map_set_balance atK ConditionPhase.work phase

theorem work_le (s : Condition) : s.work ≤ 2 * s.threads.length := by
  have bound := List.sum_le_card_nsmul (s.threads.map ConditionPhase.work) 2 (by
    intro n member
    obtain ⟨phase, _, rfl⟩ := List.mem_map.mp member
    exact phase.work_le)
  simpa [work, Nat.mul_comm] using bound

/-- Once the condition is ready, a call that goes on has fewer steps left. -/
theorem work_step (ready : s.ready = true) (goesOn : a.goesOn = true) (taken : s.step a = some s') :
    s'.work < s.work := by
  cases a with
  | wait k | notify k => simp [Action.goesOn] at goesOn
  | check k =>
    simp only [step, test, ready, if_true, Option.ite_none_right_eq_some, Option.some.injEq] at taken
    obtain ⟨inWait, rfl⟩ := taken
    change (s.move k .outside).work < s.work
    rcases inWait with atK | atK
    all_goals
      have leaves := work_move atK .outside
      simp only [ConditionPhase.work] at leaves
      omega
  | wake k =>
    simp only [step, Option.ite_none_right_eq_some, Option.some.injEq] at taken
    obtain ⟨atK, rfl⟩ := taken
    have wakes := work_move atK .woken
    simp only [ConditionPhase.work] at wakes
    omega
  | notifyAll k =>
    simp only [step, Option.ite_none_right_eq_some, Option.some.injEq] at taken
    obtain ⟨atK, rfl⟩ := taken
    have leaves := work_move atK .outside
    have all : (((s.threads.set k .outside).map ConditionPhase.notified).map ConditionPhase.work).sum ≤
        ((s.threads.set k .outside).map ConditionPhase.work).sum := by
      rw [List.map_map]
      exact List.sum_le_sum fun phase _ => phase.work_notified_le
    change _ = _ at leaves
    simp only [ConditionPhase.work, move, work] at leaves all ⊢
    omega

/-- Where no call can go on although the condition is ready, there is none. -/
theorem Attended.stuck (attended : s.Attended) (ready : s.ready = true) (stuck : s.Stuck) :
    ∀ phase ∈ s.threads, phase = .outside := by
  have nobody (phase : ConditionPhase) (member : phase ∈ s.threads) : phase = .outside ∨ phase = .blocked := by
    obtain ⟨k, atK⟩ := List.mem_iff_getElem?.mp member
    cases phase with
    | outside => exact .inl rfl
    | blocked => exact .inr rfl
    | entering =>
      have enabled := stuck (.check k) rfl
      simp [Condition.step, atK] at enabled
    | woken =>
      have enabled := stuck (.check k) rfl
      simp [Condition.step, atK] at enabled
    | notifying =>
      have enabled := stuck (.notifyAll k) rfl
      simp [Condition.step, atK] at enabled
  intro phase member
  rcases nobody phase member with outside | rfl
  · exact outside
  · rcases nobody _ (attended.notifier ready member) with none | none
    all_goals cases none

/-- A call of `wait` comes back only after one of `notify`. From then on, unless new calls are made, `n`
threads take `2 * n` more steps at most, spurious wake-ups among them, and every call comes back. -/
theorem waits_return {threads : Nat} {ts : List (Transition Condition Action)} (run : Run step (initial threads) ts s) :
    (s.returned ≠ [] → ∃ t ∈ ts, ∃ k, t.action = .notify k) ∧
    (∀ t ∈ ts, ∀ k, t.action = .notify k →
      (∀ more s', Run step s more s' → (∀ t ∈ more, t.action.goesOn = true) → more.length ≤ 2 * threads ∧
        (s'.Stuck → ∀ phase ∈ s'.threads, phase = .outside)) ∧
      ∃ more s', Run step s more s' ∧ (∀ t ∈ more, t.action.goesOn = true) ∧ s'.Stuck) := by
  have attended : s.Attended := run.invariant ⟨by simp [initial], fun _ => rfl⟩ Attended.step
  have count : s.threads.length = threads := by
    refine run.invariant (I := fun s => s.threads.length = threads) (by simp [initial]) ?_
    intro s a s' same taken
    rw [threads_step taken, same]
  have notified : s.ready = false ↔ ∀ t ∈ ts, ∀ k, t.action ≠ .notify k :=
    run.kept_iff_guard (I := fun _ => True) (P := fun s => s.ready = false) (G := fun _ a => ∀ k, a ≠ Action.notify k)
      (fun _ => trivial) rfl (fun _ taken => ready_step taken)
  have less {s s' : Condition} {a : Action} (known : s.Attended ∧ s.ready = true) (goesOn : a.goesOn = true)
      (taken : s.step a = some s') : (s'.Attended ∧ s'.ready = true) ∧ s'.work < s.work :=
    ⟨⟨known.1.step taken, ready_kept known.2 taken⟩, work_step known.2 goesOn taken⟩
  constructor
  · intro back
    by_contra silent
    push Not at silent
    exact back (attended.before (notified.mpr silent))
  · intro t member k notifies
    have ready : s.ready = true := by
      by_contra unset
      exact notified.mp (by simpa using unset) t member k notifies
    constructor
    · intro more s' later goesOn
      obtain ⟨⟨attended', ready'⟩, bound⟩ :=
        later.length_add_work_le (G := fun _ a => Action.goesOn a = true) ⟨attended, ready⟩ less goesOn
      have most := s.work_le
      rw [count] at most
      exact ⟨by omega, attended'.stuck ready'⟩
    · obtain ⟨more, s', later, goesOn, _, stuck⟩ :=
        exists_run_stuck (G := fun _ a => Action.goesOn a = true) ⟨attended, ready⟩ less
      exact ⟨more, s', later, goesOn, stuck⟩

/-- One thread is blocked, and another one comes just after `ready_` is set. -/
theorem waits_return_two : ∃ ts s more s', Run step (initial 3) ts s ∧ s.threads = [.blocked, .entering, .notifying] ∧
    Run step s more s' ∧ more.length ≤ 6 ∧ ∀ phase ∈ s'.threads, phase = .outside := by
  obtain ⟨ts, s, run, actions, test⟩ := run_of_exec_any step (initial 3) [.wait 0, .check 0, .wait 1, .notify 2]
    (fun s => s.threads = [.blocked, .entering, .notifying]) rfl
  obtain ⟨t, member, notifies⟩ := List.mem_map.mp (show Action.notify 2 ∈ ts.map Transition.action by simp [actions])
  obtain ⟨bound, more, s', later, goesOn, stuck⟩ := (waits_return run).2 t member 2 notifies
  obtain ⟨few, ended⟩ := bound more s' later goesOn
  exact ⟨ts, s, more, s', run, of_decide_eq_true test, later, few, ended stuck⟩

end Condition

end Aser
