import Aser.Library.Progress
import Aser.Util.ConcurrentQueue
import Mathlib.Algebra.Order.BigOperators.Group.List
import Mathlib.Algebra.Order.Ring.Nat

namespace Aser

open Library

variable {α : Type*}

/-- How many steps a call may still take on its own, where one that notifies pays for the thread it
wakes. -/
def QueuePhase.work : QueuePhase → Nat
  | outside => 0
  | timedOut => 1
  | notifying | blocked _ => 2
  | entering _ | woken _ => 3

theorem QueuePhase.work_le (phase : QueuePhase) : phase.work ≤ 3 := by
  cases phase <;> simp [work]

namespace ConcurrentQueue

/-- The calls that are there go on; no new call is made, and nobody wakes up without a reason. -/
def Action.goesOn : Action α → Bool
  | .notifyOne _ _ | .check _ | .timeout _ => true
  | .push _ _ | .pop _ _ | .wake _ => false

def work (s : ConcurrentQueue α) : Nat := (s.threads.map QueuePhase.work).sum

variable {s s' : ConcurrentQueue α} {a : Action α}

theorem work_move {k : Nat} {old : QueuePhase} (atK : s.threads[k]? = some old) (phase : QueuePhase) :
    (s.move k phase).work + old.work = s.work + phase.work :=
  sum_map_set_balance atK QueuePhase.work phase

theorem work_le (s : ConcurrentQueue α) : s.work ≤ 3 * s.threads.length := by
  have bound := List.sum_le_card_nsmul (s.threads.map QueuePhase.work) 3 (by
    intro n member
    obtain ⟨phase, _, rfl⟩ := List.mem_map.mp member
    exact phase.work_le)
  simpa [work, Nat.mul_comm] using bound

theorem threads_step (taken : s.step a = some s') : s'.threads.length = s.threads.length := by
  cases change_of_step taken <;> simp [move, finish]

/-- A critical section of a call that is not blocked ends the call, or blocks it. -/
theorem work_test {k : Nat} {phase : QueuePhase} {empty : ConcurrentQueue α} (atK : s.threads[k]? = some phase)
    (awake : 0 < phase.work) (less : empty.work < s.work) : (s.test k empty).work < s.work := by
  unfold test
  split
  · exact less
  · have balance := work_move atK .outside
    have same (value : α) (rest : List α) : (s.finish k (some value) rest).work = (s.move k .outside).work := rfl
    have nothing : QueuePhase.work .outside = 0 := rfl
    rw [same]
    omega

/-- Whatever thread goes on, fewer steps are left. -/
theorem work_step (goesOn : a.goesOn = true) (taken : s.step a = some s') : s'.work < s.work := by
  cases a with
  | push | pop | wake => simp [Action.goesOn] at goesOn
  | notifyOne k chosen =>
    simp only [step, Option.ite_none_right_eq_some] at taken
    obtain ⟨notifies, taken⟩ := taken
    have leaves := work_move notifies .outside
    cases chosen with
    | none =>
      simp only [Option.ite_none_left_eq_some, Option.some.injEq] at taken
      obtain ⟨_, rfl⟩ := taken
      simp only [QueuePhase.work] at leaves
      omega
    | some j =>
      dsimp only at taken
      split at taken
      · rename_i timed waits
        cases Option.some.inj taken
        have other : k ≠ j := by
          intro same
          rw [same, waits] at notifies
          cases notifies
        have waits' : (s.move k .outside).threads[j]? = some (.blocked timed) := by
          simpa [move, List.getElem?_set_ne other] using waits
        have wakes := work_move waits' (.woken timed)
        simp only [QueuePhase.work] at leaves wakes
        omega
      · simp at taken
  | check k =>
    simp only [step] at taken
    split at taken
    · rename_i timed atK
      cases Option.some.inj taken
      have blocks := work_move atK (.blocked timed)
      simp only [QueuePhase.work] at blocks
      exact work_test atK (by simp [QueuePhase.work]) (by omega)
    · rename_i timed atK
      cases Option.some.inj taken
      have blocks := work_move atK (.blocked timed)
      simp only [QueuePhase.work] at blocks
      exact work_test atK (by simp [QueuePhase.work]) (by omega)
    · rename_i atK
      cases Option.some.inj taken
      have fails := work_move atK .outside
      have same : (s.finish k none []).work = (s.move k .outside).work := rfl
      simp only [QueuePhase.work] at fails
      exact work_test atK (by simp [QueuePhase.work]) (by omega)
    · simp at taken
  | timeout k =>
    simp only [step] at taken
    split at taken
    · rename_i atK
      cases Option.some.inj taken
      have expires := work_move atK .timedOut
      simp only [QueuePhase.work] at expires
      omega
    · rename_i atK
      cases Option.some.inj taken
      have expires := work_move atK .timedOut
      simp only [QueuePhase.work] at expires
      omega
    · simp at taken

/-- Where no call can go on, nothing but calls of `pop()` on an empty queue is left. -/
theorem Attended.stuck (attended : s.Attended) (stuck : ∀ a : Action α, a.goesOn = true → s.step a = none)
    {k : Nat} {phase : QueuePhase} (atK : s.threads[k]? = some phase) :
    phase = .outside ∨ phase = .blocked false ∧ s.queue = [] := by
  have waits (j : Nat) (phase : QueuePhase) (atJ : s.threads[j]? = some phase) :
      phase = .outside ∨ phase = .blocked false := by
    cases phase with
    | outside => exact .inl rfl
    | notifying =>
      exfalso
      by_cases nobody : s.threads.any QueuePhase.isBlocked
      · obtain ⟨phase, member, blocked⟩ := List.any_eq_true.mp nobody
        obtain ⟨i, atI⟩ := List.mem_iff_getElem?.mp member
        cases phase with
        | blocked timed => simpa [step, atJ, atI] using stuck (.notifyOne j (some i)) rfl
        | _ => simp [QueuePhase.isBlocked] at blocked
      · simpa [step, atJ, nobody] using stuck (.notifyOne j none) rfl
    | entering timed => simpa [step, atJ] using stuck (.check j) rfl
    | woken timed => simpa [step, atJ] using stuck (.check j) rfl
    | timedOut => simpa [step, atJ] using stuck (.check j) rfl
    | blocked timed =>
      cases timed with
      | false => exact .inr rfl
      | true => simpa [step, atJ] using stuck (.timeout j) rfl
  rcases waits k phase atK with outside | rfl
  · exact .inl outside
  · refine .inr ⟨rfl, ?_⟩
    by_contra filled
    rcases attended.not_lost filled atK with ⟨j, notifies⟩ | ⟨j, phase, atJ, rechecks⟩
    · simpa using waits j _ notifies
    · rcases waits j phase atJ with rfl | rfl <;> simp [QueuePhase.rechecks] at rechecks

/-- No call can go on. -/
def Stuck (s : ConcurrentQueue α) : Prop := ∀ a : Action α, a.goesOn = true → s.step a = none

/-- Once no new call is made, `n` threads take `3 * n` more steps at most, and can be run until no call can
go on. Then every call has returned but those of `pop()` on a queue that is empty. -/
theorem calls_return {threads : Nat} {ts : List (Transition (ConcurrentQueue α) (Action α))}
    (run : Run step (initial threads) ts s) :
    (∀ more s', Run step s more s' → (∀ t ∈ more, t.action.goesOn = true) → more.length ≤ 3 * threads ∧
      (s'.Stuck → ∀ (k : Nat) (phase : QueuePhase), s'.threads[k]? = some phase →
        phase = .outside ∨ phase = .blocked false ∧ s'.queue = [])) ∧
    ∃ more s', Run step s more s' ∧ (∀ t ∈ more, t.action.goesOn = true) ∧ s'.Stuck := by
  have count : s.threads.length = threads := by
    refine run.invariant (I := fun s => s.threads.length = threads) (by simp [initial]) ?_
    intro s a s' same taken
    rw [threads_step taken, same]
  have attended : s.Attended := run.invariant (attended_initial threads) attended_step
  have less {s s' : ConcurrentQueue α} {a : Action α} (attended : s.Attended) (goesOn : a.goesOn = true)
      (taken : s.step a = some s') : s'.Attended ∧ s'.work < s.work :=
    ⟨attended_step attended taken, work_step goesOn taken⟩
  constructor
  · intro more s' later goesOn
    obtain ⟨attended', bound⟩ := later.length_add_work_le (G := fun _ a => Action.goesOn a = true) attended less goesOn
    have most := s.work_le
    rw [count] at most
    exact ⟨by omega, fun stuck k phase atK => attended'.stuck stuck atK⟩
  · obtain ⟨more, s', later, goesOn, _, stuck⟩ := exists_run_stuck (G := fun _ a => Action.goesOn a = true) attended less
    exact ⟨more, s', later, goesOn, stuck⟩

/-- Two consumers and one value: the one that gets none is left in `pop()`. -/
theorem calls_return_three : ∃ ts s more s', Run step (initial 3 : ConcurrentQueue Nat) ts s ∧
    s.threads = [.blocked false, .blocked false, .notifying] ∧ Run step s more s' ∧ more.length ≤ 9 ∧
      ∀ (k : Nat) (phase : QueuePhase), s'.threads[k]? = some phase →
        phase = .outside ∨ phase = .blocked false ∧ s'.queue = [] := by
  obtain ⟨ts, s, run, _, test⟩ := run_of_exec_any step (initial 3 : ConcurrentQueue Nat)
    [.pop 0 false, .check 0, .pop 1 false, .check 1, .push 2 7]
    (fun s => s.threads = [.blocked false, .blocked false, .notifying]) rfl
  obtain ⟨bound, more, s', later, goesOn, stuck⟩ := calls_return run
  obtain ⟨few, ended⟩ := bound more s' later goesOn
  exact ⟨ts, s, more, s', run, of_decide_eq_true test, later, few, ended stuck⟩

end ConcurrentQueue

end Aser
