import Aser.Library.Run
import Aser.Library.Slots
import Mathlib.Data.List.Basic

namespace Aser

open Library

variable {α : Type*}

/-- Where a thread stands in a call on a `concurrent_queue`. `timed` tells `pop(timeout)` from
`pop()`. -/
inductive QueuePhase
  | outside
  | notifying
  | entering (timed : Bool)
  | blocked (timed : Bool)
  | woken (timed : Bool)
  | timedOut
  deriving DecidableEq

namespace QueuePhase

def isBlocked : QueuePhase → Bool
  | blocked _ => true
  | _ => false

/-- The thread was woken on `cv_`, or timed out there, and has the queue still to look at. -/
def rechecks : QueuePhase → Bool
  | woken _ | timedOut => true
  | _ => false

/-- The thread keeps an element of the queue from being forgotten: it is to call `notify_one`, or
to look at the queue itself. -/
def attends (phase : QueuePhase) : Bool := phase = notifying || phase.rechecks

end QueuePhase

/-- A `concurrent_queue` with the threads that use it. `pushed` lists the values in the order in
which they entered the queue; `returned` what the calls of pop returned, and to which thread, in the
order of their last critical section. `none` is the pair whose `first` is false. -/
structure ConcurrentQueue (α : Type*) where
  queue : List α := []
  threads : List QueuePhase
  pushed : List α := []
  returned : List (Nat × Option α) := []

namespace ConcurrentQueue

def initial (threads : Nat) : ConcurrentQueue α where threads := List.replicate threads .outside

/-- The values that successful calls of pop returned. -/
def popped (s : ConcurrentQueue α) : List α := s.returned.filterMap Prod.snd

def move (s : ConcurrentQueue α) (k : Nat) (phase : QueuePhase) : ConcurrentQueue α :=
  { s with threads := s.threads.set k phase }

/-- The call of thread `k` leaves its critical section for good. -/
def finish (s : ConcurrentQueue α) (k : Nat) (result : Option α) (rest : List α) : ConcurrentQueue α :=
  { s.move k .outside with queue := rest, returned := s.returned ++ [(k, result)] }

/-- The critical section that tests the predicate of `cv_.wait`: with an element there the call takes
it, without one thread `k` goes on as `empty` says. -/
def test (s : ConcurrentQueue α) (k : Nat) (empty : ConcurrentQueue α) : ConcurrentQueue α :=
  match s.queue with
  | [] => empty
  | value :: rest => s.finish k (some value) rest

/-- `push` is the critical section of a push, `notifyOne` what follows it; `chosen` is the thread
that the condition variable wakes. `wake` is a spurious wake-up, and `timeout` the timeout of a
`wait_for`, which may be noticed as late as after a wake-up. -/
inductive Action (α : Type*)
  | push (k : Nat) (value : α)
  | notifyOne (k : Nat) (chosen : Option Nat)
  | pop (k : Nat) (timed : Bool)
  | check (k : Nat)
  | wake (k : Nat)
  | timeout (k : Nat)

def step (s : ConcurrentQueue α) : Action α → Option (ConcurrentQueue α)
  | .push k value =>
    if s.threads[k]? = some .outside then
      some { s.move k .notifying with queue := s.queue ++ [value], pushed := s.pushed ++ [value] }
    else none
  | .notifyOne k chosen =>
    if s.threads[k]? = some .notifying then
      match chosen with
      | none => if s.threads.any QueuePhase.isBlocked then none else some (s.move k .outside)
      | some j => match s.threads[j]? with
        | some (.blocked timed) => some ((s.move k .outside).move j (.woken timed))
        | _ => none
    else none
  | .pop k timed =>
    if s.threads[k]? = some .outside then some (s.move k (.entering timed)) else none
  | .check k => match s.threads[k]? with
    | some (.entering timed) => some (s.test k (s.move k (.blocked timed)))
    | some (.woken timed) => some (s.test k (s.move k (.blocked timed)))
    | some .timedOut => some (s.test k (s.finish k none []))
    | _ => none
  | .wake k => match s.threads[k]? with
    | some (.blocked timed) => some (s.move k (.woken timed))
    | _ => none
  | .timeout k => match s.threads[k]? with
    | some (.blocked true) => some (s.move k .timedOut)
    | some (.woken true) => some (s.move k .timedOut)
    | _ => none

/-- What a step does. `shift` is a step of one thread that touches nothing but its phase. -/
inductive Change (s : ConcurrentQueue α) : Action α → ConcurrentQueue α → Prop
  | push {k value} (idle : s.threads[k]? = some .outside) :
      Change s (.push k value)
        { s.move k .notifying with queue := s.queue ++ [value], pushed := s.pushed ++ [value] }
  | notifyNone {k} (notifies : s.threads[k]? = some .notifying)
      (nobody : ∀ phase ∈ s.threads, phase.isBlocked = false) :
      Change s (.notifyOne k none) (s.move k .outside)
  | notifySome {k j timed} (notifies : s.threads[k]? = some .notifying)
      (waits : s.threads[j]? = some (.blocked timed)) :
      Change s (.notifyOne k (some j)) ((s.move k .outside).move j (.woken timed))
  | take {k phase value rest} (atK : s.threads[k]? = some phase) (awake : phase.isBlocked = false)
      (front : s.queue = value :: rest) : Change s (.check k) (s.finish k (some value) rest)
  | block {k phase timed} (atK : s.threads[k]? = some phase) (empty : s.queue = []) :
      Change s (.check k) (s.move k (.blocked timed))
  | fail {k} (atK : s.threads[k]? = some .timedOut) (empty : s.queue = []) :
      Change s (.check k) (s.finish k none [])
  | shift {a k old phase} (atK : s.threads[k]? = some old) (awake : phase.isBlocked = false)
      (attends : old.attends → phase.attends) : Change s a (s.move k phase)

variable {s s' : ConcurrentQueue α} {a : Action α}

theorem change_of_step (taken : s.step a = some s') : s.Change a s' := by
  cases a with
  | push k value =>
    simp only [step, Option.ite_none_right_eq_some, Option.some.injEq] at taken
    obtain ⟨idle, rfl⟩ := taken
    exact .push idle
  | notifyOne k chosen =>
    simp only [step, Option.ite_none_right_eq_some] at taken
    obtain ⟨notifies, taken⟩ := taken
    cases chosen with
    | none =>
      simp only [Option.ite_none_left_eq_some, Option.some.injEq] at taken
      obtain ⟨nobody, rfl⟩ := taken
      exact .notifyNone notifies (by simpa using nobody)
    | some j =>
      dsimp only at taken
      split at taken
      · rename_i timed waits
        cases Option.some.inj taken
        exact .notifySome notifies waits
      · simp at taken
  | pop k timed =>
    simp only [step, Option.ite_none_right_eq_some, Option.some.injEq] at taken
    obtain ⟨idle, rfl⟩ := taken
    exact .shift idle rfl (by simp [QueuePhase.attends, QueuePhase.rechecks])
  | check k =>
    have tested {phase : QueuePhase} {empty : ConcurrentQueue α} (atK : s.threads[k]? = some phase)
        (awake : phase.isBlocked = false) (otherwise : s.queue = [] → s.Change (.check k) empty) :
        s.Change (.check k) (s.test k empty) := by
      unfold test
      split
      · rename_i empty
        exact otherwise empty
      · rename_i front
        exact .take atK awake front
    simp only [step] at taken
    split at taken
    · rename_i timed atK
      cases Option.some.inj taken
      exact tested atK rfl (.block atK)
    · rename_i timed atK
      cases Option.some.inj taken
      exact tested atK rfl (.block atK)
    · rename_i atK
      cases Option.some.inj taken
      exact tested atK rfl (.fail atK)
    · simp at taken
  | wake k =>
    simp only [step] at taken
    split at taken
    · rename_i timed atK
      cases Option.some.inj taken
      exact .shift atK rfl (by simp [QueuePhase.attends, QueuePhase.rechecks])
    · simp at taken
  | timeout k =>
    simp only [step] at taken
    split at taken
    · rename_i atK
      cases Option.some.inj taken
      exact .shift atK rfl (by simp [QueuePhase.attends, QueuePhase.rechecks])
    · rename_i atK
      cases Option.some.inj taken
      exact .shift atK rfl (by simp [QueuePhase.attends, QueuePhase.rechecks])
    · simp at taken

/-- No value is lost, repeated or overtaken. -/
def Fifo (s : ConcurrentQueue α) : Prop := s.popped ++ s.queue = s.pushed

theorem fifo_step (fifo : s.Fifo) (taken : s.step a = some s') : s'.Fifo := by
  unfold Fifo popped at *
  cases change_of_step taken with
  | push idle => simp only [move, ← List.append_assoc, fifo]
  | notifyNone notifies nobody => exact fifo
  | notifySome notifies waits => exact fifo
  | take atK awake front =>
    rw [front] at fifo
    simpa [finish, move] using fifo
  | block atK empty => exact fifo
  | fail atK empty =>
    simp only [finish, move, List.filterMap_append, List.filterMap_cons_none, List.filterMap_nil,
      List.append_nil]
    rw [empty, List.append_nil] at fifo
    exact fifo
  | shift atK awake attends => exact fifo

/-- As long as somebody is blocked, every element of the queue has a thread that attends to it. -/
def Attended (s : ConcurrentQueue α) : Prop :=
  0 < s.threads.countP QueuePhase.isBlocked → s.queue.length ≤ s.threads.countP QueuePhase.attends

theorem attended_step (attended : s.Attended) (taken : s.step a = some s') : s'.Attended := by
  unfold Attended at *
  -- A step changes one phase, or two; both counts follow from what leaves and what enters.
  cases change_of_step taken with
  | @push k value idle =>
    have waiting : (s.threads.set k .notifying).countP QueuePhase.isBlocked =
        s.threads.countP QueuePhase.isBlocked := countP_set_balance idle QueuePhase.isBlocked _
    have attending : (s.threads.set k .notifying).countP QueuePhase.attends =
        s.threads.countP QueuePhase.attends + 1 := countP_set_balance idle QueuePhase.attends _
    simp only [move, List.length_append, List.length_singleton]
    omega
  | @notifyNone k notifies nobody =>
    have none : s.threads.countP QueuePhase.isBlocked = 0 := by
      simpa [List.countP_eq_zero] using nobody
    have waiting : (s.threads.set k .outside).countP QueuePhase.isBlocked =
        s.threads.countP QueuePhase.isBlocked := countP_set_balance notifies QueuePhase.isBlocked _
    simp only [move]
    omega
  | @notifySome k j timed notifies waits =>
    have waits' : (s.threads.set k .outside)[j]? = some (.blocked timed) := by
      have other : k ≠ j := by
        intro same
        rw [same, waits] at notifies
        cases notifies
      rw [List.getElem?_set_ne other, waits]
    have waiting : (s.threads.set k .outside).countP QueuePhase.isBlocked =
        s.threads.countP QueuePhase.isBlocked := countP_set_balance notifies QueuePhase.isBlocked _
    have leaves : (s.threads.set k .outside).countP QueuePhase.attends + 1 =
        s.threads.countP QueuePhase.attends := countP_set_balance notifies QueuePhase.attends _
    have blocked : ((s.threads.set k .outside).set j (.woken timed)).countP QueuePhase.isBlocked + 1 =
        (s.threads.set k .outside).countP QueuePhase.isBlocked :=
      countP_set_balance waits' QueuePhase.isBlocked _
    have enters : ((s.threads.set k .outside).set j (.woken timed)).countP QueuePhase.attends =
        (s.threads.set k .outside).countP QueuePhase.attends + 1 :=
      countP_set_balance waits' QueuePhase.attends _
    simp only [move]
    omega
  | @take k phase value rest atK awake front =>
    have waiting : (s.threads.set k .outside).countP QueuePhase.isBlocked =
        s.threads.countP QueuePhase.isBlocked := by
      have waiting := countP_set_balance atK QueuePhase.isBlocked .outside
      rw [awake] at waiting
      exact waiting
    -- The element that goes makes up for the thread that stops attending.
    have attending := countP_set_balance atK QueuePhase.attends .outside
    rw [front, List.length_cons] at attended
    simp only [finish, move]
    split at attending <;> omega
  | block atK empty =>
    simp only [move, empty, List.length_nil]
    omega
  | fail atK empty =>
    simp only [finish, List.length_nil]
    omega
  | @shift a k old phase atK awake attends =>
    have waiting := countP_set_balance atK QueuePhase.isBlocked phase
    simp only [awake, Bool.false_eq_true, if_false, Nat.add_zero] at waiting
    have attending := countP_set_balance atK QueuePhase.attends phase
    have grows : (if old.attends then 1 else 0) ≤ (if phase.attends then 1 else 0) := by
      split
      · rename_i before
        simp [attends before]
      · omega
    simp only [move]
    omega

/-- A call of pop that fails has timed out, finds the queue empty and leaves everything but its own
thread as it was. -/
theorem failed_step {k : Nat} (taken : s.step a = some s')
    (failed : s'.returned = s.returned ++ [(k, none)]) :
    a = .check k ∧ s.threads[k]? = some .timedOut ∧ s.queue = [] ∧
      s' = { s with threads := s.threads.set k .outside, returned := s.returned ++ [(k, none)] } := by
  cases change_of_step taken with
  | @fail j atK empty =>
    obtain rfl : j = k := by simpa [finish, move] using failed
    exact ⟨rfl, atK, empty, by rw [finish, move, empty]⟩
  | take atK awake front => simp [finish, move] at failed
  | push idle => simp [move] at failed
  | notifyNone notifies nobody => simp [move] at failed
  | notifySome notifies waits => simp [move] at failed
  | block atK empty => simp [move] at failed
  | shift atK awake attends => simp [move] at failed

theorem attended_initial (threads : Nat) : (initial threads : ConcurrentQueue α).Attended := by
  intro blocked
  exact Nat.zero_le _

/-- No wake-up is lost: a thread blocked on a queue that is not empty has another one to rely on,
which is to call `notify_one` or was woken and is to look at the queue. -/
theorem Attended.not_lost (attended : s.Attended) (filled : s.queue ≠ []) {k : Nat} {timed : Bool}
    (blocked : s.threads[k]? = some (.blocked timed)) :
    (∃ j : Nat, s.threads[j]? = some .notifying) ∨
      ∃ (j : Nat) (phase : QueuePhase), s.threads[j]? = some phase ∧ phase.rechecks := by
  have somebody : 0 < s.threads.countP QueuePhase.isBlocked :=
    List.countP_pos_iff.mpr ⟨_, List.mem_of_getElem? blocked, rfl⟩
  have elements : 0 < s.queue.length := List.length_pos_iff.mpr filled
  have attending : 0 < s.threads.countP QueuePhase.attends := by
    have enough := attended somebody
    omega
  obtain ⟨phase, member, attends⟩ := List.countP_pos_iff.mp attending
  obtain ⟨j, atJ⟩ := List.mem_iff_getElem?.mp member
  simp only [QueuePhase.attends, Bool.or_eq_true, decide_eq_true_eq] at attends
  rcases attends with rfl | rechecks
  · exact .inl ⟨j, atJ⟩
  · exact .inr ⟨j, phase, atJ, rechecks⟩

theorem fifo_without_lost_wakeup {threads : Nat} {ts : List (Transition (ConcurrentQueue α) (Action α))}
    (run : Run step (initial threads) ts s) :
    s.popped ++ s.queue = s.pushed ∧
      (∀ t ∈ ts, ∀ k, t.after.returned = t.before.returned ++ [(k, none)] →
        t.action = .check k ∧ t.before.threads[k]? = some .timedOut ∧ t.before.queue = [] ∧
          t.after = { t.before with
            threads := t.before.threads.set k .outside, returned := t.before.returned ++ [(k, none)] }) ∧
      ¬ (s.queue ≠ [] ∧ (∃ (k : Nat) (timed : Bool), s.threads[k]? = some (.blocked timed)) ∧
        (∀ k : Nat, s.threads[k]? ≠ some .notifying) ∧
        ∀ (k : Nat) (phase : QueuePhase), s.threads[k]? = some phase → phase.rechecks = false) := by
  have fifo : s.Fifo := run.invariant (by simp [Fifo, popped, initial]) fifo_step
  have attended : s.Attended := run.invariant (attended_initial threads) attended_step
  refine ⟨fifo, ?_, ?_⟩
  · intro t member k failed
    exact failed_step (run.transition member).1 failed
  · intro ⟨filled, ⟨k, timed, blocked⟩, noNotifier, noRecheck⟩
    rcases attended.not_lost filled blocked with ⟨j, notifies⟩ | ⟨j, phase, atJ, rechecks⟩
    · exact noNotifier j notifies
    · rw [noRecheck j phase atJ] at rechecks
      cases rechecks

/-- A consumer whose timeout expires takes the value that another consumer is then notified of. -/
theorem fifo_without_lost_wakeup_stolen : ∃ ts s,
    Run step (initial 3 : ConcurrentQueue Nat) ts s ∧ s.popped = [7] ∧ s.returned = [(1, some 7), (1, none)] ∧
      s.popped ++ s.queue = s.pushed ∧ s.threads[0]? = some (.blocked false) := by
  obtain ⟨ts, s, run, _, returned⟩ := run_of_exec_any step (initial 3 : ConcurrentQueue Nat)
    [.pop 0 false, .check 0, .pop 1 true, .check 1, .push 2 7, .timeout 1, .check 1,
      .notifyOne 2 (some 0), .check 0, .pop 1 true, .check 1, .timeout 1, .check 1]
    (fun s => s.returned = [(1, some 7), (1, none)] ∧ s.threads[0]? = some (.blocked false)) rfl
  have ended := of_decide_eq_true returned
  exact ⟨ts, s, run, by simp [popped, ended.1], ended.1, (fifo_without_lost_wakeup run).1, ended.2⟩

end ConcurrentQueue

end Aser
