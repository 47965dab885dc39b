import Aser.Library.Progress
import Aser.Util.TimerCancelation

namespace Aser

open Library

/-- The time until which `wait_for` waits, while it may still wait. -/
def RunPhase.deadline : RunPhase → Option Int
  | .testing deadline | .releasing deadline | .blocked deadline | .woken deadline | .relocked deadline => some deadline
  | _ => none

/-- `wait_for` waits no longer because the time is up. -/
def RunPhase.late : RunPhase → Bool
  | .lastTesting | .expired => true
  | _ => false

namespace CallbackTimer

variable {s s' : CallbackTimer} {a : Action} {ts : List (Transition CallbackTimer Action)} {duration : Int}

/-- By that time `wait_for` has been called, and the deadline that it computed has passed. -/
def Due (duration : Int) (ts : List (Transition CallbackTimer Action)) (time : Int) : Prop :=
  ∃ t ∈ ts, t.action = .waitFor ∧ t.before.duration = duration ∧ t.before.deadline ≤ time

theorem Due.later {time time' : Int} {t : Transition CallbackTimer Action} (due : Due duration ts time)
    (forward : time ≤ time') : Due duration (ts ++ [t]) time' := by
  obtain ⟨t₀, member, waits, fixed, passed⟩ := due
  exact ⟨t₀, List.mem_append_left _ member, waits, fixed, by omega⟩

/-- The deadlines of the run are times that 64 bits can hold. -/
def InRange (duration : Int) (ts : List (Transition CallbackTimer Action)) : Prop :=
  ∀ t ∈ ts, t.action = .waitFor →
    -2 ^ 63 ≤ t.before.clock + nanoseconds duration ∧ t.before.clock + nanoseconds duration < 2 ^ 63

/-- Then they are as far away as the duration says. -/
theorem deadline_of_inRange (low : -2 ^ 63 ≤ s.clock + nanoseconds s.duration)
    (high : s.clock + nanoseconds s.duration < 2 ^ 63) : s.deadline = s.clock + nanoseconds s.duration := by
  rw [deadline]
  exact Int.bmod_eq_of_le (by omega) (by omega)

/-- Of the longest duration there is, nothing is left. -/
example : (init 9223372036854775807).deadline = -1000000 := by decide

/-- Whatever `run` waits for, or has waited for, is due. -/
structure Scheduled (duration : Int) (ts : List (Transition CallbackTimer Action)) (s : CallbackTimer) : Prop where
  fixed : s.duration = duration
  deadline : ∀ time, s.run.deadline = some time → Due duration ts time
  late : s.run.late = true → Due duration ts s.clock
  called : ∀ t ∈ ts, t.action = .invoke → Due duration ts t.before.clock

/-- A step that neither calls `wait_for` nor finds its time up. -/
theorem Scheduled.other (known : Scheduled duration ts s) (same : s'.duration = s.duration)
    (forward : s.clock ≤ s'.clock) (deadline : ∀ time, s'.run.deadline = some time → s.run.deadline = some time)
    (late : s'.run.late = true → s.run.late = true) (call : a = .invoke → s.run.late = true) :
    Scheduled duration (ts ++ [⟨s, a, s'⟩]) s' := by
  refine ⟨same.trans known.fixed, ?_, ?_, ?_⟩
  · intro time waitsFor
    exact (known.deadline time (deadline time waitsFor)).later (Int.le_refl _)
  · intro past
    exact (known.late (late past)).later forward
  · intro t member calls
    rcases List.mem_append.mp member with old | new
    · exact (known.called t old calls).later (Int.le_refl _)
    · cases List.mem_singleton.mp new
      exact (known.late (call calls)).later (Int.le_refl _)

theorem scheduled_of_run (run : Run step (init duration) ts s) : Scheduled duration ts s := by
  induction run with
  | start => exact ⟨rfl, by simp [init, RunPhase.deadline], by simp [init, RunPhase.late], by simp⟩
  | @next ts s a s' previous taken ih =>
    have same {t : CallbackTimer} (clock : t.clock = s.clock) : s.clock ≤ t.clock := Int.le_of_eq clock.symm
    cases change_of_step taken with
    | ticks =>
      refine ih.other rfl ?_ (fun _ => id) id (by simp)
      simp only
      omega
    | throws | destroys | destructorLocks | cancels | destructorUnlocks | joins =>
      exact ih.other rfl (same rfl) (fun _ => id) id (by simp)
    | notifies =>
      refine ih.other rfl (same rfl) ?_ ?_ (by simp)
      all_goals cases s.run <;> simp [RunPhase.notified, RunPhase.deadline, RunPhase.late]
    | locks here | misses here | blocks here | wakes here | relocks here | repeats here | expires here
    | comesBack here | unlocks here | invokes here =>
      refine ih.other rfl (same rfl) ?_ ?_ ?_
      all_goals simp [here, RunPhase.deadline, RunPhase.late]
    | refuses here =>
      refine ih.other rfl (same rfl) ?_ ?_ ?_
      all_goals simp [RunPhase.deadline, RunPhase.late]
    | waits here =>
      refine ⟨ih.fixed, ?_, by simp [RunPhase.late], ?_⟩
      · intro time waitsFor
        refine ⟨_, List.mem_append_right _ (List.mem_singleton_self _), rfl, ih.fixed, ?_⟩
        exact Int.le_of_eq (Option.some.inj waitsFor)
      · intro t member calls
        rcases List.mem_append.mp member with old | new
        · exact (ih.called t old calls).later (Int.le_refl _)
        · cases List.mem_singleton.mp new
          cases calls
    | @timesOut deadline here due =>
      refine ⟨ih.fixed, by simp [RunPhase.deadline], ?_, ?_⟩
      · intro _
        exact (ih.deadline deadline (by rw [here]; rfl)).later due
      · intro t member calls
        rcases List.mem_append.mp member with old | new
        · exact (ih.called t old calls).later (Int.le_refl _)
        · cases List.mem_singleton.mp new
          cases calls

/-- When `run` is over with its callback, that was called, or `canceled_` is set. -/
def Decided (s : CallbackTimer) : Prop :=
  (s.run = .calling → s.calls = 1) ∧ (s.run = .unlocking ∨ s.run = .ended → s.calls = 1 ∨ s.canceled = true)

theorem Decided.step (decided : s.Decided) (sound : s.Sound) (taken : s.step a = some s') : s'.Decided := by
  obtain ⟨calling, past⟩ := decided
  cases change_of_step taken with
  | ticks | throws | destroys | destructorLocks | destructorUnlocks | joins => exact ⟨calling, past⟩
  | cancels => exact ⟨calling, fun _ => .inr rfl⟩
  | notifies =>
    constructor
    · intro phase
      refine calling ?_
      cases before : s.run <;> simp [before, RunPhase.notified] at phase ⊢
    · intro phase
      refine past ?_
      cases before : s.run <;> simp [before, RunPhase.notified] at phase ⊢
  | refuses _ set => exact ⟨by simp, fun _ => .inr set⟩
  | invokes here =>
    have first := sound.uncalled (by rw [here]; rfl)
    exact ⟨by simp [first], by simp⟩
  | comesBack here => exact ⟨by simp, fun _ => .inl (calling here)⟩
  | unlocks here => exact ⟨by simp, fun _ => past (.inl here)⟩
  | locks | waits | misses | expires | blocks | wakes | relocks | timesOut | repeats =>
    exact ⟨by simp, by simp⟩

/-- A step of `run` on its own, under a condition variable that wakes it when the time is up, not earlier,
and then says so. -/
def Prompt (s : CallbackTimer) : Action → Bool
  | .lock | .waitFor | .evaluate | .block | .relock | .invoke | .callbackReturns | .unlock => true
  | .wake => match s.run with
    | .blocked deadline => deadline ≤ s.clock
    | _ => false
  | .resume timedOut => match s.run with
    | .relocked deadline => timedOut = decide (deadline ≤ s.clock)
    | _ => false
  | _ => false

/-- How many such steps are left; a wake-up before the time leads through the wait once more. -/
def stepsLeft (s : CallbackTimer) : Nat :=
  match s.run with
  | .starting => 11
  | .locked => 10
  | .testing _ => 9
  | .releasing _ => 8
  | .blocked _ => 7
  | .woken deadline => if deadline ≤ s.clock then 6 else 11
  | .relocked deadline => if deadline ≤ s.clock then 5 else 10
  | .lastTesting => 4
  | .expired => 3
  | .calling => 2
  | .unlocking => 1
  | .ended => 0

theorem stepsLeft_le (s : CallbackTimer) : s.stepsLeft ≤ 11 := by
  unfold stepsLeft
  split
  case h_6 | h_7 => split <;> omega
  all_goals omega

/-- Nobody has destroyed the timer. -/
structure Alone (s : CallbackTimer) : Prop where
  sound : s.Sound
  decided : s.Decided
  destructor : s.destructor = .notCalled
  alive : s.terminated = false

theorem Alone.uncanceled (alone : s.Alone) : s.canceled = false := by
  rw [alone.sound.canceled, alone.destructor]
  rfl

theorem Alone.free (alone : s.Alone) (away : s.run.holdsMutex = false) : s.mutex = none := by
  cases mutex : s.mutex with
  | none => rfl
  | some thread =>
    cases thread with
    | run => simp [alone.sound.runHolds.mp mutex] at away
    | destructor =>
      have here := alone.sound.destructorHolds.mp mutex
      simp [alone.destructor, DestructorPhase.holdsMutex] at here

theorem Alone.step (alone : s.Alone) (prompt : s.Prompt a = true) (taken : s.step a = some s') :
    s'.Alone ∧ s'.stepsLeft < s.stepsLeft := by
  have sound := alone.sound.step taken
  have decided := alone.decided.step alone.sound taken
  cases change_of_step taken with
  | ticks | throws | destroys | destructorLocks | cancels | destructorUnlocks | notifies | joins =>
    simp [Prompt] at prompt
  | refuses _ set => simp [alone.uncanceled] at set
  | locks here | waits here | misses here | expires here | blocks here | invokes here | comesBack here | unlocks here =>
    exact ⟨⟨sound, decided, alone.destructor, alone.alive⟩, by simp [stepsLeft, here]⟩
  | @wakes deadline here =>
    have due : deadline ≤ s.clock := by simpa [Prompt, here] using prompt
    exact ⟨⟨sound, decided, alone.destructor, alone.alive⟩, by simp [stepsLeft, here, due]⟩
  | relocks here =>
    refine ⟨⟨sound, decided, alone.destructor, alone.alive⟩, ?_⟩
    simp only [stepsLeft, here]
    split <;> omega
  | timesOut here due =>
    exact ⟨⟨sound, decided, alone.destructor, alone.alive⟩, by simp [stepsLeft, here, due]⟩
  | @repeats deadline here =>
    have early : ¬ deadline ≤ s.clock := by simpa [Prompt, here] using prompt
    exact ⟨⟨sound, decided, alone.destructor, alone.alive⟩, by simp [stepsLeft, here, early]⟩

/-- Without such a step `run` has ended, and the callback has been called, or it waits for time to pass. -/
theorem Alone.stuck (alone : s.Alone) (stuck : ∀ a, s.Prompt a = true → s.step a = none) :
    s.run = .ended ∧ s.calls = 1 ∨ ∃ deadline, s.run = .blocked deadline ∧ s.clock < deadline := by
  have disabled (a : Action) (prompt : s.Prompt a = true) (enabled : (s.runStep a).isSome) : False := by
    have none := stuck a prompt
    cases a <;> simp_all [CallbackTimer.step, alone.alive, Prompt]
  cases phase : s.run with
  | starting => exact (disabled .lock rfl (by simp [runStep, phase, alone.free (by rw [phase]; rfl)])).elim
  | locked => exact (disabled .waitFor rfl (by simp [runStep, phase])).elim
  | testing => exact (disabled .evaluate rfl (by simp [runStep, phase])).elim
  | releasing => exact (disabled .block rfl (by simp [runStep, phase])).elim
  | blocked deadline =>
    refine .inr ⟨deadline, rfl, ?_⟩
    by_contra due
    have due : deadline ≤ s.clock := by omega
    exact disabled .wake (by simp [Prompt, phase, due]) (by simp [runStep, phase])
  | woken => exact (disabled .relock rfl (by simp [runStep, phase, alone.free (by rw [phase]; rfl)])).elim
  | relocked deadline =>
    refine (disabled (.resume (decide (deadline ≤ s.clock))) (by simp [Prompt, phase]) ?_).elim
    by_cases due : deadline ≤ s.clock <;> simp [runStep, phase, due]
  | lastTesting => exact (disabled .evaluate rfl (by simp [runStep, phase])).elim
  | expired => exact (disabled .invoke rfl (by simp [runStep, phase])).elim
  | calling => exact (disabled .callbackReturns rfl (by simp [runStep, phase])).elim
  | unlocking => exact (disabled .unlock rfl (by simp [runStep, phase])).elim
  | ended =>
    refine .inl ⟨rfl, ?_⟩
    rcases alone.decided.2 (.inr phase) with called | set
    · exact called
    · simp [alone.uncanceled] at set

/-- The callback is never called before its time, as long as the deadlines are in the range of the clock:
`wait_for` was called, and the duration has passed since. Nor is it forgotten: a `run` that has ended has
called it, or the timer was canceled; and as long as nobody destroys the timer, eleven steps of `run` at most
take it to its end, with the callback called, or to a wait for a time that is still to come. -/
theorem called_when_due (run : Run step (init duration) ts s) :
    (InRange duration ts → ∀ t ∈ ts, t.action = .invoke →
      ∃ t₀ ∈ ts, t₀.action = .waitFor ∧ t₀.before.clock + nanoseconds duration ≤ t.before.clock) ∧
    (s.run = .ended → s.calls = 1 ∨ s.canceled = true) ∧
    (s.destructor = .notCalled → s.terminated = false →
      (∀ more s', Run step s more s' → (∀ t ∈ more, t.before.Prompt t.action = true) → more.length ≤ 11 ∧
        ((∀ a, s'.Prompt a = true → s'.step a = none) →
          s'.run = .ended ∧ s'.calls = 1 ∨ ∃ deadline, s'.run = .blocked deadline ∧ s'.clock < deadline)) ∧
      ∃ more s', Run step s more s' ∧ (∀ t ∈ more, t.before.Prompt t.action = true) ∧
        ∀ a, s'.Prompt a = true → s'.step a = none) := by
  have decided : s.Sound ∧ s.Decided := by
    refine run.invariant (I := fun s => s.Sound ∧ s.Decided) ⟨init_sound duration, by simp [init, Decided]⟩ ?_
    exact fun known taken => ⟨known.1.step taken, known.2.step known.1 taken⟩
  refine ⟨fun range t member invokes => ?_, fun ended => decided.2.2 (.inr ended), ?_⟩
  · obtain ⟨t₀, member₀, waits, fixed, passed⟩ := (scheduled_of_run run).called t member invokes
    obtain ⟨low, high⟩ := range t₀ member₀ waits
    refine ⟨t₀, member₀, waits, ?_⟩
    rw [← fixed] at low high ⊢
    rwa [deadline_of_inRange low high] at passed
  intro destructor alive
  have alone : s.Alone := ⟨decided.1, decided.2, destructor, alive⟩
  constructor
  · intro more s' later prompt
    obtain ⟨alone', bound⟩ := later.length_add_work_le (G := fun s a => s.Prompt a = true) alone Alone.step prompt
    have most := s.stepsLeft_le
    exact ⟨by omega, alone'.stuck⟩
  · obtain ⟨more, s', later, prompt, _, stuck⟩ := exists_run_stuck (G := fun s a => s.Prompt a = true) alone Alone.step
    exact ⟨more, s', later, prompt, stuck⟩

/-- `run` wakes up for no reason, and then once more when the time is up. -/
theorem called_when_due_woken : ∃ ts s more s', Run step (init 100) ts s ∧
    (∃ t ∈ ts, t.action = .invoke ∧ ∃ t₀ ∈ ts, t₀.action = .waitFor ∧ t₀.before.clock + 100000000 ≤ t.before.clock) ∧
    Run step s more s' ∧ more.length ≤ 11 ∧
      (s'.run = .ended ∧ s'.calls = 1 ∨ ∃ deadline, s'.run = .blocked deadline ∧ s'.clock < deadline) := by
  obtain ⟨ts, s, run, test⟩ := run_of_trace_any step (init 100)
    [.lock, .waitFor, .evaluate, .block, .tick 60000000, .wake, .relock, .resume false, .evaluate, .block,
      .tick 40000000, .wake, .relock, .resume true, .evaluate, .invoke]
    (fun ts => (ts.all fun t => t.before.clock ≤ 100000000 ∧ 0 ≤ t.before.clock) &&
      (ts.any fun t => t.action = .invoke) &&
      ts.getLast?.any fun t => t.after.destructor = .notCalled ∧ t.after.terminated = false) rfl
  obtain ⟨both, last⟩ := Bool.and_eq_true_iff.mp test
  obtain ⟨clocks, invokes⟩ := Bool.and_eq_true_iff.mp both
  obtain ⟨t, member, action⟩ := List.any_eq_true.mp invokes
  obtain ⟨_, atEnd, ends⟩ := (Option.any_eq_true _ _).mp last
  obtain ⟨destructor, alive⟩ := of_decide_eq_true ends
  rw [run.after_getLast atEnd] at destructor alive
  have range : InRange 100 ts := by
    intro t member _
    obtain ⟨high, low⟩ := of_decide_eq_true (List.all_eq_true.mp clocks t member)
    rw [nanoseconds]
    omega
  obtain ⟨due, _, ends⟩ := called_when_due run
  obtain ⟨few, more, s', later, prompt, stuck⟩ := ends destructor alive
  obtain ⟨bound, ended⟩ := few more s' later prompt
  exact ⟨ts, s, more, s', run, ⟨t, member, of_decide_eq_true action, due range t member (of_decide_eq_true action)⟩, later,
    bound, ended stuck⟩

end CallbackTimer

end Aser
