import Mathlib.Data.List.Basic
import Aser.Util.Timer

namespace Aser

open Library

/-- The callback may have been invoked. -/
def RunPhase.hasCalled : RunPhase → Bool
  | .calling | .unlocking | .ended => true
  | _ => false

/-- How many steps `run` still makes at most once `canceled_` is set and it does not wait. -/
def RunPhase.work : RunPhase → Nat
  | .starting | .woken _ => 4
  | .locked | .relocked _ | .expired => 3
  | .testing _ | .lastTesting | .calling => 2
  | .unlocking => 1
  | .releasing _ | .blocked _ | .ended => 0

theorem RunPhase.work_le (phase : RunPhase) : phase.work ≤ 4 := by
  cases phase <;> simp [work]

namespace CallbackTimer

/-- The changes that the steps of the two threads make, and the passing of time. -/
inductive Change (s : CallbackTimer) : Action → CallbackTimer → Prop
  | ticks {nanoseconds : Nat} : Change s (.tick nanoseconds) { s with clock := s.clock + nanoseconds }
  | throws {thread} (may : s.mayThrow thread = true) : Change s (.throws thread) { s with terminated := true }
  | locks (here : s.run = .starting) (free : s.mutex = none) :
    Change s .lock { s with run := .locked, mutex := some .run }
  | waits (here : s.run = .locked) :
    Change s .waitFor { s with run := .testing s.deadline }
  | refuses (here : (∃ deadline, s.run = .testing deadline) ∨ s.run = .lastTesting)
    (set : s.canceled = true) : Change s .evaluate { s with run := .unlocking }
  | misses {deadline} (here : s.run = .testing deadline) (unset : s.canceled = false) :
    Change s .evaluate { s with run := .releasing deadline }
  | expires (here : s.run = .lastTesting) (unset : s.canceled = false) :
    Change s .evaluate { s with run := .expired }
  | blocks {deadline} (here : s.run = .releasing deadline) :
    Change s .block { s with run := .blocked deadline, mutex := none }
  | wakes {deadline} (here : s.run = .blocked deadline) : Change s .wake { s with run := .woken deadline }
  | relocks {deadline} (here : s.run = .woken deadline) (free : s.mutex = none) :
    Change s .relock { s with run := .relocked deadline, mutex := some .run }
  | timesOut {deadline} (here : s.run = .relocked deadline) (due : deadline ≤ s.clock) :
    Change s (.resume true) { s with run := .lastTesting }
  | repeats {deadline} (here : s.run = .relocked deadline) :
    Change s (.resume false) { s with run := .testing deadline }
  | invokes (here : s.run = .expired) : Change s .invoke { s with run := .calling, calls := s.calls + 1 }
  | comesBack (here : s.run = .calling) : Change s .callbackReturns { s with run := .unlocking }
  | unlocks (here : s.run = .unlocking) : Change s .unlock { s with run := .ended, mutex := none }
  | destroys (here : s.destructor = .notCalled) : Change s .destroy { s with destructor := .locking }
  | destructorLocks (here : s.destructor = .locking) (free : s.mutex = none) :
    Change s .destructorLock { s with destructor := .locked, mutex := some .destructor }
  | cancels (here : s.destructor = .locked) :
    Change s .cancel { s with destructor := .unlocking, canceled := true }
  | destructorUnlocks (here : s.destructor = .unlocking) :
    Change s .destructorUnlock { s with destructor := .notifying, mutex := none }
  | notifies (here : s.destructor = .notifying) :
    Change s .notifyOne { s with destructor := .joining, run := s.run.notified }
  | joins (here : s.destructor = .joining) (ended : s.run = .ended) :
    Change s .join { s with destructor := .returned }

variable {s s' : CallbackTimer} {a : Action}

theorem change_of_runStep (taken : s.runStep a = some s') : s.Change a s' := by
  cases a with
  | lock =>
    simp only [runStep, Option.ite_none_right_eq_some, Option.some.injEq] at taken
    exact taken.2 ▸ .locks taken.1.1 taken.1.2
  | waitFor =>
    simp only [runStep, Option.ite_none_right_eq_some, Option.some.injEq] at taken
    exact taken.2 ▸ .waits taken.1
  | evaluate =>
    simp only [runStep] at taken
    split at taken
    · rename_i deadline here
      rw [← Option.some.inj taken]
      split
      · rename_i canceled
        exact .refuses (.inl ⟨deadline, here⟩) canceled
      · rename_i unset
        exact .misses here (by simpa using unset)
    · rename_i here
      rw [← Option.some.inj taken]
      split
      · rename_i canceled
        exact .refuses (.inr here) canceled
      · rename_i unset
        exact .expires here (by simpa using unset)
    · simp at taken
  | block =>
    simp only [runStep] at taken
    split at taken
    · rename_i here
      exact Option.some.inj taken ▸ .blocks here
    · simp at taken
  | wake =>
    simp only [runStep] at taken
    split at taken
    · rename_i here
      exact Option.some.inj taken ▸ .wakes here
    · simp at taken
  | relock =>
    simp only [runStep] at taken
    split at taken
    · rename_i here
      simp only [Option.ite_none_right_eq_some, Option.some.injEq] at taken
      exact taken.2 ▸ .relocks here taken.1
    · simp at taken
  | resume timedOut =>
    simp only [runStep] at taken
    split at taken
    · rename_i here
      cases timedOut with
      | true =>
        simp only [if_true, Option.ite_none_right_eq_some, Option.some.injEq] at taken
        exact taken.2 ▸ .timesOut here taken.1
      | false => exact Option.some.inj taken ▸ .repeats here
    · simp at taken
  | invoke =>
    simp only [runStep, Option.ite_none_right_eq_some, Option.some.injEq] at taken
    exact taken.2 ▸ .invokes taken.1
  | callbackReturns =>
    simp only [runStep, Option.ite_none_right_eq_some, Option.some.injEq] at taken
    exact taken.2 ▸ .comesBack taken.1
  | unlock =>
    simp only [runStep, Option.ite_none_right_eq_some, Option.some.injEq] at taken
    exact taken.2 ▸ .unlocks taken.1
  | tick | throws | destroy | destructorLock | cancel | destructorUnlock | notifyOne | join => cases taken

theorem change_of_destructorStep (taken : s.destructorStep a = some s') : s.Change a s' := by
  cases a with
  | destroy =>
    simp only [destructorStep, Option.ite_none_right_eq_some, Option.some.injEq] at taken
    exact taken.2 ▸ .destroys taken.1
  | destructorLock =>
    simp only [destructorStep, Option.ite_none_right_eq_some, Option.some.injEq] at taken
    exact taken.2 ▸ .destructorLocks taken.1.1 taken.1.2
  | cancel =>
    simp only [destructorStep, Option.ite_none_right_eq_some, Option.some.injEq] at taken
    exact taken.2 ▸ .cancels taken.1
  | destructorUnlock =>
    simp only [destructorStep, Option.ite_none_right_eq_some, Option.some.injEq] at taken
    exact taken.2 ▸ .destructorUnlocks taken.1
  | notifyOne =>
    simp only [destructorStep, Option.ite_none_right_eq_some, Option.some.injEq] at taken
    exact taken.2 ▸ .notifies taken.1
  | join =>
    simp only [destructorStep, Option.ite_none_right_eq_some, Option.some.injEq] at taken
    exact taken.2 ▸ .joins taken.1.1 taken.1.2
  | _ => cases taken

theorem change_of_step (taken : s.step a = some s') : s.Change a s' := by
  have ofThreads (moved : (s.runStep a).or (s.destructorStep a) = some s') : s.Change a s' := by
    rcases Option.or_eq_some_iff.mp moved with byRun | ⟨_, byDestructor⟩
    · exact change_of_runStep byRun
    · exact change_of_destructorStep byDestructor
  unfold step at taken
  split at taken
  · simp at taken
  · cases a with
    | tick nanoseconds => exact Option.some.inj taken ▸ .ticks
    | throws thread =>
      simp only [Option.ite_none_right_eq_some, Option.some.injEq] at taken
      exact taken.2 ▸ .throws taken.1
    | _ => exact ofThreads taken

/-- What every reachable state keeps. `run` has the mutex from where it finds `canceled_` unset until
it waits, so the destructor cannot come in between: it notifies nobody who is yet to wait. -/
structure Sound (s : CallbackTimer) : Prop where
  runHolds : s.mutex = some .run ↔ s.run.holdsMutex = true
  destructorHolds : s.mutex = some .destructor ↔ s.destructor.holdsMutex = true
  canceled : s.canceled = s.destructor.hasCanceled
  unset : ∀ {deadline}, s.run = .releasing deadline → s.canceled = false
  unnotified : ∀ {deadline}, s.run = .blocked deadline → s.destructor.hasNotified = false
  uncalled : s.run.hasCalled = false → s.calls = 0
  once : s.calls ≤ 1
  returned : s.destructor = .returned → s.run = .ended

/-- `run` moves on with the mutex as it is. -/
theorem Sound.moves (h : s.Sound) {phase : RunPhase} (holds : phase.holdsMutex = s.run.holdsMutex)
    (unset : ∀ deadline, phase = .releasing deadline → s.canceled = false)
    (awake : ∀ deadline, phase ≠ .blocked deadline) (running : s.run ≠ .ended)
    (called : phase.hasCalled = false → s.run.hasCalled = false) : Sound { s with run := phase } where
  runHolds := h.runHolds.trans (by rw [holds])
  destructorHolds := h.destructorHolds
  canceled := h.canceled
  unset := unset _
  unnotified here := absurd here (awake _)
  uncalled before := h.uncalled (called before)
  once := h.once
  returned gone := absurd (h.returned gone) running

theorem Sound.takes (h : s.Sound) {phase : RunPhase} (free : s.mutex = none) (holds : phase.holdsMutex = true)
    (unset : ∀ deadline, phase ≠ .releasing deadline) (awake : ∀ deadline, phase ≠ .blocked deadline)
    (running : s.run ≠ .ended) (called : s.run.hasCalled = false) :
    Sound { s with run := phase, mutex := some .run } where
  runHolds := by simp [holds]
  destructorHolds := by
    have other := h.destructorHolds
    rw [free] at other
    simpa using other
  canceled := h.canceled
  unset here := absurd here (unset _)
  unnotified here := absurd here (awake _)
  uncalled _ := h.uncalled called
  once := h.once
  returned gone := absurd (h.returned gone) running

theorem Sound.gives (h : s.Sound) {phase : RunPhase} (held : s.run.holdsMutex = true)
    (frees : phase.holdsMutex = false)
    (unnotified : ∀ deadline, phase = .blocked deadline → s.destructor.hasNotified = false)
    (running : s.run ≠ .ended) (called : phase.hasCalled = false → s.run.hasCalled = false) :
    Sound { s with run := phase, mutex := none } where
  runHolds := by simp [frees]
  destructorHolds := by
    have other := h.destructorHolds
    rw [h.runHolds.mpr held] at other
    simpa using other
  canceled := h.canceled
  unset here := by
    change phase = _ at here
    rw [here] at frees
    simp [RunPhase.holdsMutex] at frees
  unnotified := unnotified _
  uncalled before := h.uncalled (called before)
  once := h.once
  returned gone := absurd (h.returned gone) running

/-- Nobody waits on `cond_` any more once the destructor has called `notify_one`. -/
theorem Sound.notifies (h : s.Sound) (here : s.destructor = .notifying) :
    Sound { s with destructor := .joining, run := s.run.notified } := by
  have holds : s.run.notified.holdsMutex = s.run.holdsMutex := by cases s.run <;> rfl
  have called : s.run.notified.hasCalled = s.run.hasCalled := by cases s.run <;> rfl
  have set : s.canceled = true := by rw [h.canceled, here]; rfl
  refine ⟨h.runHolds.trans (by rw [holds]), ?_, ?_, ?_, ?_, fun before => h.uncalled (called ▸ before), h.once, ?_⟩
  · exact h.destructorHolds.trans (by rw [here]; rfl)
  · exact set
  · intro deadline phase
    cases before : s.run with
    | releasing _ => exact h.unset before
    | _ => simp [before, RunPhase.notified] at phase
  · intro deadline phase
    cases before : s.run <;> simp [before, RunPhase.notified] at phase
  · simp

/-- The destructor moves on, with the mutex or without, before it has notified anybody. -/
theorem Sound.turns (h : s.Sound) {phase : DestructorPhase} {mutex : Option TimerThread}
    (runHolds : mutex = some .run ↔ s.run.holdsMutex = true)
    (holds : mutex = some .destructor ↔ phase.holdsMutex = true)
    (canceled : phase.hasCanceled = s.destructor.hasCanceled) (unnotified : phase.hasNotified = false) :
    Sound { s with destructor := phase, mutex } where
  runHolds := runHolds
  destructorHolds := holds
  canceled := h.canceled.trans canceled.symm
  unset := h.unset
  unnotified _ := unnotified
  uncalled := h.uncalled
  once := h.once
  returned gone := by
    change phase = .returned at gone
    rw [gone] at unnotified
    cases unnotified

theorem Sound.step (h : s.Sound) (taken : s.step a = some s') : s'.Sound := by
  cases change_of_step taken with
  | ticks => exact { h with }
  | throws => exact { h with }
  | locks here free | relocks here free =>
    exact h.takes free rfl (by simp) (by simp) (by simp [here]) (by rw [here]; rfl)
  | waits here | expires here | wakes here | timesOut here | repeats here | comesBack here =>
    exact h.moves (by rw [here]; rfl) (by simp) (by simp) (by simp [here]) (by simp [here, RunPhase.hasCalled])
  | refuses here =>
    rcases here with ⟨deadline, here⟩ | here
    all_goals exact h.moves (by rw [here]; rfl) (by simp) (by simp) (by simp [here]) (fun _ => by rw [here]; rfl)
  | misses here unset =>
    exact h.moves (by rw [here]; rfl) (fun _ _ => unset) (by simp) (by simp [here]) (fun _ => by rw [here]; rfl)
  | @blocks deadline here =>
    have alone : s.destructor.hasCanceled = false := h.canceled ▸ h.unset here
    have unnotified : s.destructor.hasNotified = false := by
      cases phase : s.destructor with
      | notCalled | locking | locked => rfl
      | _ => simp [phase, DestructorPhase.hasCanceled] at alone
    exact h.gives (by rw [here]; rfl) rfl (fun _ _ => unnotified) (by simp [here]) (fun _ => by rw [here]; rfl)
  | invokes here =>
    have first := h.uncalled (by rw [here]; rfl)
    have moved : Sound { s with run := .calling } :=
      h.moves (by rw [here]; rfl) (by simp) (by simp) (by simp [here]) (by simp [RunPhase.hasCalled])
    exact { moved with uncalled := by simp [RunPhase.hasCalled], once := by simp [first] }
  | unlocks here =>
    exact h.gives (by rw [here]; rfl) rfl (by simp) (by simp [here]) (by simp [RunPhase.hasCalled])
  | destroys here =>
    exact h.turns h.runHolds (h.destructorHolds.trans (by rw [here]; rfl)) (by rw [here]; rfl) rfl
  | destructorLocks here free =>
    have other := h.runHolds
    rw [free] at other
    exact h.turns (by simpa using other) (by simp [DestructorPhase.holdsMutex]) (by rw [here]; rfl) rfl
  | cancels here =>
    have mine := h.destructorHolds.mpr (by rw [here]; rfl)
    have free : s.run.holdsMutex = false := by
      rw [← Bool.not_eq_true, ← h.runHolds, mine]
      simp
    refine { h with
      destructorHolds := h.destructorHolds.trans (by rw [here]; rfl)
      canceled := rfl
      unset := fun releasing => ?_
      unnotified := fun _ => rfl
      returned := by simp }
    rw [releasing] at free
    simp [RunPhase.holdsMutex] at free
  | destructorUnlocks here =>
    have mine := h.destructorHolds.mpr (by rw [here]; rfl)
    have other := h.runHolds
    rw [mine] at other
    exact h.turns (by simpa using other) (by simp [DestructorPhase.holdsMutex]) (by rw [here]; rfl) rfl
  | notifies here => exact h.notifies here
  | joins here ended =>
    refine { h with
      destructorHolds := h.destructorHolds.trans (by rw [here]; rfl)
      canceled := h.canceled.trans (by rw [here]; rfl)
      unnotified := fun asleep => ?_
      returned := fun _ => ended }
    rw [ended] at asleep
    cases asleep

theorem init_sound (duration : Int) : (init duration).Sound where
  runHolds := by simp [init, RunPhase.holdsMutex]
  destructorHolds := by simp [init, DestructorPhase.holdsMutex]
  canceled := rfl
  unset here := by simp [init] at here
  unnotified _ := rfl
  uncalled _ := rfl
  once := Nat.zero_le 1
  returned gone := by simp [init] at gone

/-- The callback has not been invoked, and will not be. -/
def Refused (s : CallbackTimer) : Prop := s.calls = 0 ∧ (s.run = .unlocking ∨ s.run = .ended)

theorem Refused.step (refused : s.Refused) (taken : s.step a = some s') : s'.Refused := by
  obtain ⟨none, phase⟩ := refused
  cases change_of_step taken with
  | ticks | throws | destroys | destructorLocks | cancels | destructorUnlocks | joins => exact ⟨none, phase⟩
  | unlocks => exact ⟨none, .inr rfl⟩
  | notifies =>
    refine ⟨none, ?_⟩
    rcases phase with phase | phase
    · exact .inl (by rw [phase]; rfl)
    · exact .inr (by rw [phase]; rfl)
  | refuses => exact ⟨none, .inl rfl⟩
  | locks here | waits here | misses here | expires here | blocks here | wakes here | relocks here
  | timesOut here | repeats here | invokes here | comesBack here =>
    rw [here] at phase
    simp at phase

/-- Where `run` sees that `canceled_` is set, it is over with the callback. -/
theorem Sound.refuses (h : s.Sound) (set : s.canceled = true) (taken : s.step .evaluate = some s') :
    s'.Refused := by
  cases change_of_step taken with
  | refuses here =>
    rcases here with ⟨deadline, here⟩ | here
    all_goals exact ⟨h.uncalled (by rw [here]; rfl), .inl rfl⟩
  | misses _ unset => simp [set] at unset
  | expires _ unset => simp [set] at unset

theorem sound {duration : Int} {ts : List (Transition CallbackTimer Action)}
    (run : Run step (init duration) ts s) : s.Sound :=
  run.invariant (init_sound duration) Sound.step

theorem refused_of_evaluate {duration : Int} {ts : List (Transition CallbackTimer Action)}
    (run : Run step (init duration) ts s) {t : Transition CallbackTimer Action} (member : t ∈ ts)
    (evaluates : t.action = .evaluate) (set : t.before.canceled = true) : s.Refused := by
  induction run with
  | start => simp at member
  | next previous taken ih =>
    rcases List.mem_append.mp member with old | new
    · exact (ih old).step taken
    · cases List.mem_singleton.mp new
      change _ = _ at evaluates
      subst evaluates
      exact (sound previous).refuses set taken

/-- The steps left until the destructor returns, once it has called `notify_one`. -/
def work (s : CallbackTimer) : Nat :=
  if s.terminated ∨ s.destructor = .returned then 0 else s.run.work + 1

theorem alive_of_step (taken : s.step a = some s') : s.terminated = false := by
  by_contra ended
  simp [step, ended] at taken

/-- Once the destructor has called `notify_one`, every step brings it closer to its return. Only time
may pass without doing so. -/
theorem Sound.work_lt (h : s.Sound) (notified : s.destructor.hasNotified = true)
    (taken : s.step a = some s') (busy : a.isTick = false) :
    s'.work < s.work ∧ s'.destructor.hasNotified = true := by
  have alive := alive_of_step taken
  have set : s.canceled = true := by
    rw [h.canceled]
    cases phase : s.destructor with
    | joining | returned => rfl
    | _ => simp [phase, DestructorPhase.hasNotified] at notified
  have joining : s.run ≠ .ended → s.work = s.run.work + 1 := by
    intro running
    rw [work, if_neg]
    rintro (ended | gone)
    · simp [alive] at ended
    · exact running (h.returned gone)
  have moves {phase : RunPhase} {m : Option TimerThread} {n : Nat} (running : s.run ≠ .ended)
      (less : phase.work < s.run.work) : work { s with run := phase, mutex := m, calls := n } < s.work := by
    rw [joining running, work]
    split
    · omega
    · exact Nat.succ_lt_succ less
  cases change_of_step taken with
  | ticks => simp [Action.isTick] at busy
  | @throws thread may =>
    refine ⟨?_, notified⟩
    have unjoined : s.destructor ≠ .returned := by
      intro gone
      cases thread <;> simp [mayThrow, gone, h.returned gone] at may
    simp [work, alive, unjoined]
  | misses _ unset => simp [set] at unset
  | expires _ unset => simp [set] at unset
  | blocks here => simp [h.unset here] at set
  | wakes here => simp [h.unnotified here] at notified
  | refuses here =>
    refine ⟨?_, notified⟩
    rcases here with ⟨deadline, here⟩ | here
    all_goals exact moves (by simp [here]) (by simp [here, RunPhase.work])
  | locks here | waits here | relocks here | timesOut here | repeats here | invokes here | comesBack here | unlocks here =>
    exact ⟨moves (by simp [here]) (by simp [here, RunPhase.work]), notified⟩
  | destroys here | destructorLocks here | cancels here | destructorUnlocks here | notifies here =>
    simp [here, DestructorPhase.hasNotified] at notified
  | joins here ended =>
    refine ⟨?_, rfl⟩
    simp [work, alive, here]

theorem Sound.work_of_run (h : s.Sound) (notified : s.destructor.hasNotified = true)
    {ts : List (Transition CallbackTimer Action)} (run : Run CallbackTimer.step s ts s')
    (busy : ∀ t ∈ ts, t.action.isTick = false) :
    s'.Sound ∧ s'.destructor.hasNotified = true ∧ ts.length + s'.work ≤ s.work := by
  induction run with
  | start => exact ⟨h, notified, by simp⟩
  | next _ taken ih =>
    rw [List.forall_mem_append] at busy
    obtain ⟨sound, notified, bound⟩ := ih busy.1
    obtain ⟨less, still⟩ := sound.work_lt notified taken (busy.2 _ (List.mem_singleton_self _))
    refine ⟨sound.step taken, still, ?_⟩
    simp only [List.length_append, List.length_singleton]
    omega

/-- While the destructor waits in `join`, a thread can move on, and not just because time passes. -/
theorem Sound.enabled (h : s.Sound) (joining : s.destructor = .joining) (alive : s.terminated = false) :
    ∃ a, a.isTick = false ∧ s.step a ≠ none := by
  have set : s.canceled = true := by rw [h.canceled, joining]; rfl
  have free (away : s.run.holdsMutex = false) : s.mutex = none := by
    cases mutex : s.mutex with
    | none => rfl
    | some thread =>
      cases thread with
      | run => simp [h.runHolds.mp mutex] at away
      | destructor =>
        have here := h.destructorHolds.mp mutex
        simp [joining, DestructorPhase.holdsMutex] at here
  cases phase : s.run with
  | starting => exact ⟨.lock, rfl, by simp [CallbackTimer.step, alive, runStep, phase, free (by rw [phase]; rfl)]⟩
  | locked => exact ⟨.waitFor, rfl, by simp [CallbackTimer.step, alive, runStep, phase]⟩
  | testing => exact ⟨.evaluate, rfl, by simp [CallbackTimer.step, alive, runStep, phase]⟩
  | releasing => simp [h.unset phase] at set
  | blocked =>
    have before := h.unnotified phase
    simp [joining, DestructorPhase.hasNotified] at before
  | woken => exact ⟨.relock, rfl, by simp [CallbackTimer.step, alive, runStep, phase, free (by rw [phase]; rfl)]⟩
  | relocked => exact ⟨.resume false, rfl, by simp [CallbackTimer.step, alive, runStep, phase]⟩
  | lastTesting => exact ⟨.evaluate, rfl, by simp [CallbackTimer.step, alive, runStep, phase]⟩
  | expired => exact ⟨.invoke, rfl, by simp [CallbackTimer.step, alive, runStep, phase]⟩
  | calling => exact ⟨.callbackReturns, rfl, by simp [CallbackTimer.step, alive, runStep, phase]⟩
  | unlocking => exact ⟨.unlock, rfl, by simp [CallbackTimer.step, alive, runStep, phase]⟩
  | ended => exact ⟨.join, rfl, by simp [CallbackTimer.step, alive, runStep, destructorStep, phase, joining]⟩

/-- From here the destructor comes back from `join` (or the program ends) after at most five steps
of the threads, however little time passes. -/
def JoinReturns (s : CallbackTimer) : Prop :=
  ∀ ts s', Run step s ts s' → (∀ t ∈ ts, t.action.isTick = false) →
    ts.length ≤ 5 ∧ ((∀ a, a.isTick = false → s'.step a = none) → s'.destructor = .returned ∨ s'.terminated = true)

theorem Sound.joinReturns (h : s.Sound) (joining : s.destructor = .joining) : s.JoinReturns := by
  intro ts s' run busy
  obtain ⟨sound, notified, bound⟩ := h.work_of_run (by rw [joining]; rfl) run busy
  have most : s.work ≤ 5 := by
    have last := s.run.work_le
    unfold work
    split <;> omega
  refine ⟨by omega, fun still => ?_⟩
  by_contra neither
  simp only [not_or, Bool.not_eq_true] at neither
  have joining' : s'.destructor = .joining := by
    cases phase : s'.destructor with
    | joining => rfl
    | _ => simp [phase, DestructorPhase.hasNotified] at notified neither
  obtain ⟨a, other, enabled⟩ := sound.enabled joining' neither.2
  exact enabled (still a other)

/-- The callback is invoked once at most, and not at all if `run` evaluates its predicate after the
destructor has set `canceled_`; when the destructor has returned, `run` has ended and the callback
comes no more. A `run` that still waits is one that is yet to be notified, so `join` does not wait
for the time to be up. -/
theorem canceled_safely {duration : Int} {ts : List (Transition CallbackTimer Action)}
    (run : Run step (init duration) ts s) :
    s.calls ≤ 1 ∧
      (∀ t ∈ ts, t.action = .evaluate → t.before.canceled = true → s.calls = 0) ∧
      (s.destructor = .returned → s.run = .ended) ∧
      (∀ t ∈ ts, t.before.destructor = .returned → t.action ≠ .invoke) ∧
      ¬ (s.canceled = true ∧ s.destructor.hasNotified = true ∧ ∃ deadline, s.run = .blocked deadline) ∧
      (s.destructor = .joining → s.JoinReturns) := by
  have h := sound run
  refine ⟨h.once, ?_, h.returned, ?_, ?_, h.joinReturns⟩
  · intro t member evaluates set
    exact (refused_of_evaluate run member evaluates set).1
  · intro t member gone invokes
    obtain ⟨taken, _, _, _, reached⟩ := run.transition member
    have ended := (sound reached).returned gone
    simp [step, invokes, runStep, destructorStep, ended] at taken
  · rintro ⟨_, notified, deadline, asleep⟩
    simp [h.unnotified asleep] at notified

/-- The time is up just when the destructor has set `canceled_`. -/
theorem canceled_safely_expired : ∃ ts s, Run step (init 100) ts s ∧
    s.clock = 100000000 ∧ s.destructor = .returned ∧ s.run = .ended ∧ s.calls = 0 := by
  obtain ⟨ts, s, run, _, ended⟩ := run_of_exec_any step (init 100)
    [.lock, .waitFor, .evaluate, .block, .destroy, .destructorLock, .tick 100000000, .cancel, .wake,
      .destructorUnlock, .relock, .notifyOne, .resume true, .evaluate, .unlock, .join]
    (fun s => s.clock = 100000000 ∧ s.destructor = .returned ∧ s.calls = 0) rfl
  obtain ⟨clock, returned, calls⟩ := of_decide_eq_true ended
  exact ⟨ts, s, run, clock, returned, (canceled_safely run).2.2.1 returned, calls⟩

end CallbackTimer

end Aser
