import Mathlib.Algebra.GroupWithZero.Nat
import Aser.Core.ProcessMonitorOrder

namespace Aser

open Library

/-- The steps a worker still has before it. -/
def WorkerPhase.work : WorkerPhase → Nat
  | .waiting => 3
  | .collected _ => 2
  | .leaving _ => 1
  | .ready _ => 0

/-- And the owner, until `wait_for_any` returns. -/
def Owner.work : Owner → Nat
  | .popping => 2
  | .getting _ _ => 1
  | _ => 0

def WorkerPhase.isReady : WorkerPhase → Bool
  | .ready _ => true
  | _ => false

theorem sum_map_modify {α : Type*} (g : α → Nat) (f : α → α) {l : List α} {k : Nat} {a : α}
    (atK : l[k]? = some a) : ((l.modify k f).map g).sum + g a = (l.map g).sum + g (f a) := by
  induction l generalizing k with
  | nil => simp at atK
  | cons b l ih =>
    cases k with
    | zero =>
      cases Option.some.inj atK
      simp only [List.modify_zero_cons, List.map_cons, List.sum_cons]
      omega
    | succ k =>
      have rest := ih atK
      simp only [List.modify_succ_cons, List.map_cons, List.sum_cons]
      omega

namespace ProcessMonitor

/-- What goes on while the owner is in `wait_for_any`. -/
def Action.inCall : Action → Bool
  | .pop | .get | .waitpid _ | .push _ | .finish _ => true
  | .add _ _ | .waitForAny | .destroy | .destroyNext => false

/-- An upper bound for the number of such steps. -/
def remaining (m : ProcessMonitor) : Nat :=
  (m.workers.map fun t => t.phase.work).sum + m.owner.work

/-- The owner is in `wait_for_any`, all workers are done and there is nothing to pop. -/
def Hung (m : ProcessMonitor) : Prop :=
  m.owner = .popping ∧ m.endedProcessQueue = [] ∧ ∀ t ∈ m.workers, t.phase.isReady = true

/-- There is a worker whose wait succeeds and that no call of `wait_for_any` has reported. -/
def CanReport (answers : Nat → WaitResult) (m : ProcessMonitor) : Prop :=
  ∃ (k : Nat) (t : Worker) (status : Int), m.workers[k]? = some t ∧ t.outcome (answers k) = .ok status ∧
    k ∉ m.pushed.take m.returned.length

/-- However the call goes on, when nothing more happens it has returned. -/
def Returns (answers : Nat → WaitResult) (m : ProcessMonitor) : Prop :=
  ∀ ts m', Run (step answers) m ts m' → (∀ t ∈ ts, t.action.inCall = true) →
    (∀ a, a.inCall = true → step answers m' a = none) → m'.owner = .idle

variable {answers : Nat → WaitResult} {m m' : ProcessMonitor}

theorem Tracks.taken_of_popping (popping : m.owner = .popping) : m.taken = m.returned.length := by
  rw [taken, popping]

/-- A pid that is still in the queue is that of a worker still to be reported. -/
theorem Tracks.canReport_of_queue (h : m.Tracks answers) (popping : m.owner = .popping)
    (queued : m.endedProcessQueue ≠ []) : m.CanReport answers := by
  have queue := h.queue
  rw [taken_of_popping popping] at queue
  cases left : m.pushed.drop m.returned.length with
  | nil =>
    rw [left, List.map_nil, List.map_eq_nil_iff] at queue
    exact absurd queue queued
  | cons k others =>
    have next : m.pushed[m.returned.length]? = some k := by
      rw [← List.head?_drop, left, List.head?_cons]
    have bound := h.known (List.mem_of_getElem? next)
    have fits := h.workers (List.getElem?_eq_getElem bound)
    have pushed := List.mem_of_getElem? next
    unfold Worker.Fits at fits
    split at fits
    · exact absurd pushed fits
    · exact absurd pushed fits.2
    all_goals
      obtain ⟨status, rfl⟩ := fits.2.mp pushed
      exact ⟨k, _, status, List.getElem?_eq_getElem bound, fits.1, h.next_unreported next⟩

/-- With all workers done, the owner is stuck exactly if there is nothing left to report. -/
theorem Tracks.hung_iff (h : m.Tracks answers) (popping : m.owner = .popping)
    (done : ∀ t ∈ m.workers, t.phase.isReady = true) : m.Hung ↔ ¬ m.CanReport answers := by
  constructor
  · intro hung can
    obtain ⟨_, empty, _⟩ := hung
    obtain ⟨k, t, status, atK, succeeds, unreported⟩ := can
    rcases h.not_lost atK succeeds with reported | ⟨_, waiting | collected | queued | getting⟩
    · exact unreported reported
    · simpa [waiting, WorkerPhase.isReady] using done t (List.mem_of_getElem? atK)
    · simpa [collected, WorkerPhase.isReady] using done t (List.mem_of_getElem? atK)
    · simp [empty] at queued
    · simp [popping] at getting
  · intro cannot
    refine ⟨popping, ?_, done⟩
    by_contra queued
    exact cannot (h.canReport_of_queue popping queued)

@[simp] theorem canReport_setPhase (m : ProcessMonitor) (k : Nat) (phase : WorkerPhase) :
    (m.setPhase k phase).CanReport answers ↔ m.CanReport answers := by
  constructor
  · intro can
    obtain ⟨j, t, status, atJ, succeeds, unreported⟩ := can
    rw [workers_setPhase] at atJ
    obtain ⟨t₀, atJ', rfl⟩ := Option.map_eq_some_iff.mp atJ
    refine ⟨j, t₀, status, atJ', ?_, unreported⟩
    split at succeeds
    · exact succeeds
    · exact succeeds
  · intro can
    obtain ⟨j, t, status, atJ, succeeds, unreported⟩ := can
    refine ⟨j, _, status, by rw [workers_setPhase, atJ]; rfl, ?_, unreported⟩
    split
    · exact succeeds
    · exact succeeds

/-- What the steps during a call come to: a worker moves on, possibly pushing its pid, or the owner
takes a pid or returns. -/
theorem inCall_cases {a : Action} (taken : m.step answers a = some m') (inCall : a.inCall = true) :
    (∃ k t phase, m.workers[k]? = some t ∧ phase.work < t.phase.work ∧
      (m' = m.setPhase k phase ∨ m' = { m.setPhase k phase with
        endedProcessQueue := m.endedProcessQueue ++ [t.pid], pushed := m.pushed ++ [k] })) ∨
    (∃ pid rest, m.owner = .popping ∧ m.endedProcessQueue = pid :: rest ∧
      m' = { m with endedProcessQueue := rest }.popped pid) ∨
    ∃ pid k result, m.owner = .getting pid k ∧ m' = m.got pid result := by
  cases change_of_step taken with
  | fails atK waiting => exact .inl ⟨_, _, _, atK, by simp [waiting, WorkerPhase.work], .inl rfl⟩
  | collects atK waiting => exact .inl ⟨_, _, _, atK, by simp [waiting, WorkerPhase.work], .inl rfl⟩
  | pushes atK collected => exact .inl ⟨_, _, _, atK, by simp [collected, WorkerPhase.work], .inr rfl⟩
  | finishes atK leaving => exact .inl ⟨_, _, _, atK, by simp [leaving, WorkerPhase.work], .inl rfl⟩
  | pops popping front => exact .inr (.inl ⟨_, _, popping, front, rfl⟩)
  | gets getting => exact .inr (.inr ⟨_, _, _, getting, rfl⟩)
  | _ => simp [Action.inCall] at inCall

theorem work_popped (m : ProcessMonitor) (pid : Pid) : (m.popped pid).owner.work ≤ 1 := by
  unfold popped
  split
  · exact Nat.zero_le 1
  · exact Nat.le_refl 1

/-- A call does not go on for ever. -/
theorem remaining_lt {a : Action} (taken : m.step answers a = some m') (inCall : a.inCall = true) :
    m'.remaining < m.remaining := by
  rcases inCall_cases taken inCall with ⟨k, t, phase, atK, less, moved⟩ | ⟨pid, rest, popping, _, rfl⟩ |
    ⟨pid, k, result, getting, rfl⟩
  · have sum := sum_map_modify (fun t : Worker => t.phase.work) (fun t => { t with phase }) atK
    have workers : m'.workers = m.workers.modify k fun t => { t with phase } := by
      rcases moved with rfl | rfl
      · rfl
      · rfl
    have owner : m'.owner = m.owner := by
      rcases moved with rfl | rfl
      · rfl
      · rfl
    dsimp only at sum
    rw [remaining, remaining, workers, owner]
    omega
  · have left := work_popped { m with endedProcessQueue := rest } pid
    have two : m.owner.work = 2 := by rw [popping, Owner.work]
    rw [remaining, remaining, workers_popped]
    dsimp only
    omega
  · have none : (m.got pid result).owner.work = 0 := by rw [owner_got]; rfl
    have one : m.owner.work = 1 := by rw [getting, Owner.work]
    rw [remaining, remaining, workers_got]
    omega

theorem length_le_remaining {ts : List (Transition ProcessMonitor Action)}
    (run : Run (step answers) m ts m') (inCall : ∀ t ∈ ts, t.action.inCall = true) :
    ts.length + m'.remaining ≤ m.remaining := by
  induction run with
  | start => simp
  | next _ taken ih =>
    rw [List.forall_mem_append] at inCall
    have before := ih inCall.1
    have less := remaining_lt taken (inCall.2 _ (List.mem_singleton_self _))
    rw [List.length_append, List.length_singleton]
    omega

variable (answers) in
/-- A worker that is not done can go on. -/
theorem worker_enabled {k : Nat} {t : Worker} (atK : m.workers[k]? = some t)
    (busy : t.phase.isReady = false) : ∃ a, a.ofWorker = true ∧ (m.step answers a).isSome = true := by
  cases phase : t.phase with
  | waiting =>
    refine ⟨.waitpid k, rfl, ?_⟩
    simp only [step, atK, Option.bind_some, phase, Option.isSome_some]
  | collected status =>
    refine ⟨.push k, rfl, ?_⟩
    simp only [step, atK, Option.bind_some, phase, Option.isSome_some]
  | leaving result =>
    refine ⟨.finish k, rfl, ?_⟩
    simp only [step, atK, Option.bind_some, phase, Option.isSome_some]
  | ready result => simp [phase, WorkerPhase.isReady] at busy

theorem Action.inCall_of_ofWorker {a : Action} (ofWorker : a.ofWorker = true) : a.inCall = true := by
  cases a with
  | waitpid | push | finish => rfl
  | _ => simp [Action.ofWorker] at ofWorker

/-- Workers neither report anything nor add to what there is to report. -/
theorem canReport_of_worker {a : Action} (h : m.Tracks answers) (ofWorker : a.ofWorker = true)
    (taken : m.step answers a = some m') : m'.CanReport answers ↔ m.CanReport answers := by
  cases change_of_step taken with
  | fails | collects | finishes => exact canReport_setPhase m _ _
  | @pushes k t status =>
    refine Iff.trans ?_ (canReport_setPhase m k (.leaving (.ok status)))
    have same : (m.pushed ++ [k]).take (m.setPhase k (.leaving (.ok status))).returned.length =
        m.pushed.take m.returned.length := List.take_append_of_le_length h.reported_le
    unfold CanReport
    dsimp only
    rw [same]
    rfl
  | _ => simp [Action.ofWorker] at ofWorker

/-- A call that has nothing to report can come to a state in which it hangs. -/
theorem reaches_hung {m : ProcessMonitor} (h : m.Tracks answers) (popping : m.owner = .popping)
    (cannot : ¬ m.CanReport answers) :
    ∃ ts m', Run (step answers) m ts m' ∧ (∀ t ∈ ts, t.action.inCall = true) ∧ m'.Hung := by
  by_cases done : ∀ t ∈ m.workers, t.phase.isReady = true
  · exact ⟨[], m, .start, by simp, (h.hung_iff popping done).mpr cannot⟩
  · simp only [not_forall] at done
    obtain ⟨t, member, busy⟩ := done
    obtain ⟨k, atK⟩ := List.mem_iff_getElem?.mp member
    obtain ⟨a, ofWorker, enabled⟩ := worker_enabled answers atK (by simpa using busy)
    obtain ⟨m₁, taken⟩ := Option.isSome_iff_exists.mp enabled
    have owner := (worker_frame ofWorker taken).1
    have same := canReport_of_worker h ofWorker taken
    have inCall := Action.inCall_of_ofWorker ofWorker
    have less := remaining_lt taken inCall
    obtain ⟨ts, m', run, within, hung⟩ :=
      reaches_hung (h.step taken) (owner.trans popping) (fun can => cannot (same.mp can))
    refine ⟨⟨m, a, m₁⟩ :: ts, m', (Run.single taken).trans run, ?_, hung⟩
    exact List.forall_mem_cons.mpr ⟨inCall, within⟩
termination_by m.remaining

/-- A hung call is one that nothing can move on. -/
theorem Hung.still (hung : m.Hung) (a : Action) (inCall : a.inCall = true) : m.step answers a = none := by
  obtain ⟨popping, empty, done⟩ := hung
  cases taken : m.step answers a with
  | none => rfl
  | some m' =>
    rcases inCall_cases taken inCall with ⟨k, t, phase, atK, less, _⟩ | ⟨pid, rest, _, front, _⟩ |
      ⟨pid, k, result, getting, _⟩
    · have ready := done t (List.mem_of_getElem? atK)
      cases now : t.phase with
      | ready result => simp [now, WorkerPhase.work] at less
      | _ => simp [now, WorkerPhase.isReady] at ready
    · simp [empty] at front
    · simp [popping] at getting

/-- The states that a call with something to report goes through. -/
theorem call_states {ts : List (Transition ProcessMonitor Action)} (h : m.Tracks answers)
    (popping : m.owner = .popping) (can : m.CanReport answers) (run : Run (step answers) m ts m')
    (inCall : ∀ t ∈ ts, t.action.inCall = true) : m'.Tracks answers ∧
      (m'.owner = .popping ∧ m'.CanReport answers ∨ (∃ pid k, m'.owner = .getting pid k) ∨
        m'.owner = .idle) := by
  induction run with
  | start => exact ⟨h, .inl ⟨popping, can⟩⟩
  | @next ts s a s' _ taken ih =>
    rw [List.forall_mem_append] at inCall
    obtain ⟨h₁, before⟩ := ih inCall.1
    have within := inCall.2 _ (List.mem_singleton_self _)
    have h₂ := h₁.step taken
    refine ⟨h₂, ?_⟩
    by_cases ofWorker : a.ofWorker = true
    · rw [(worker_frame ofWorker taken).1, canReport_of_worker h₁ ofWorker taken]
      exact before
    · cases a with
      | pop =>
        obtain ⟨_, aborted | getting⟩ := pop_cases taken
        · exact absurd aborted h₂.owner
        · exact .inr (.inl getting)
      | get =>
        cases change_of_step taken with
        | gets => exact .inr (.inr (owner_got _ _ _))
      | waitpid | push | finish => exact absurd rfl ofWorker
      | _ => simp [Action.inCall] at within

/-- As long as a call has something to report, it moves on until it has returned. -/
theorem returns_of_canReport (h : m.Tracks answers) (popping : m.owner = .popping)
    (can : m.CanReport answers) : m.Returns answers := by
  intro ts m' run inCall still
  have done : ∀ (k : Nat) (t : Worker), m'.workers[k]? = some t → t.phase.isReady = true := by
    intro k t atK
    by_contra busy
    obtain ⟨a, ofWorker, enabled⟩ := worker_enabled answers atK (by simpa using busy)
    simp [still a (Action.inCall_of_ofWorker ofWorker)] at enabled
  obtain ⟨h', ⟨popping', can'⟩ | ⟨pid, k, getting⟩ | idle⟩ := call_states h popping can run inCall
  · have ready : ∀ t ∈ m'.workers, t.phase.isReady = true := by
      intro t member
      obtain ⟨k, atK⟩ := List.mem_iff_getElem?.mp member
      exact done k t atK
    have nothing := still .pop rfl
    cases queue : m'.endedProcessQueue with
    | nil => exact absurd can' ((h'.hung_iff popping' ready).mp ⟨popping', queue, ready⟩)
    | cons pid rest => simp [step, popping', queue] at nothing
  · obtain ⟨t, atK, _⟩ := Option.map_eq_some_iff.mp (h'.getting getting).2
    have ready := done k t atK
    have nothing := still .get rfl
    cases phase : t.phase with
    | ready result => simp [step, getting, atK, phase] at nothing
    | _ => simp [phase, WorkerPhase.isReady] at ready
  · exact idle

/-- A call of `wait_for_any` returns, whatever the order of events, if and only if some worker whose
wait succeeds has not been reported before; otherwise it comes to hang. -/
theorem returns_iff (h : m.Tracks answers) (popping : m.owner = .popping) :
    m.Returns answers ↔ m.CanReport answers := by
  refine ⟨fun returns => ?_, returns_of_canReport h popping⟩
  by_contra cannot
  obtain ⟨ts, m', run, inCall, hung⟩ := reaches_hung h popping cannot
  have idle := returns ts m' run inCall hung.still
  simp [hung.1] at idle

/-- Between a call with something to report and its return there is something to report. -/
theorem canReport_kept {a : Action} (h : m.Tracks answers)
    (kept : m.owner = .popping → m.CanReport answers) (guard : a = .waitForAny → m.CanReport answers)
    (taken : m.step answers a = some m') : m'.owner = .popping → m'.CanReport answers := by
  intro popping
  by_cases ofWorker : a.ofWorker = true
  · have owner := (worker_frame ofWorker taken).1
    exact (canReport_of_worker h ofWorker taken).mpr (kept (owner ▸ popping))
  · cases change_of_step taken with
    | calls => exact guard rfl
    | @pops pid rest =>
      have one := work_popped { m with endedProcessQueue := rest } pid
      rw [popping] at one
      simp [Owner.work] at one
    | gets => simp [owner_got] at popping
    | adds idle => simp [owner_add, idle] at popping
    | destroys | drops | destroyed => simp at popping
    | _ => exact absurd rfl ofWorker

/-- While all calls have something to report when they are made, the owner never hangs. -/
theorem not_hung_of_canReport {ts : List (Transition ProcessMonitor Action)}
    (run : Run (step answers) {} ts m)
    (can : ∀ t ∈ ts, t.action = .waitForAny → t.before.CanReport answers) :
    ∀ t ∈ ts, ¬ t.after.Hung := by
  intro t member hung
  have both := run.invariant_after
    (I := fun m => m.Tracks answers ∧ (m.owner = .popping → m.CanReport answers))
    (G := fun m a => a = .waitForAny → m.CanReport answers) ⟨init_tracks, by simp⟩
    (fun both guard taken => ⟨both.1.step taken, canReport_kept both.1 both.2 guard taken⟩) can t member
  exact (both.1.hung_iff hung.1 hung.2.2).mp hung (both.2 hung.1)

end ProcessMonitor

end Aser
