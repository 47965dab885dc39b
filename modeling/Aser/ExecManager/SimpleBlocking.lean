import Aser.ExecManager.SimpleStages

namespace Aser

open Library

namespace SimpleManager

/-- The thread of the manager is in `wait_for_any`, and all workers are done. -/
def WaitsAlone (s : SimpleManager) : Prop :=
  s.place = .inWaitForAny ∧ ∀ t ∈ s.monitor.workers, t.phase.isReady = true

/-- Nothing more happens in that thread. -/
def Blocked (answers : Nat → WaitResult) (s : SimpleManager) : Prop :=
  ∀ pipe2 pid, s.step answers (.main pipe2 pid) = none

variable {answers : Nat → WaitResult} {s : SimpleManager}

theorem outcome_process {t : Worker} (kind : t.kind = .process) (answer : WaitResult) (status : Int) :
    t.outcome answer = .ok status ↔ ∃ pid, answer = .ok (pid, status) := by
  rw [Worker.outcome, kind]
  cases answer with
  | error errno => simp [waitForProcess, libcError]
  | ok both => simp [waitForProcess, Prod.ext_iff]

/-- In `wait_for_any` every benchmark has a worker, and none is reported. -/
theorem canReport_iff (staged : s.Staged) (inCall : s.place = .inWaitForAny) :
    s.monitor.CanReport answers ↔ ∃ k < s.benchs.length, ∃ both, answers k = .ok both := by
  have owner := staged.watches.owner
  rw [inCall] at owner
  obtain ⟨_, count, _⟩ := staged.all (by rw [inCall]; rfl)
  constructor
  · intro can
    obtain ⟨k, t, status, atK, succeeds, _⟩ := can
    obtain ⟨pid, answer⟩ := (outcome_process (staged.watches.worker atK).1 _ _).mp succeeds
    have within := (List.getElem?_eq_some_iff.mp atK).1
    exact ⟨k, by omega, _, answer⟩
  · intro succeeds
    obtain ⟨k, within, ⟨pid, status⟩, answer⟩ := succeeds
    have bound : k < s.monitor.workers.length := by omega
    have atK := List.getElem?_eq_getElem bound
    refine ⟨k, _, status, atK, ?_, by simp [owner.1]⟩
    exact (outcome_process (staged.watches.worker atK).1 _ _).mpr ⟨pid, answer⟩

theorem blocked_iff (sound : s.Sound answers) (staged : s.Staged) (alone : s.WaitsAlone) :
    s.Blocked answers ↔ ¬ s.monitor.CanReport answers := by
  obtain ⟨inCall, done⟩ := alone
  have owner := staged.watches.owner
  rw [inCall] at owner
  rcases owner.2 with popping | ⟨pid, k, getting⟩
  · rw [← sound.tracks.hung_iff popping done]
    constructor
    · intro blocked
      refine ⟨popping, ?_, done⟩
      have nothing := blocked true 0
      cases queue : s.monitor.endedProcessQueue with
      | nil => rfl
      | cons pid rest =>
        simp [step, effect, main, inCall, waitForAnyNext, popping, apply, optionalStep, ProcessMonitor.step,
          queue] at nothing
    · intro hung pipe2 pid
      obtain ⟨_, empty, _⟩ := hung
      simp [step, effect, main, inCall, waitForAnyNext, popping, apply, optionalStep, ProcessMonitor.step, empty]
  · -- the pid was pushed by a worker whose wait succeeded, so there is something to report
    obtain ⟨next, known⟩ := sound.tracks.getting getting
    obtain ⟨t, atK, _⟩ := Option.map_eq_some_iff.mp known
    have ready := done t (List.mem_of_getElem? atK)
    have fits := sound.tracks.workers atK
    cases phase : t.phase with
    | ready result =>
      rw [Worker.Fits, phase] at fits
      obtain ⟨status, rfl⟩ := fits.2.mp (List.mem_of_getElem? next)
      refine iff_of_false (fun blocked => ?_) (fun cannot => cannot ?_)
      · have nothing := blocked true 0
        simp [step, effect, main, inCall, waitForAnyNext, getting, apply, optionalStep, ProcessMonitor.step, atK,
          phase] at nothing
      · exact ⟨k, t, status, atK, fits.1, sound.tracks.next_unreported next⟩
    | _ => simp [phase, WorkerPhase.isReady] at ready

/-- A call of `wait_for_any` returns, in a bounded number of steps, if and only if some worker whose
wait succeeds is not reported yet; a run whose calls are like that never hangs. The call of the
manager returns if and only if the wait for one of its benchmarks succeeds, and if none does its
thread stays in `wait_for_any` when all workers are done. -/
theorem wait_for_any_returns_iff {m : ProcessMonitor} {ts : List (Transition ProcessMonitor ProcessMonitor.Action)}
    (run : Run (ProcessMonitor.step answers) {} ts m) {benchs : List (List String)} {pgid : Pid}
    {ss : List (Transition SimpleManager Action)} (managed : Run (step answers) (init benchs pgid) ss s) :
    (m.owner = .popping → (m.Returns answers ↔ m.CanReport answers)) ∧
      (∀ more m', Run (ProcessMonitor.step answers) m more m' → (∀ t ∈ more, t.action.inCall = true) →
        more.length ≤ m.remaining) ∧
      ((∀ t ∈ ts, t.action = .waitForAny → t.before.CanReport answers) → ∀ t ∈ ts, ¬ t.after.Hung) ∧
      (s.place = .inWaitForAny → s.monitor.owner = .popping →
        (s.monitor.Returns answers ↔ ∃ k < benchs.length, ∃ both, answers k = .ok both)) ∧
      (s.WaitsAlone → (s.Blocked answers ↔ ∀ k < benchs.length, ∃ errno, answers k = .error errno)) := by
  obtain ⟨rfl, sound, staged⟩ := staged managed
  refine ⟨ProcessMonitor.returns_iff (ProcessMonitor.tracks run), fun more m' after inCall => ?_,
    ProcessMonitor.not_hung_of_canReport run, fun inCall popping => ?_, fun alone => ?_⟩
  · have bound := ProcessMonitor.length_le_remaining after inCall
    omega
  · rw [ProcessMonitor.returns_iff sound.tracks popping]
    exact canReport_iff (staged (by rw [inCall]; rfl)) inCall
  · have inside := staged (by rw [alone.1]; rfl)
    rw [blocked_iff sound inside alone, canReport_iff inside alone.1]
    simp only [not_exists, not_and]
    refine forall_congr' fun k => forall_congr' fun _ => ?_
    cases answers k with
    | error errno => simp
    | ok both => simp

/-- One benchmark, whose child ends: the call of the manager returns. -/
theorem wait_for_any_returns_iff_one : ∃ ss s, Run (step fun _ => .ok (5, 0)) (init [["sleep"]] 1) ss s ∧
    s.place = .inWaitForAny ∧ s.monitor.Returns fun _ => .ok (5, 0) := by
  obtain ⟨ss, s, managed, _, test⟩ := run_of_exec_any (step fun _ => .ok (5, 0)) (init [["sleep"]] 1) (launch [5])
    (fun s => s.place = .inWaitForAny ∧ s.monitor.owner = .popping) rfl
  obtain ⟨inCall, popping⟩ := of_decide_eq_true test
  refine ⟨ss, s, managed, inCall, ?_⟩
  exact ((wait_for_any_returns_iff .start managed).2.2.2.1 inCall popping).mpr ⟨0, by decide, _, rfl⟩

/-- The call hangs in a manager without benchmarks, and when the only wait fails. -/
theorem wait_for_any_hangs :
    (∃ ss s, Run (step fun _ => .ok (5, 0)) (init [] 1) ss s ∧ s.WaitsAlone ∧ s.monitor.Hung) ∧
      ∃ ts m, Run (ProcessMonitor.step fun _ => .error 10) {} ts m ∧ m.workers.length = 1 ∧ m.Hung := by
  constructor
  · obtain ⟨ss, s, managed, _, test⟩ := run_of_exec_any (step fun _ => .ok (5, 0)) (init [] 1) (launch [])
      (fun s => s.place = .inWaitForAny ∧ s.monitor.owner = .popping ∧ s.monitor.endedProcessQueue = [] ∧
        ∀ t ∈ s.monitor.workers, t.phase.isReady = true) rfl
    obtain ⟨inCall, popping, empty, done⟩ := of_decide_eq_true test
    exact ⟨ss, s, managed, ⟨inCall, done⟩, popping, empty, done⟩
  · obtain ⟨ts, m, run, _, test⟩ := run_of_exec_any (ProcessMonitor.step fun _ => .error 10) {}
      [.add .process 5, .waitpid 0, .finish 0, .waitForAny]
      (fun m => m.workers.length = 1 ∧ m.owner = .popping ∧ m.endedProcessQueue = [] ∧
        ∀ t ∈ m.workers, t.phase.isReady = true) rfl
    obtain ⟨one, popping, empty, done⟩ := of_decide_eq_true test
    exact ⟨ts, m, run, one, popping, empty, done⟩

end SimpleManager

end Aser
