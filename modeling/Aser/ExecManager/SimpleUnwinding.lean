import Aser.ExecManager.SimpleBlocking

namespace Aser

open Library

namespace SimpleManager

/-- The child of an added process waits for a go byte that only the manager can still write. -/
def Parked (s : SimpleManager) : Prop :=
  ∃ (k : Nat) (o : SyncProcess), k < s.monitor.workers.length ∧ s.world.objects[k]? = some o ∧ o.OnHold ∧
    ⟨k, .goPipe, .writeEnd⟩ ∈ o.fds

/-- The step is the call of `start_impl` that throws, and leaves a child parked. -/
def ThrowsParked (answers : Nat → WaitResult) (s : SimpleManager) (a : Action) : Prop :=
  s.Parked ∧ s.place ≠ .unwinding ∧ ∃ e, s.effect answers a = some e ∧ e.place = .unwinding

/-- The thread of the manager is in `~process_monitor`, at the future of a worker that is not done, and
the child that this worker waits for is blocked reading its go pipe, of which the manager itself has
the write end open. -/
def Deadlocked (s : SimpleManager) : Prop :=
  s.place = .unwinding ∧ ∃ (k : Nat) (left : List Nat) (t : Worker) (o : SyncProcess) (c : Child),
    s.monitor.owner = .destroying (k :: left) ∧ s.monitor.workers[k]? = some t ∧ t.phase.isReady = false ∧
    s.world.objects[k]? = some o ∧ o.child = some c ∧ c.phase = .waitForParent [.read .goPipe] ∧
    o.goBytes = 0 ∧ ⟨k, .goPipe, .writeEnd⟩ ∈ o.fds

variable {answers : Nat → WaitResult} {s s' : SimpleManager} {a : Action} {e : Effect}

theorem Deadlocked.parked (each : s.world.Each fun _ o => o.Handshake) (deadlocked : s.Deadlocked) :
    s.Parked := by
  obtain ⟨_, k, left, t, o, c, _, atK, _, atO, atChild, phase, empty, writable⟩ := deadlocked
  refine ⟨k, o, (List.getElem?_eq_some_iff.mp atK).1, atO, ⟨?_, c, _, atChild, phase, by simp⟩, writable⟩
  -- once the go byte is written it stays in the pipe until the child has read it
  by_contra isWritten
  have byte := (each k o atO).waits atChild phase (by simp) (by simpa using isWritten)
  omega

/-- Of the processes, the steps of an unwinding manager touch only the children and who waits for them,
of the workers none but their progress. -/
theorem unwinding_effect (effect : s.effect answers a = some e) (out : e.place = .unwinding) :
    (∀ act, e.world = some act → ∃ i b, act = .object i b ∧
      (b.ofParent = false ∨ b.ofWaiter = true ∨ b = .parentThrows)) ∧
    ∀ b, e.monitor = some b → b.sparesWorkers = true ∨ b.ofWorker = true := by
  cases a with
  | main pipe2 pid =>
    simp only [SimpleManager.effect] at effect
    have nothing : e.world = none ∧ ∀ b, e.monitor = some b → b.sparesWorkers = true := by
      unfold main at effect
      grind [testTerminated, destroyObject, destroyMonitor, waitForAnyNext, ProcessMonitor.Action.sparesWorkers]
    exact ⟨by simp [nothing.1], fun b atMonitor => .inl (nothing.2 b atMonitor)⟩
  | throws =>
    simp only [SimpleManager.effect] at effect
    have only : (∀ act, e.world = some act → ∃ i, act = .object i .parentThrows) ∧ e.monitor = none := by
      unfold throws at effect
      grind
    refine ⟨fun act atWorld => ?_, by simp [only.2]⟩
    obtain ⟨i, rfl⟩ := only.1 act atWorld
    exact ⟨i, _, rfl, .inr (.inr rfl)⟩
  | execMonitor =>
    cases effect
    exact ⟨by simp, by simp⟩
  | worker k =>
    obtain ⟨t, o, _, _, works⟩ := worker_cases effect
    cases works with
    | waits | collects =>
      refine ⟨fun act atWorld => ⟨k, _, (Option.some.inj atWorld).symm, .inr (.inl rfl)⟩, by simp⟩
    | fails | returns =>
      refine ⟨fun act atWorld => ⟨k, _, (Option.some.inj atWorld).symm, .inr (.inl rfl)⟩, fun b atMonitor => ?_⟩
      exact .inr (Option.some.inj atMonitor ▸ rfl)
    | pushes | finishes => exact ⟨by simp, fun b atMonitor => .inr (Option.some.inj atMonitor ▸ rfl)⟩
  | child i b =>
    obtain ⟨notParent, rfl⟩ := child_cases effect
    exact ⟨fun act atWorld => ⟨i, b, (Option.some.inj atWorld).symm, .inl notParent⟩, by simp⟩

/-- Nothing that happens while the manager unwinds, the step that starts it included, parks a child. -/
theorem parked_of_step (parked : s'.Parked) (taken : s.step answers a = some s')
    (out : s'.place = .unwinding) : s.Parked := by
  obtain ⟨e, effect, world, monitor, _, _, place, _⟩ := step_cases taken
  obtain ⟨onWorld, onMonitor⟩ := unwinding_effect effect (place.symm.trans out)
  obtain ⟨k, o', within, atK, held, writable⟩ := parked
  have workers : s'.monitor.workers.length = s.monitor.workers.length := by
    rcases optionalStep_cases monitor with ⟨_, same⟩ | ⟨b, atMonitor, moved⟩
    · rw [same]
    · rcases onMonitor b atMonitor with spares | ofWorker
      · rw [ProcessMonitor.owner_frame spares moved]
      · have jobs := congrArg List.length (ProcessMonitor.worker_frame ofWorker moved).2.2
        simpa only [ProcessMonitor.jobs, List.length_map] using jobs
  rw [workers] at within
  rcases optionalStep_cases world with ⟨_, same⟩ | ⟨act, atWorld, moved⟩
  · exact ⟨k, o', within, same ▸ atK, held, writable⟩
  · obtain ⟨i, b, rfl, spares⟩ := onWorld act atWorld
    rcases SyncWorld.object_cases moved atK with ⟨rfl, o, atI, moved⟩ | ⟨_, before⟩
    · obtain ⟨heldBefore, fds⟩ := held.of_step spares moved
      exact ⟨k, o, within, atI, heldBefore, fds ▸ writable⟩
    · exact ⟨k, o', within, before, held, writable⟩

/-- Unwinding `start_impl` does not deadlock in a run in which no call throws while the child of an
added process is parked. -/
theorem unwinds_without_deadlock {benchs : List (List String)} {pgid : Pid}
    {ts : List (Transition SimpleManager Action)} (run : Run (step answers) (init benchs pgid) ts s)
    (guarded : ∀ t ∈ ts, ¬ t.before.ThrowsParked answers t.action) : ¬ s.Deadlocked := by
  have free : s.place = .unwinding → ¬ s.Parked := by
    refine run.invariant_of_guard (I := fun s => s.place = .unwinding → ¬ s.Parked)
      (G := fun s a => ¬ s.ThrowsParked answers a) (by simp [init]) ?_ guarded
    intro s a s' free guard taken out parked
    have before := parked_of_step parked taken out
    by_cases already : s.place = .unwinding
    · exact free already before
    · obtain ⟨e, effect, _, _, _, _, place, _⟩ := step_cases taken
      exact guard ⟨before, already, e, effect, place.symm.trans out⟩
  intro deadlocked
  have each := (staged run).2.1.handshake
  exact free deadlocked.1 (deadlocked.parked each)

/-- The thread of the exec monitor cannot be started: the process runs by then, and when its child has
ended the manager gets out of `~process_monitor`. -/
theorem unwinds_without_deadlock_started : ∃ ts s,
    Run (step fun _ => .ok (5, 0)) (init [["sleep"]] 1) ts s ∧ ¬ s.Deadlocked ∧
      ∃ t ∈ ts, t.before.place = .unwinding ∧ t.after.place = .threw ∧ t.after.monitor.workers.length = 1 := by
  obtain ⟨ts, s, run, test⟩ := run_of_trace_any (step fun _ => .ok (5, 0)) (init [["sleep"]] 1)
    ((launch [5]).take 23 ++ [.throws, .main true 0] ++ exits 0 ++ List.replicate 3 (.main true 0))
    (fun ts => ts.all (fun t => t.after.place ≠ .unwinding || t.before.world.objects.all (·.goWritten)) &&
      ts.any fun t => t.before.place = .unwinding ∧ t.after.place = .threw ∧ t.after.monitor.workers.length = 1) rfl
  obtain ⟨started, left⟩ := Bool.and_eq_true_iff.mp test
  obtain ⟨t, member, ended⟩ := List.any_eq_true.mp left
  refine ⟨ts, s, run, unwinds_without_deadlock run fun t member throws => ?_, t, member, of_decide_eq_true ended⟩
  obtain ⟨⟨k, o, _, atK, held, _⟩, _, e, effect, out⟩ := throws
  obtain ⟨e', effect', _, _, _, _, place, _⟩ := step_cases (run.transition member).1
  cases Option.some.inj (effect.symm.trans effect')
  have all := List.all_eq_true.mp started t member
  simp only [place, out, ne_eq, not_true_eq_false, decide_false, Bool.false_or] at all
  have isWritten := List.all_eq_true.mp all o (List.mem_of_getElem? atK)
  simp [held.1] at isWritten

/-- The exec monitor cannot be prepared: the manager waits in `~process_monitor` for a child that waits
for the manager. -/
theorem unwinding_deadlocks : ∃ ts s, Run (step fun _ => .ok (5, 0)) (init [["sleep"]] 1) ts s ∧
    s.Deadlocked ∧ s.Blocked fun _ => .ok (5, 0) := by
  obtain ⟨ts, s, run, _, test⟩ := run_of_exec_any (step fun _ => .ok (5, 0)) (init [["sleep"]] 1)
    ((launch [5]).take 17 ++ [.throws, .main true 0])
    (fun s => s.place = .unwinding ∧ s.monitor.owner = .destroying [0] ∧
      (s.monitor.workers[0]?.any fun t => !t.phase.isReady) ∧
      s.world.objects[0]?.any fun o => o.goBytes = 0 ∧ ⟨0, .goPipe, .writeEnd⟩ ∈ o.fds ∧
        o.child.any fun c => c.phase = .waitForParent [.read .goPipe]) rfl
  obtain ⟨place, owner, waits, parked⟩ := of_decide_eq_true test
  obtain ⟨t, atZero, waiting⟩ := (Option.any_eq_true _ _).mp waits
  obtain ⟨o, atObject, known⟩ := (Option.any_eq_true _ _).mp parked
  obtain ⟨empty, writable, reads⟩ := of_decide_eq_true known
  obtain ⟨c, atChild, phase⟩ := (Option.any_eq_true _ _).mp reads
  have notReady : t.phase.isReady = false := by simpa using waiting
  refine ⟨ts, s, run, ⟨place, 0, [], t, o, c, owner, atZero, notReady, atObject, atChild,
    of_decide_eq_true phase, empty, writable⟩, fun pipe2 pid => ?_⟩
  cases phase : t.phase with
  | ready result => simp [phase, WorkerPhase.isReady] at notReady
  | _ =>
    simp [step, effect, main, place, destroyMonitor, owner, apply, optionalStep, ProcessMonitor.step, atZero, phase]

end SimpleManager

end Aser
