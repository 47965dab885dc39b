import Aser.ExecManager.SimpleSteps

namespace Aser

open Library

namespace SimpleManager

/-- The child of process `i` was reaped. -/
def Reaped (s : SimpleManager) (i : Nat) : Prop :=
  ∃ o : SyncProcess, s.world.objects[i]? = some o ∧ o.Reaped

/-- `kill_process` is past its test, and the pid that it is about to signal may be anybody's. -/
def AimsAtReaped (s : SimpleManager) : Prop := ∃ i, s.place = .killing i ∧ s.Reaped i

/-- Worker `i` is in a `waitpid` that returns its child. -/
def Collects (answers : Nat → WaitResult) (s : SimpleManager) (i : Nat) : Prop :=
  ∃ (t : Worker) (o : SyncProcess) (pid : Pid) (status : Int), s.monitor.workers[i]? = some t ∧
    t.phase = .waiting ∧ s.world.objects[i]? = some o ∧ o.waiter = .waitpid ∧ answers i = .ok (pid, status)

/-- The clean-up tests a process whose child is reaped while `wait` has still to say so, or a worker
reaps a child that has passed the test and is about to be killed. -/
def Races (answers : Nat → WaitResult) (s : SimpleManager) (a : Action) : Prop :=
  (∃ (i : Nat) (o : SyncProcess) (pipe2 : Bool) (pid : Pid), a = .main pipe2 pid ∧ s.place = .cleaningUp i ∧
    s.world.objects[i]? = some o ∧ o.terminated = false ∧ o.Reaped) ∨
  ∃ i, a = .worker i ∧ s.place = .killing i ∧ s.Collects answers i

variable {answers : Nat → WaitResult} {s s' : SimpleManager} {a : Action}

/-- A step of another object leaves the child of process `i` as it is. -/
theorem reaped_of_world {w w' : SyncWorld} {j i : Nat} {act : SyncProcess.Action} {o' : SyncProcess}
    (taken : w.step (.object j act) = some w') (atI : w'.objects[i]? = some o') (reaped : o'.Reaped) :
    (∃ o : SyncProcess, w.objects[i]? = some o ∧ o.Reaped) ∨ i = j ∧ (act = .waitpid ∨ act = .parent) := by
  rcases SyncWorld.object_cases taken atI with ⟨rfl, o, atJ, moved⟩ | ⟨_, atI⟩
  · rcases SyncProcess.reaped_of_step reaped moved with before | byWait
    · exact .inl ⟨o, atJ, before⟩
    · exact .inr ⟨rfl, byWait.imp_right And.left⟩
  · exact .inl ⟨o', atI, reaped⟩

/-- A race is what lets the clean-up aim at a reaped child. -/
theorem aims_of_races (races : s.Races answers a) (taken : s.step answers a = some s') : s'.AimsAtReaped := by
  obtain ⟨e, effect, world, _, _, _, place, _⟩ := step_cases taken
  rcases races with ⟨i, o, pipe2, pid, rfl, atI, atO, running, reaped⟩ |
    ⟨i, rfl, atI, t, o, pid, status, atK, phase, atO, waiter, answer⟩
  · simp only [SimpleManager.effect, main, atI, atO, testTerminated, running, Option.some.injEq] at effect
    subst effect
    have same : s.world = s'.world := Option.some.inj world
    exact ⟨i, place, o, same ▸ atO, reaped⟩
  · obtain ⟨t', o', atK', atO', works⟩ := worker_cases effect
    cases Option.some.inj (atK.symm.trans atK')
    cases Option.some.inj (atO.symm.trans atO')
    have still := place.trans (works.place.1.trans atI)
    cases works with
    | collects =>
      obtain ⟨o₀, o₁, atO'', moved, same⟩ := SyncWorld.object_step world
      have within := (List.getElem?_eq_some_iff.mp atO'').1
      refine ⟨i, still, o₁, by rw [same, List.getElem?_set_self within], ?_⟩
      cases SyncProcess.change_of_step moved with
      | collects => exact ⟨_, rfl, rfl⟩
      | escapes fails => simp [SyncProcess.Action.fails] at fails
      | dies signal => simp at signal
    | fails _ _ failed => simp [answer] at failed
    | waits _ none => simp [waiter] at none
    | returns _ returning => simp [waiter] at returning
    | pushes collected => simp [phase] at collected
    | finishes leaving => simp [phase] at leaving

/-- And nothing else does. -/
theorem races_of_aims (spared : ¬ s.AimsAtReaped) (taken : s.step answers a = some s')
    (aims : s'.AimsAtReaped) : s.Races answers a := by
  obtain ⟨e, effect, world, _, _, _, place, _⟩ := step_cases taken
  obtain ⟨i, atI, o, atO, reaped⟩ := aims
  rw [place] at atI
  have same : e.world = none → s.world = s'.world := by
    intro rests
    rw [rests] at world
    exact Option.some.inj world
  have still : e.place = s.place → ∀ o : SyncProcess, s.world.objects[i]? = some o → ¬ o.Reaped := by
    intro rests o atO reaped
    exact spared ⟨i, rests ▸ atI, o, atO, reaped⟩
  cases a with
  | main pipe2 pid =>
    cases main_cases effect with
    | unwinds out => simp [atI, Place.unwound] at out
    | aims before atO' running =>
      cases atI
      cases Option.some.inj ((same rfl ▸ atO').symm.trans atO)
      exact .inl ⟨i, o, pipe2, pid, rfl, before, atO', running, reaped⟩
    | _ => simp at atI
  | throws =>
    rcases throws_cases effect with out | ⟨j, _, rfl⟩ | ⟨j, _, rfl⟩
    · simp [atI, Place.unwound] at out
    · simp at atI
    · simp at atI
  | execMonitor =>
    cases effect
    exact absurd reaped (still rfl o (same rfl ▸ atO))
  | worker k =>
    obtain ⟨t, q, atK, atQ, works⟩ := worker_cases effect
    have unmoved := still works.place.1
    have onlyHere : ∀ act, e.world = some (.object k act) → i = k ∧ (act = .waitpid ∨ act = .parent) := by
      intro act moves
      rw [moves] at world
      rcases reaped_of_world world atO reaped with ⟨q', atQ', before⟩ | here
      · exact absurd before (unmoved q' atQ')
      · exact here
    have here : s.place = .killing i := works.place.1 ▸ atI
    cases works with
    | collects phase waiter answer =>
      obtain ⟨rfl, _⟩ := onlyHere _ rfl
      exact .inr ⟨i, rfl, here, t, q, _, _, atK, phase, atQ, waiter, answer⟩
    | waits => simpa using onlyHere _ rfl
    | fails => simpa using onlyHere _ rfl
    | returns => simpa using onlyHere _ rfl
    | pushes => exact absurd reaped (unmoved o (same rfl ▸ atO))
    | finishes => exact absurd reaped (unmoved o (same rfl ▸ atO))
  | child j act =>
    obtain ⟨notParent, rfl⟩ := child_cases effect
    rcases reaped_of_world world atO reaped with ⟨q, atQ, before⟩ | ⟨_, rfl | rfl⟩
    · exact absurd before (still rfl q atQ)
    · simp [SyncProcess.Action.ofParent] at notParent
    · simp [SyncProcess.Action.ofParent] at notParent

/-- In every run the clean-up keeps off reaped children, between its test and its kill and when it
kills, if and only if no worker races with it. -/
theorem kill_spares_reaped_iff {benchs : List (List String)} {pgid : Pid}
    {ts : List (Transition SimpleManager Action)} (run : Run (step answers) (init benchs pgid) ts s) :
    ((∀ t ∈ ts, ¬ t.after.AimsAtReaped) ↔ ∀ t ∈ ts, ¬ t.before.Races answers t.action) ∧
      ((∀ t ∈ ts, ¬ t.before.Races answers t.action) →
        ∀ t ∈ ts, ∀ i pid, t.before.place = .killing i →
          t.after.signals = t.before.signals ++ [pid] → ¬ t.before.Reaped i) := by
  have exact : ∀ {s s' : SimpleManager} {a : Action}, True → ¬ s.AimsAtReaped → s.step answers a = some s' →
      (¬ s'.AimsAtReaped ↔ ¬ s.Races answers a) := fun _ spared taken =>
    ⟨fun spared' races => spared' (aims_of_races races taken), fun free aims => free (races_of_aims spared taken aims)⟩
  have atStart : ¬ (init benchs pgid).AimsAtReaped := by
    intro aims
    obtain ⟨i, ⟨⟩, _⟩ := aims
  refine ⟨Run.property_iff_guard (I := fun _ => True) (P := fun s => ¬ s.AimsAtReaped)
    (G := fun s a => ¬ s.Races answers a) (fun _ => trivial) atStart
    (fun known spared taken => exact known spared taken) run, ?_⟩
  intro free t member i pid here _ reaped
  obtain ⟨_, earlier, later, split, reached⟩ := run.transition member
  have spared := reached.invariant_of_guard (I := fun s => ¬ s.AimsAtReaped) (G := fun s a => ¬ s.Races answers a)
    atStart (fun spared free taken => (exact trivial spared taken).mpr free)
    (fun t' member' => free t' (by simp [split, member']))
  exact spared ⟨i, here, reaped⟩

/-- The clean-up skips or tests a process whose child was not reaped, and no worker acts meanwhile. -/
def unraced (t : Transition SimpleManager Action) : Bool :=
  match t.before.place, t.action with
  | .cleaningUp i, .main _ _ | .killing i, .main _ _ =>
    t.before.world.objects[i]?.all fun o => o.terminated || o.child.all (·.phase != .reaped)
  | .cleaningUp _, _ | .killing _, _ => false
  | _, _ => true

/-- Two benchmarks: the first ends, and the second is killed. -/
theorem kill_spares_reaped_iff_two : ∃ ts s,
    Run (step fun k => .ok (k + 5, 0)) (init [["sleep"], ["sleep"]] 1) ts s ∧
      (∀ t ∈ ts, ¬ t.after.AimsAtReaped) ∧ ∃ t ∈ ts, t.after.signals = [6] := by
  obtain ⟨ts, s, run, test⟩ := run_of_trace_any (step fun k => .ok (k + 5, 0)) (init [["sleep"], ["sleep"]] 1)
    (launch [5, 6] ++ exits 0 ++ [.main true 0, .main true 0, .main true 0, .execMonitor] ++
      List.replicate 5 (.main true 0))
    (fun ts => ts.all unraced && ts.any fun t => t.after.signals = [6]) (by decide +kernel)
  obtain ⟨alone, kills⟩ := Bool.and_eq_true_iff.mp test
  obtain ⟨t, member, signals⟩ := List.any_eq_true.mp kills
  refine ⟨ts, s, run, (kill_spares_reaped_iff run).1.mpr fun t member races => ?_, t, member, of_decide_eq_true signals⟩
  have free := List.all_eq_true.mp alone t member
  rcases races with ⟨i, o, pipe2, pid, action, place, atI, running, c, atChild, phase⟩ | ⟨i, action, place, _⟩
  · simp [unraced, action, place, atI, running, atChild, phase] at free
  · simp [unraced, action, place] at free

/-- The second child is reaped before the clean-up tests its process, and `wait` has still to say so:
the pid that is signalled belongs to nobody the manager knows. -/
theorem kill_of_reaped : ∃ ts s,
    Run (step fun k => .ok (k + 5, 0)) (init [["sleep"], ["sleep"]] 1) ts s ∧
      ∃ t ∈ ts, t.before.place = .killing 1 ∧ t.before.Reaped 1 ∧ t.after.signals = t.before.signals ++ [6] := by
  obtain ⟨ts, s, run, test⟩ := run_of_trace_any (step fun k => .ok (k + 5, 0)) (init [["sleep"], ["sleep"]] 1)
    (launch [5, 6] ++ exits 0 ++ [.main true 0, .main true 0, .main true 0, .execMonitor] ++
      List.replicate 3 (.main true 0) ++ [.child 1 .child, .child 1 (.execvp none), .child 1 (.childEnds 0),
        .worker 1, .worker 1, .main true 0, .main true 0])
    (fun ts => ts.any fun t => t.before.place = .killing 1 ∧ t.after.signals = t.before.signals ++ [6] ∧
      t.before.world.objects[1]?.any fun o => o.child.any (·.phase = .reaped)) (by decide +kernel)
  obtain ⟨t, member, here⟩ := List.any_eq_true.mp test
  obtain ⟨place, signals, reaped⟩ := of_decide_eq_true here
  obtain ⟨o, atI, reaped⟩ := (Option.any_eq_true _ _).mp reaped
  obtain ⟨c, atChild, phase⟩ := (Option.any_eq_true _ _).mp reaped
  exact ⟨ts, s, run, t, member, place, ⟨o, atI, c, atChild, of_decide_eq_true phase⟩, signals⟩

end SimpleManager

end Aser
