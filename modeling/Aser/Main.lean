import Aser.ExecManager.Configuration
import Aser.ExecManager.SimpleProgress
import Aser.ExecManager.SimpleWork

namespace Aser

open Library

namespace SimpleManager

/-- The processes are those of the first benchmarks, in their order. -/
def RunsBenchmarks (s : SimpleManager) : Prop :=
  s.world.Each fun i o => s.benchs[i]? = some o.args

variable {answers : Nat → WaitResult} {s s' : SimpleManager} {a : Action} {e : Effect}

/-- A process is made for the benchmark that the loop has come to. -/
theorem constructs_of_effect (effect : s.effect answers a = some e) {args : List String} {pipe2 : Bool}
    (atWorld : e.world = some (.construct args pipe2)) :
    ∃ i, s.place = .constructing i ∧ s.benchs[i]? = some args := by
  cases a with
  | main succeeds pid =>
    cases place : s.place with
    | constructing i =>
      simp only [SimpleManager.effect, main, place] at effect
      split at effect
      · rename_i args' atI
        cases effect
        cases atWorld
        exact ⟨i, rfl, atI⟩
      · cases effect
        simp at atWorld
    | _ => grind [SimpleManager.effect, main, testTerminated, destroyObject, destroyMonitor, waitForAnyNext]
  | throws => grind [SimpleManager.effect, throws]
  | execMonitor =>
    cases effect
    simp at atWorld
  | worker k =>
    obtain ⟨t, o, _, _, works⟩ := worker_cases effect
    cases works <;> simp at atWorld
  | child i b =>
    obtain ⟨_, rfl⟩ := child_cases effect
    simp at atWorld

theorem RunsBenchmarks.step (runs : s.RunsBenchmarks) (staged : s.place.unwound = false → s.Staged)
    (taken : s.step answers a = some s') : s'.RunsBenchmarks := by
  obtain ⟨e, effect, world, _, _, benchs, _⟩ := step_cases taken
  rw [RunsBenchmarks, benchs]
  rcases optionalStep_cases world with ⟨_, same⟩ | ⟨act, atWorld, moved⟩
  · exact same ▸ runs
  · rcases SyncWorld.step_cases moved with ⟨_, _, _, _, same⟩ | ⟨args, rfl, _, same⟩ | ⟨i, act, _, _, rfl, _⟩ |
    ⟨_, _, same⟩
    · exact same ▸ runs
    · obtain ⟨i, place, atI⟩ := constructs_of_effect effect atWorld
      have made := (staged (by rw [place]; rfl)).launches.made
      rw [place, Place.made] at made
      intro j q atJ
      rw [same] at atJ
      rcases getElem?_append_singleton atJ with old | ⟨rfl, rfl⟩
      · exact runs j q old
      · rw [made]
        exact atI
    · intro j q atJ
      rcases SyncWorld.object_cases moved atJ with ⟨rfl, o, atI, moved⟩ | ⟨_, old⟩
      · rw [SyncProcess.args_kept moved]
        exact runs j o atI
      · exact runs j q old
    · intro j q atJ
      simp only [same, List.getElem?_map, Option.map_eq_some_iff] at atJ
      obtain ⟨o, atI, rfl⟩ := atJ
      exact runs j o atI

theorem runs_benchmarks {benchs : List (List String)} {pgid : Pid} {ts : List (Transition SimpleManager Action)}
    (run : Run (step answers) (init benchs pgid) ts s) : s.RunsBenchmarks := by
  induction run with
  | start => exact SyncWorld.each_init pgid
  | next previous taken ih => exact ih.step (staged previous).2.2 taken

end SimpleManager

namespace Startup

/-- `main`, where it calls `start`, in a process of the group `pgid`. -/
def start (m : CreatedManager) (pgid : Pid) : SimpleManager := .init (m.benchs.map (·.args)) pgid

variable {τ : Type} [PropertyTree τ] {hardwareConcurrency : Nat} {managers : Factory τ CreatedManager} {t : τ}
  {m : CreatedManager} {pgid : Pid} {answers : Nat → WaitResult} {s : SimpleManager}
  {ts : List (Transition SimpleManager SimpleManager.Action)}

/-- The commands of a configuration, each split where its spaces are. -/
def commands (t : τ) : List (List String) :=
  (given (benchmarks t)).map fun elem => parseCmd (given (PropertyTree.getString elem.2 "cmd"))

/-- There is always a first word, if an empty one. -/
theorem nil_notMem_commands (t : τ) : [] ∉ commands t := by
  simp [commands, parseCmd]

theorem args_of_created (registered : Registered hardwareConcurrency managers)
    (accepted : newExecManager managers t = .ok m) : m.benchs.map (·.args) = commands t := by
  rw [newExecManager_eq registered] at accepted
  cases fault : firstFault (faults t) with
  | some e => simp [fault, checked] at accepted
  | none =>
    simp only [fault, checked, Except.ok.injEq] at accepted
    rw [← accepted, built, assignIds, commands]
    refine List.ext_getElem? fun i => ?_
    simp only [List.getElem?_map, List.getElem?_mapIdx, Option.map_map]
    rfl

/-- Whatever happens, the processes that the manager makes are those of the configuration: process `i` is to
execute the command of benchmark `i`, and when the first is started there is one for each. The length of the
configuration bounds what the manager does. -/
theorem runs_what_is_configured (registered : Registered hardwareConcurrency managers)
    (accepted : newExecManager managers t = .ok m) (run : Run (SimpleManager.step answers) (start m pgid) ts s) :
    (∀ (i : Nat) (o : SyncProcess), s.world.objects[i]? = some o → (commands t)[i]? = some o.args ∧ o.args ≠ []) ∧
    (s.place.unwound = false → s.place.launched = true → s.world.objects.map (·.args) = commands t) ∧
    ts.countP (fun t => !t.before.idles t.action) ≤ 50 * (commands t).length + 28 := by
  obtain ⟨benchs, _, staged⟩ := SimpleManager.staged run
  have runs := SimpleManager.runs_benchmarks run
  rw [SimpleManager.RunsBenchmarks, benchs, args_of_created registered accepted] at runs
  refine ⟨fun i o atI => ?_, fun inside launched => ?_, ?_⟩
  · refine ⟨runs i o atI, fun empty => ?_⟩
    exact nil_notMem_commands t (empty ▸ List.mem_of_getElem? (runs i o atI))
  · have all := ((staged inside).all launched).1
    rw [benchs, args_of_created registered accepted] at all
    refine List.ext_getElem? fun i => ?_
    rw [List.getElem?_map]
    cases atI : s.world.objects[i]? with
    | some o => exact (runs i o atI).symm
    | none =>
      have none := List.getElem?_eq_none_iff.mp atI
      exact (List.getElem?_eq_none_iff.mpr (by omega)).symm
  · have paid := SimpleManager.countP_add_work_le run
    rw [args_of_created registered accepted] at paid
    omega

/-- Two benchmarks, when both run. -/
theorem runs_what_is_configured_hopping : ∃ managers m ts s, Registered 4 managers ∧
    newExecManager managers hopping = .ok m ∧
      Run (SimpleManager.step fun k => .ok (k + 5, 0)) (start m 1) ts s ∧
        s.world.objects.map (·.args) = [["/usr/bin/env", "sleep", "5"], ["ls", "-l"]] := by
  obtain ⟨managers, registered⟩ := exists_registered WrittenTree 4
  have accepted : newExecManager managers hopping = .ok (built 4 hopping) := newExecManager_eq registered hopping
  have same : start (built 4 hopping) 1 = .init [["/usr/bin/env", "sleep", "5"], ["ls", "-l"]] 1 := rfl
  obtain ⟨ts, s, run, _, test⟩ := run_of_exec_any (SimpleManager.step fun k => .ok (k + 5, 0))
    (.init [["/usr/bin/env", "sleep", "5"], ["ls", "-l"]] 1) (SimpleManager.launch [5, 6])
    (fun s => s.place = .inWaitForAny) rfl
  have waits := of_decide_eq_true test
  rw [← same] at run
  refine ⟨managers, _, ts, s, registered, accepted, run, ?_⟩
  exact (runs_what_is_configured registered accepted run).2.1 (by rw [waits]; rfl) (by rw [waits]; rfl)

/-- The manager of a configuration none of whose calls fail never throws, and until it has come to its end it
goes on, unless the programs of all benchmarks run or there is no benchmark to wait for. -/
theorem configured_goes_on_iff (registered : Registered hardwareConcurrency managers)
    (accepted : newExecManager managers t = .ok m) (run : Run (SimpleManager.step answers) (start m pgid) ts s)
    (succeed : ∀ k < m.benchs.length, ∃ both, answers k = .ok both)
    (patient : ∀ t ∈ ts, t.before.Patient t.action) (truthful : s.Truthful answers) :
    s.place.unwound = false ∧ (s.place = .destroyed ∨ (s.Goes answers ↔ ¬ s.AwaitsPrograms ∧ ¬ s.AwaitsNothing)) := by
  refine SimpleManager.goes_on_iff run ?_ (by simpa using succeed) patient truthful
  rw [args_of_created registered accepted]
  exact nil_notMem_commands t

/-- One benchmark under a `simple` monitor. -/
def one : WrittenTree := configurationTree "simple" [("a", "sleep")]

/-- One benchmark, before its worker has called `wait`. -/
theorem configured_goes_on_iff_one : ∃ managers m ts s, Registered 4 managers ∧
    newExecManager managers one = .ok m ∧ Run (SimpleManager.step fun _ => .ok (5, 0)) (start m 1) ts s ∧
      s.place = .inWaitForAny ∧ s.Goes fun _ => .ok (5, 0) := by
  obtain ⟨managers, registered⟩ := exists_registered WrittenTree 4
  have accepted : newExecManager managers one = .ok (built 4 one) := newExecManager_eq registered one
  have same : start (built 4 one) 1 = .init [["sleep"]] 1 := rfl
  obtain ⟨ts, s, run, labels, test⟩ := run_of_exec_any (SimpleManager.step fun _ => .ok (5, 0)) (.init [["sleep"]] 1)
    (SimpleManager.launch [5])
    (fun s => s.place = .inWaitForAny ∧ (s.world.objects[0]?).map SyncProcess.waiter = some .none ∧
      ∀ o ∈ s.world.objects, o.child.all Child.running = true) rfl
  obtain ⟨waits, free, running⟩ := of_decide_eq_true test
  have benchs := (SimpleManager.staged run).1
  rw [← same] at run
  have counted : ∀ a ∈ SimpleManager.launch [5], a ≠ .execMonitor ∧ (SimpleManager.init [] 1).goesOn a = true := by
    decide
  have patient : ∀ t ∈ ts, t.before.Patient t.action := by
    intro t member
    obtain ⟨other, counts⟩ := counted _ (labels ▸ List.mem_map_of_mem member)
    refine SimpleManager.patient_of_goesOn ?_
    cases action : t.action with
    | execMonitor => exact absurd action other
    | _ => exact (congrArg (SimpleManager.init [] 1).goesOn action).symm.trans counts
  have truthful : s.Truthful fun _ => .ok (5, 0) := by
    intro k o c status atK atChild ended
    have runs := running o (List.mem_of_getElem? atK)
    simp [atChild, Child.running, ended] at runs
  refine ⟨managers, _, ts, s, registered, accepted, run, waits, ?_⟩
  have goesOn := configured_goes_on_iff registered accepted run (fun _ _ => ⟨_, rfl⟩) patient truthful
  rcases goesOn.2 with destroyed | goes
  · simp [waits] at destroyed
  · refine goes.mpr ⟨fun awaits => ?_, fun nothing => by simp [SimpleManager.AwaitsNothing, benchs] at nothing⟩
    obtain ⟨_, o, _, _, _, atO, waiter, _⟩ := awaits.2.2 0 (by rw [benchs]; decide)
    simp [atO, waiter] at free

end Startup

end Aser
