import Aser.ExecManager.SimpleCleanUp
import Aser.Util.SyncDescriptors
import Aser.Util.SyncProgress

namespace Aser

open Library

/-- How far the manager has got with one of its processes. -/
inductive Stage
  | constructed
  | preparing
  | prepared
  | starting
  | started
  | destroying
  | destroyed
  deriving DecidableEq

/-- What that says about the object. -/
def Stage.Holds (o : SyncProcess) : Stage → Prop
  | .constructed => o.started = false ∧ o.goWritten = false ∧ o.call = .none
  | .preparing => o.started = true ∧ o.goWritten = false ∧ ∃ todo, o.call = .prepare todo
  | .prepared => o.started = true ∧ o.goWritten = false ∧ o.call = .none
  | .starting => o.started = true ∧ ∃ todo, o.call = .start todo ∧ todo <:+ SyncOp.start ∧
      (.write .goPipe ∈ todo ↔ o.goWritten = false)
  | .started => o.started = true ∧ o.goWritten = true ∧ o.call = .none
  | .destroying => o.started = true ∧ o.goWritten = true ∧
      (o.call = .none ∨ (∃ todo, o.call = .destroyPipes todo) ∨ o.call = .destroyed)
  | .destroyed => o.started = true ∧ o.goWritten = true ∧ o.call = .destroyed

namespace Place

/-- How far it has got with process `j` when its thread stands here. -/
def stage (j : Nat) : Place → Stage
  | .callingPrepare i => if j = i then .constructed else .prepared
  | .inPrepare i => if j = i then .preparing else .prepared
  | .initializing | .constructing _ | .notifying _ | .adding _ | .preparingMonitor => .prepared
  | .callingStart i => if j < i then .started else .prepared
  | .inStart i => if j < i then .started else if j = i then .starting else .prepared
  | .destroying i => if j < i then .destroyed else if j = i then .destroying else .started
  | .destroyed => .destroyed
  | _ => .started

/-- How many of `n` processes the clean-up has dealt with. -/
def cleaned (n : Nat) : Place → Nat
  | .cleaningUp i | .killing i => i
  | .leaving | .returned | .destroying _ | .destroyed => n
  | _ => 0

/-- What has become of the exec monitor. -/
def Tends (m : ExecMonitor) : Place → Prop
  | .initializing => m.initialized = false ∧ m.thread = .notStarted
  | .callingWaitForAny | .inWaitForAny | .ending | .joining =>
    m.initialized = true ∧ m.thread ≠ .notStarted ∧ m.thread ≠ .joined
  | .finalizing => m.initialized = true
  | .constructing _ | .callingPrepare _ | .inPrepare _ | .notifying _ | .adding _ | .preparingMonitor
  | .callingStart _ | .inStart _ | .startingMonitor => m.initialized = true ∧ m.thread = .notStarted
  | _ => True

end Place

namespace SyncProcess

variable {v : View} {o o' : SyncProcess} {a : Action}

theorem holds_of_frame {stage : Stage} (holds : stage.Holds o) (spares : a.sparesCall = true)
    (taken : o.step v a = some o') : stage.Holds o' := by
  obtain ⟨call, written, pid⟩ := call_frame spares taken
  unfold Stage.Holds at holds ⊢
  rw [SyncProcess.started, call, written, pid]
  exact holds

theorem holds_prepare {pid : Pid} (holds : Stage.constructed.Holds o) (noPid : v.mayFork (-1) = false)
    (taken : o.step v (.prepare true (.child pid)) = some o') : Stage.preparing.Holds o' := by
  have started := (fork_starts noPid taken).2
  cases change_of_step taken with
  | refused refuses => exact absurd rfl (refuses pid rfl)
  | forked => exact ⟨started, holds.2.1, _, rfl⟩
  | escapes fails => simp [Action.fails] at fails
  | dies signal => simp at signal

/-- The parent goes on in its call when the system call does not fail. -/
theorem parent_goes_on (h : o.Handshake) {op : SyncOp} {call : ParentCall} (next : o.call.next = some (op, call))
    (succeeds : ∀ e, o.perform v o.fds op ≠ some (.error e)) (taken : o.step v .parent = some o') :
    o'.call = call ∧ o'.goWritten = (o.goWritten || op == .write .goPipe) ∧ o'.pid = o.pid := by
  simp only [SyncProcess.step, parentStep, next] at taken
  obtain ⟨result, done, same⟩ := Option.map_eq_some_iff.mp taken
  cases result with
  | error e => exact absurd done (succeeds e)
  | ok both =>
    obtain ⟨fds, o₁⟩ := both
    obtain ⟨ready, rfl⟩ := perform_parent done (h.calls.next next).2.1
    exact same ▸ ⟨rfl, rfl, rfl⟩

theorem holds_prepares {op : SyncOp} {todo : List SyncOp} (holds : Stage.preparing.Holds o)
    (inStep : InStep v.index o) (h : o.Handshake) (call : o.call = .prepare (op :: todo))
    (taken : o.step v .parent = some o') : Stage.preparing.Holds o' := by
  have next : o.call.next = some (op, .prepare todo) := by rw [call, ParentCall.next]
  obtain ⟨call', written, pid⟩ := parent_goes_on h next (fun e => inStep.prepare_ok call) taken
  have noWrite : op ≠ .write .goPipe := by
    rcases waitForChild_suffix (inStep.early _ call).2 with ⟨rfl, _⟩ | ⟨_, _, rfl, _⟩
    · simp
    · simp
  refine ⟨by rw [SyncProcess.started, pid]; exact holds.1, ?_, todo, call'⟩
  rw [written, holds.2.1, Bool.false_or, beq_eq_false_iff_ne]
  exact noWrite

theorem holds_prepared (holds : Stage.preparing.Holds o) (call : o.call = .prepare [])
    (taken : o.step v .parent = some o') : Stage.prepared.Holds o' := by
  simp only [SyncProcess.step, parentStep, call, ParentCall.next, Option.some.injEq] at taken
  exact taken ▸ ⟨holds.1, holds.2.1, rfl⟩

theorem holds_start (holds : Stage.prepared.Holds o) (taken : o.step v .start = some o') :
    Stage.starting.Holds o' := by
  simp only [SyncProcess.step, Option.ite_none_right_eq_some, Option.some.injEq] at taken
  refine taken.2 ▸ ⟨holds.1, _, rfl, List.suffix_refl _, ?_⟩
  simp [SyncOp.start, holds.2.1]

/-- The byte is written first, and then `start` is past it. -/
theorem holds_starts {op : SyncOp} {todo : List SyncOp} (holds : Stage.starting.Holds o) (h : o.Handshake)
    (writable : o.goWritten = false → ⟨v.index, .goPipe, .writeEnd⟩ ∈ o.fds) (call : o.call = .start (op :: todo))
    (taken : o.step v .parent = some o') : Stage.starting.Holds o' := by
  have next : o.call.next = some (op, .start todo) := by rw [call, ParentCall.next]
  obtain ⟨started, whole, call₀, suffix, first⟩ := holds
  cases call.symm.trans call₀
  simp only [SyncOp.start, List.suffix_cons_iff, List.cons.injEq, List.suffix_nil, reduceCtorEq, or_false] at suffix
  rcases suffix with ⟨rfl, rfl⟩ | ⟨rfl, rfl⟩
  · have succeeds : ∀ e, o.perform v o.fds (.write .goPipe) ≠ some (.error e) := by
      intro e failed
      rcases perform_error failed with ⟨pipe, ⟨⟩, closed⟩ | ⟨pipe, ⟨⟩, _⟩
      exact closed (writable (first.mp List.mem_cons_self))
    obtain ⟨call', written, pid⟩ := parent_goes_on h next succeeds taken
    refine ⟨by rw [SyncProcess.started, pid]; exact started, _, call', by simp [SyncOp.start], ?_⟩
    simp [written]
  · obtain ⟨call', written, pid⟩ := parent_goes_on h next (by simp [perform]) taken
    refine ⟨by rw [SyncProcess.started, pid]; exact started, _, call', by simp [SyncOp.start], ?_⟩
    simpa [written] using first

theorem holds_started (holds : Stage.starting.Holds o) (call : o.call = .start [])
    (taken : o.step v .parent = some o') : Stage.started.Holds o' := by
  obtain ⟨started, todo, call₀, _, first⟩ := holds
  cases call.symm.trans call₀
  simp only [SyncProcess.step, parentStep, call, ParentCall.next, Option.some.injEq] at taken
  exact taken ▸ ⟨started, by simpa using first, rfl⟩

theorem holds_destroy (holds : Stage.destroying.Holds o) (taken : o.step v .destroy = some o') :
    Stage.destroying.Holds o' := by
  simp only [SyncProcess.step, Option.ite_none_right_eq_some, Option.some.injEq] at taken
  exact taken.2 ▸ ⟨holds.1, holds.2.1, .inr (.inl ⟨_, rfl⟩)⟩

/-- The destructor of a process that has terminated closes the pipes and is done. -/
theorem holds_destroys (holds : Stage.destroying.Holds o) (h : o.Handshake) (terminated : o.terminated = true)
    (taken : o.step v .parent = some o') : Stage.destroying.Holds o' := by
  obtain ⟨started, written, idle | ⟨todo, call⟩ | gone⟩ := holds
  · simp [SyncProcess.step, parentStep, idle, ParentCall.next] at taken
  · cases todo with
    | nil =>
      simp only [SyncProcess.step, parentStep, call, ParentCall.next, terminated, Bool.not_true, Bool.and_false,
        Bool.false_eq_true, if_false, Option.some.injEq] at taken
      exact taken ▸ ⟨started, written, .inr (.inr rfl)⟩
    | cons op todo =>
      have next : o.call.next = some (op, .destroyPipes todo) := by rw [call, ParentCall.next]
      have succeeds : ∀ e, o.perform v o.fds op ≠ some (.error e) := by
        intro e failed
        have there := alive_of_failed h next failed
        simp [alive, call, ParentCall.alive] at there
      obtain ⟨call', written', pid⟩ := parent_goes_on h next succeeds taken
      refine ⟨by rw [SyncProcess.started, pid]; exact started, by simp [written', written], .inr (.inl ⟨todo, call'⟩)⟩
  · simp [SyncProcess.step, parentStep, gone, ParentCall.next] at taken

theorem dead_of_kill (h : o.Handshake) (started : o.started = true) (taken : o.step v .kill = some o') : o'.Dead := by
  obtain ⟨c, atChild⟩ := Option.isSome_iff_exists.mp (h.forked.symm.trans started)
  simp only [SyncProcess.step, Option.ite_none_right_eq_some, Option.some.injEq] at taken
  exact taken.2 ▸ ⟨c.dies sigkilled, by rw [atChild, Option.map_some], c.running_dies sigkilled⟩

end SyncProcess

/-- What the owner of a monitor is left with when it destroys it. -/
def ProcessMonitor.Leaves (m : ProcessMonitor) : Prop :=
  match m.owner with
  | .idle | .destroyed => True
  | .destroying left => ∀ k ∈ left, k < m.workers.length
  | _ => False

theorem ProcessMonitor.Leaves.destroy {answers : Nat → WaitResult} {m m' : ProcessMonitor} {a : ProcessMonitor.Action}
    (leaves : m.Leaves) (known : m.Tracks answers) (gone : a = .destroy ∨ a = .destroyNext)
    (taken : m.step answers a = some m') : m'.Leaves := by
  cases ProcessMonitor.change_of_step taken with
  | destroys =>
    intro k member
    obtain ⟨⟨pid, _⟩, entry, rfl⟩ := List.mem_map.mp member
    exact ProcessMonitor.pidOf_lt ((known.status pid _).mp (OrderedMap.find?_eq_some.mpr entry)).1
  | drops destroying =>
    rw [Leaves, destroying] at leaves
    exact fun k member => leaves k (List.mem_cons_of_mem _ member)
  | destroyed => exact trivial
  | _ => simp at gone

/-- The thread is started before it makes a step, and not joined after one. -/
theorem ExecMonitor.thread_phase {isOver : Bool} {m m' : ExecMonitor} (taken : m.threadStep isOver = some m') :
    m'.initialized = m.initialized ∧ m.thread ≠ .notStarted ∧ m'.thread ≠ .notStarted ∧ m'.thread ≠ .joined := by
  unfold threadStep at taken
  split at taken
  · rename_i testing
    cases taken
    refine ⟨rfl, by simp [testing], ?_⟩
    cases isOver <;> simp
  · rename_i looping
    cases taken
    simp [looping]
  · rename_i processing
    split at taken
    · cases taken
      simp [processing]
    · cases taken
      simp [processing]
  · simp at taken
  · simp at taken
  · simp at taken

theorem Place.Tends.thread {p : Place} {isOver : Bool} {m m' : ExecMonitor} (tends : p.Tends m)
    (taken : m.threadStep isOver = some m') : p.Tends m' := by
  obtain ⟨initialized, running, started, unjoined⟩ := ExecMonitor.thread_phase taken
  cases p with
  | callingWaitForAny | inWaitForAny | ending | joining => exact ⟨initialized.trans tends.1, started, unjoined⟩
  | finalizing => exact initialized.trans tends
  | initializing | constructing | callingPrepare | inPrepare | notifying | adding | preparingMonitor | callingStart
  | inStart | startingMonitor => exact absurd tends.2 running
  | _ => exact trivial

namespace SimpleManager

/-- No call fails in the manager, and no child ends or fails before it was told to go. -/
def Patient (s : SimpleManager) : Action → Prop
  | .main pipe2 _ => pipe2 = true
  | .throws => False
  | .execMonitor | .worker _ => True
  | .child i act => ∀ o : SyncProcess, s.world.objects[i]? = some o → o.Patient act

/-- Where everything stands, by where the thread of the manager stands. -/
structure Proceeds (s : SimpleManager) : Prop where
  alive : s.world.alive = true
  inStep : s.world.Each SyncProcess.InStep
  accounted : s.world.Each fun _ o => o.Accounted
  knows : s.world.Each fun _ o => o.KnowsChild
  distinct : s.world.Distinct
  stages : s.world.Each fun j o => (s.place.stage j).Holds o
  dead : ∀ (j : Nat) (o : SyncProcess), s.world.objects[j]? = some o → j < s.place.cleaned s.benchs.length → o.Dead
  tends : s.place.Tends s.execMonitor
  ended : s.place = .joining → s.executionEnded = true
  leaving : s.place = .leaving → s.monitor.Leaves
  there : ∀ i, s.place = .inStart i ∨ s.place = .killing i → i < s.world.objects.length

variable {answers : Nat → WaitResult} {s s' : SimpleManager} {a : Action} {e : Effect}

theorem proceeds_init (benchs : List (List String)) (pgid : Pid) : (init benchs pgid).Proceeds where
  alive := rfl
  inStep := SyncWorld.each_init pgid
  accounted := SyncWorld.each_init pgid
  knows := SyncWorld.each_init pgid
  distinct := by simp [init, SyncWorld.init, SyncWorld.Distinct]
  stages := SyncWorld.each_init pgid
  dead := by simp [init, SyncWorld.init]
  tends := ⟨rfl, rfl⟩
  ended := by simp [init]
  leaving := by simp [init]
  there := by simp [init]

/-- The loops over the processes end when there are no more. -/
theorem main_exits {pipe2 : Bool} {pid : Pid} (effect : s.main pipe2 pid = some e) :
    (∀ i, s.place = .callingStart i → e.place = .startingMonitor → s.world.objects.length ≤ i) ∧
    (∀ i, s.place = .cleaningUp i → e.place = .leaving → s.world.objects.length ≤ i) ∧
    (∀ i, s.place = .destroying i → e.place = .destroyed → s.world.objects.length ≤ i) ∧
    ∀ i, s.place = .destroying i → e.place = .destroying (i + 1) → ∃ o : SyncProcess,
      s.world.objects[i]? = some o ∧ o.call = .destroyed := by
  refine ⟨fun i place out => ?_, fun i place out => ?_, fun i place out => ?_, fun i place out => ?_⟩
  · simp only [main, place] at effect
    split at effect
    · cases effect
      cases out
    · rename_i none
      exact List.getElem?_eq_none_iff.mp none
  · simp only [main, place] at effect
    split at effect
    · cases effect
      simp only [testTerminated] at out
      split at out <;> cases out
    · rename_i none
      exact List.getElem?_eq_none_iff.mp none
  · simp only [main, place] at effect
    split at effect
    · cases effect
      simp only [destroyObject] at out
      split at out <;> cases out
    · rename_i none
      exact List.getElem?_eq_none_iff.mp none
  · simp only [main, place] at effect
    split at effect
    · rename_i o atI
      cases effect
      simp only [destroyObject] at out
      split at out
      · simp at out
      · rename_i gone
        exact ⟨o, atI, gone⟩
      · simp at out
    · cases effect
      cases out

/-- What happens in the world is patient if what the manager does is. -/
theorem Proceeds.world_patient (h : s.Proceeds) (patient : s.Patient a) (effect : s.effect answers a = some e)
    (stays : e.place.unwound = false) {act : SyncWorld.Action} (atWorld : e.world = some act) :
    s.world.Patient act := by
  cases a with
  | main pipe2 pid =>
    cases main_cases effect with
    | unwinds out => simp [out] at stays
    | constructs =>
      cases atWorld
      exact rfl
    | kills before =>
      cases atWorld
      intro o atI
      have started := h.stages _ o atI
      rw [before] at started
      exact ⟨by simp, fun _ => started.2.1⟩
    | prepares | prepareGoes | prepareReturns | callsStart | startGoes | startReturns | destroys | destroyGoes =>
      cases atWorld
      exact fun o _ => ⟨by simp, by simp [SyncProcess.Action.fails]⟩
    | _ => simp at atWorld
  | throws => exact patient.elim
  | execMonitor =>
    cases effect
    simp at atWorld
  | worker k =>
    obtain ⟨t, o, _, _, works⟩ := worker_cases effect
    cases works with
    | waits | collects | fails | returns =>
      cases atWorld
      exact fun o _ => ⟨by simp, by simp [SyncProcess.Action.fails]⟩
    | pushes | finishes => simp at atWorld
  | child i b =>
    obtain ⟨_, rfl⟩ := child_cases effect
    cases atWorld
    exact patient

/-- The processes go on with the thread of the manager: one of them makes its step with it, the others
stay where they are. -/
theorem Proceeds.stages_of_object (h : s.Proceeds) {i : Nat} {act : SyncProcess.Action}
    (world : s.world.step (.object i act) = some s'.world)
    (mine : ∀ o o' : SyncProcess, s.world.objects[i]? = some o → (s.place.stage i).Holds o →
      o.step (s.world.view i) act = some o' → (s'.place.stage i).Holds o')
    (others : ∀ j, j ≠ i → s'.place.stage j = s.place.stage j) :
    s'.world.Each fun j o => (s'.place.stage j).Holds o := by
  intro j q atJ
  rcases SyncWorld.object_cases world atJ with ⟨rfl, o, atI, moved⟩ | ⟨other, old⟩
  · exact mine o q atI (h.stages j o atI) moved
  · rw [others j other]
    exact h.stages j q old

theorem Proceeds.stages_of_main (h : s.Proceeds) (attends : s.Attends answers) (sound : s.Sound answers)
    (staged : s.Staged) {pipe2 : Bool} {pid : Pid} (effect : s.main pipe2 pid = some e) (stays : e.place.unwound = false)
    (world : optionalStep SyncWorld.step s.world e.world = some s'.world) (place : s'.place = e.place) :
    s'.world.Each fun j o => (s'.place.stage j).Holds o := by
  have exits := main_exits effect
  have rests : s.world = s'.world → (∀ j o, s.world.objects[j]? = some o → (s.place.stage j).Holds o →
      (s'.place.stage j).Holds o) → s'.world.Each fun j o => (s'.place.stage j).Holds o := by
    intro same holds j o atJ
    rw [← same] at atJ
    exact holds j o atJ (h.stages j o atJ)
  cases main_cases effect with
  | unwinds out => simp [out] at stays
  | initializes before | constructed before | notifies before | adds before | added before | preparesMonitor before
  | startsMonitor before | callsWaitForAny before | pops before | gets before | ends before | joins before
  | finalizes before | skips before | aims before | cleaned before | destroysMonitor before | left before =>
    refine rests (Option.some.inj world) fun j o _ holds => ?_
    rw [before] at holds
    rw [place]
    simpa [Place.stage] using holds
  | startedAll before =>
    refine rests (Option.some.inj world) fun j o atJ holds => ?_
    have all := exits.1 _ before rfl
    have within := (List.getElem?_eq_some_iff.mp atJ).1
    rw [before, Place.stage, if_pos (by omega)] at holds
    exact place ▸ holds
  | returns before =>
    refine rests (Option.some.inj world) fun j o atJ holds => ?_
    rw [before] at holds
    rw [place, Place.stage, if_neg (Nat.not_lt_zero j)]
    split
    · exact ⟨holds.1, holds.2.1, .inl holds.2.2⟩
    · exact holds
  | @objectDestroyed i before =>
    refine rests (Option.some.inj world) fun j o atJ holds => ?_
    obtain ⟨gone, atI, destroyed⟩ := exits.2.2.2 _ before rfl
    rw [before] at holds
    rw [place]
    rcases Nat.lt_trichotomy j i with earlier | rfl | later
    · rw [Place.stage, if_pos earlier] at holds
      rw [Place.stage, if_pos (by omega)]
      exact holds
    · cases Option.some.inj (atI.symm.trans atJ)
      rw [Place.stage, if_neg (Nat.lt_irrefl j), if_pos rfl] at holds
      rw [Place.stage, if_pos (Nat.lt_succ_self j)]
      exact ⟨holds.1, holds.2.1, destroyed⟩
    · rw [Place.stage, if_neg (by omega), if_neg (by omega)] at holds
      rw [Place.stage, if_neg (by omega)]
      split
      · exact ⟨holds.1, holds.2.1, .inl holds.2.2⟩
      · exact holds
  | allDestroyed before =>
    refine rests (Option.some.inj world) fun j o atJ holds => ?_
    have all := exits.2.2.1 _ before rfl
    have within := (List.getElem?_eq_some_iff.mp atJ).1
    rw [before, Place.stage, if_pos (by omega)] at holds
    exact place ▸ holds
  | @constructs i args before atI nonempty =>
    have made := staged.launches.made
    rw [before, Place.made] at made
    have constructs : s.world.step (.construct args true) = some s'.world := world
    rcases SyncWorld.step_cases constructs with ⟨_, _, ⟨⟩, throws, same⟩ | ⟨_, ⟨⟩, _, same⟩ | ⟨_, _, _, _, ⟨⟩, _⟩ | ⟨⟨⟩, _⟩
    · exact absurd throws (by simp [nonempty])
    · intro j o atJ
      rw [same] at atJ
      rw [place, Place.stage]
      rcases getElem?_append_singleton atJ with old | ⟨rfl, rfl⟩
      · have within := (List.getElem?_eq_some_iff.mp old).1
        have holds := h.stages j o old
        rw [before] at holds
        rw [if_neg (by omega)]
        exact holds
      · rw [if_pos made]
        exact ⟨rfl, rfl, rfl⟩
  | prepares before =>
    refine h.stages_of_object world (fun o o' _ holds moved => ?_) fun j other => ?_
    · rw [before, Place.stage, if_pos rfl] at holds
      rw [place, Place.stage, if_pos rfl]
      exact SyncProcess.holds_prepare holds s.world.mayFork_neg moved
    · simp [before, place, Place.stage, other]
  | @prepareGoes i o op todo before atI call =>
    refine h.stages_of_object world (fun o₁ o' atI' holds moved => ?_) fun j other => ?_
    · cases Option.some.inj (atI.symm.trans atI')
      rw [before, Place.stage, if_pos rfl] at holds
      rw [place, Place.stage, if_pos rfl]
      exact SyncProcess.holds_prepares (v := s.world.view i) holds (h.inStep i o atI) (sound.handshake i o atI) call
        moved
    · simp [before, place, Place.stage]
  | @prepareReturns i o before atI call =>
    refine h.stages_of_object world (fun o₁ o' atI' holds moved => ?_) fun j other => ?_
    · cases Option.some.inj (atI.symm.trans atI')
      rw [before, Place.stage, if_pos rfl] at holds
      rw [place]
      exact SyncProcess.holds_prepared holds call moved
    · simp [before, place, Place.stage, other]
  | callsStart before =>
    refine h.stages_of_object world (fun o o' _ holds moved => ?_) fun j other => ?_
    · rw [before, Place.stage, if_neg (Nat.lt_irrefl _)] at holds
      rw [place, Place.stage, if_neg (Nat.lt_irrefl _), if_pos rfl]
      exact SyncProcess.holds_start holds moved
    · simp [before, place, Place.stage, other]
  | @startGoes i o op todo before atI call =>
    refine h.stages_of_object world (fun o₁ o' atI' holds moved => ?_) fun j other => ?_
    · cases Option.some.inj (atI.symm.trans atI')
      rw [before, Place.stage, if_neg (Nat.lt_irrefl _), if_pos rfl] at holds
      rw [place, Place.stage, if_neg (Nat.lt_irrefl _), if_pos rfl]
      refine SyncProcess.holds_starts (v := s.world.view i) holds (sound.handshake i o atI) (fun unwritten => ?_) call
        moved
      obtain ⟨c, atChild⟩ := Option.isSome_iff_exists.mp ((sound.handshake i o atI).forked.symm.trans holds.1)
      obtain ⟨readable, left, phase, more⟩ := (h.inStep i o atI).waits unwritten c atChild
      exact (attends.holding i o atI).writable ⟨unwritten, c, left, atChild, phase, more⟩ c atChild readable
    · simp [before, place, Place.stage]
  | @startReturns i o before atI call =>
    refine h.stages_of_object world (fun o₁ o' atI' holds moved => ?_) fun j other => ?_
    · cases Option.some.inj (atI.symm.trans atI')
      rw [before, Place.stage, if_neg (Nat.lt_irrefl _), if_pos rfl] at holds
      rw [place, Place.stage, if_pos (Nat.lt_succ_self _)]
      exact SyncProcess.holds_started holds call moved
    · rw [before, place, Place.stage, Place.stage, if_neg (c := j = i) other]
      by_cases earlier : j < i
      · rw [if_pos earlier, if_pos (by omega)]
      · rw [if_neg earlier, if_neg (by omega)]
  | kills before =>
    refine h.stages_of_object world (fun o o' _ holds moved => ?_) fun j other => ?_
    · rw [before] at holds
      rw [place]
      exact SyncProcess.holds_of_frame holds rfl moved
    · rw [before, place]
      rfl
  | @destroys i before =>
    refine h.stages_of_object world (fun o o' _ holds moved => ?_) fun j other => ?_
    · rw [before, Place.stage, if_neg (Nat.lt_irrefl _), if_pos rfl] at holds
      rw [place, Place.stage, if_neg (Nat.lt_irrefl _), if_pos rfl]
      exact SyncProcess.holds_destroy holds moved
    · rw [before, place]
  | @destroyGoes i before =>
    refine h.stages_of_object world (fun o o' atI holds moved => ?_) fun j other => ?_
    · rw [before, Place.stage, if_neg (Nat.lt_irrefl _), if_pos rfl] at holds
      rw [place, Place.stage, if_neg (Nat.lt_irrefl _), if_pos rfl]
      have settled := attends.settled sound staged (by rw [before]; rfl) atI
      exact SyncProcess.holds_destroys holds (sound.handshake i o atI) settled.2 moved
    · rw [before, place]

theorem Proceeds.stages_step (h : s.Proceeds) (attends : s.Attends answers) (sound : s.Sound answers)
    (staged : s.Staged) (patient : s.Patient a) (effect : s.effect answers a = some e) (stays : e.place.unwound = false)
    (world : optionalStep SyncWorld.step s.world e.world = some s'.world) (place : s'.place = e.place) :
    s'.world.Each fun j o => (s'.place.stage j).Holds o := by
  have frame : ∀ i act, act.sparesCall = true → e.world = some (.object i act) → e.place = s.place →
      s'.world.Each fun j o => (s'.place.stage j).Holds o := by
    intro i act spares atWorld same
    rw [atWorld] at world
    refine h.stages_of_object world (fun o o' _ holds moved => ?_) fun j _ => by rw [place, same]
    rw [place, same]
    exact SyncProcess.holds_of_frame holds spares moved
  have rests : e.world = none → (∀ j, e.place.stage j = s.place.stage j) →
      s'.world.Each fun j o => (s'.place.stage j).Holds o := by
    intro nothing same j o atJ
    rw [nothing] at world
    have rested : s.world = s'.world := Option.some.inj world
    rw [place, same]
    exact h.stages j o (rested ▸ atJ)
  cases a with
  | main pipe2 pid => exact h.stages_of_main attends sound staged effect stays world place
  | throws =>
    exact patient.elim
  | execMonitor =>
    cases effect
    exact rests rfl fun _ => rfl
  | worker k =>
    obtain ⟨t, o, _, _, works⟩ := worker_cases effect
    cases works with
    | waits | collects | fails | returns => exact frame k _ rfl rfl rfl
    | pushes | finishes => exact rests rfl fun _ => rfl
  | child i act =>
    obtain ⟨notParent, rfl⟩ := child_cases effect
    refine frame i act ?_ rfl rfl
    cases act with
    | child | childThrows | execvp | childEnds => rfl
    | _ => simp [SyncProcess.Action.ofParent] at notParent

/-- The clean-up leaves no process running behind it. -/
theorem Proceeds.dead_step (h : s.Proceeds) (sound : s.Sound answers) (effect : s.effect answers a = some e)
    (stays : e.place.unwound = false) (world : optionalStep SyncWorld.step s.world e.world = some s'.world)
    (patient : s.Patient a) (benchs : s'.benchs = s.benchs) (place : s'.place = e.place) :
    ∀ (j : Nat) (o : SyncProcess), s'.world.objects[j]? = some o → j < s'.place.cleaned s'.benchs.length →
      o.Dead := by
  rw [place, benchs]
  have kept : (∀ act, e.world = some act → ∃ i b, act = .object i b) → ∀ (j : Nat) (q : SyncProcess),
      s'.world.objects[j]? = some q → j < s.place.cleaned s.benchs.length → q.Dead := by
    intro object j q atJ within
    rcases optionalStep_cases world with ⟨_, same⟩ | ⟨act, atWorld, moved⟩
    · exact h.dead j q (same ▸ atJ) within
    · obtain ⟨i, b, rfl⟩ := object act atWorld
      rcases SyncWorld.object_cases moved atJ with ⟨rfl, o, atI, moved⟩ | ⟨_, old⟩
      · exact (h.dead j o atI within).step (sound.handshake j o atI) moved
      · exact h.dead j q old within
  cases a with
  | main pipe2 pid =>
    have exits := main_exits effect
    cases main_cases effect with
    | unwinds out => simp [out] at stays
    | @skips i o before atI terminated =>
      intro j q atJ within
      rw [before] at kept
      rcases Nat.lt_succ_iff_lt_or_eq.mp within with earlier | rfl
      · exact kept (by simp) j q atJ earlier
      · have same : s.world = s'.world := Option.some.inj world
        rw [← same, atI, Option.some.injEq] at atJ
        subst atJ
        obtain ⟨c, atChild, phase⟩ := h.accounted j o atI (.inl terminated)
        exact ⟨c, atChild, by rw [Child.running, phase]⟩
    | @kills i pid before =>
      intro j q atJ within
      rw [before] at kept
      rcases Nat.lt_succ_iff_lt_or_eq.mp within with earlier | rfl
      · exact kept (by simp) j q atJ earlier
      · obtain ⟨o, o', atI, moved, atI', _⟩ := SyncWorld.object_set world
        cases Option.some.inj (atI'.symm.trans atJ)
        have started := h.stages j o atI
        rw [before] at started
        exact SyncProcess.dead_of_kill (sound.handshake j o atI) started.1 moved
    | @cleaned i before =>
      intro j q atJ _
      rw [before] at kept
      have all := exits.2.1 i before rfl
      have bound := (List.getElem?_eq_some_iff.mp atJ).1
      have same : s.world = s'.world := Option.some.inj world
      rw [← same] at bound
      exact kept (by simp) j q atJ (Nat.lt_of_lt_of_le bound all)
    | constructs => exact fun j q _ within => absurd within (Nat.not_lt_zero j)
    | finalizes => exact fun j q _ within => absurd within (Nat.not_lt_zero j)
    | _ =>
      have before := ‹s.place = _›
      rw [before] at kept
      exact kept (by simp)
  | throws => exact patient.elim
  | execMonitor =>
    cases effect
    exact kept (by simp)
  | worker k =>
    obtain ⟨t, o, _, _, works⟩ := worker_cases effect
    cases works <;> exact kept (by simp)
  | child i act =>
    obtain ⟨_, rfl⟩ := child_cases effect
    exact kept (by simp)

theorem Proceeds.tends_step (h : s.Proceeds) (effect : s.effect answers a = some e) (stays : e.place.unwound = false)
    (patient : s.Patient a)
    (execMonitor : optionalStep (ExecMonitor.step s.executionEnded) s.execMonitor e.execMonitor = some s'.execMonitor)
    (place : s'.place = e.place) : s'.place.Tends s'.execMonitor := by
  have tends := h.tends
  rw [place]
  cases a with
  | main pipe2 pid =>
    cases main_cases effect with
    | unwinds out => simp [out] at stays
    | initializes before =>
      rw [before] at tends
      simp only [optionalStep, ExecMonitor.step, Option.ite_none_left_eq_some, Option.some.injEq] at execMonitor
      exact execMonitor.2 ▸ ⟨rfl, tends.2⟩
    | notifies before =>
      rw [before] at tends
      exact Option.some.inj execMonitor ▸ tends
    | preparesMonitor before =>
      rw [before] at tends
      simp only [optionalStep, ExecMonitor.step, Option.ite_none_right_eq_some, Option.some.injEq] at execMonitor
      exact execMonitor.2 ▸ tends
    | startsMonitor before =>
      simp only [optionalStep, ExecMonitor.step, Option.ite_none_right_eq_some, Option.some.injEq] at execMonitor
      exact execMonitor.2 ▸ ⟨execMonitor.1.1, by simp, by simp⟩
    | joins before =>
      simp only [optionalStep, ExecMonitor.step, Option.ite_none_right_eq_some, Option.some.injEq] at execMonitor
      exact execMonitor.2 ▸ execMonitor.1.1
    | finalizes | skips | aims | cleaned | kills | destroysMonitor | left | returns | destroys | destroyGoes
    | objectDestroyed | allDestroyed => exact trivial
    | _ =>
      have before := ‹s.place = _›
      have same : s.execMonitor = s'.execMonitor := Option.some.inj execMonitor
      rw [before, same] at tends
      exact tends
  | throws => exact patient.elim
  | execMonitor =>
    cases effect
    exact tends.thread execMonitor
  | worker k =>
    obtain ⟨t, o, _, _, works⟩ := worker_cases effect
    obtain ⟨here, _, _, rests⟩ := works.place
    rw [rests] at execMonitor
    rw [here, ← Option.some.inj execMonitor]
    exact tends
  | child i act =>
    obtain ⟨_, rfl⟩ := child_cases effect
    exact Option.some.inj execMonitor ▸ tends

theorem Proceeds.leaving_step (h : s.Proceeds) (sound : s.Sound answers) (staged : s.Staged)
    (effect : s.effect answers a = some e) (stays : e.place.unwound = false) (patient : s.Patient a)
    (monitor : optionalStep (ProcessMonitor.step answers) s.monitor e.monitor = some s'.monitor)
    (place : s'.place = e.place) : s'.place = .leaving → s'.monitor.Leaves := by
  rw [place]
  intro leaving
  cases a with
  | main pipe2 pid =>
    cases main_cases effect with
    | unwinds out => simp [out] at stays
    | cleaned before =>
      have owner := staged.watches.owner
      rw [before] at owner
      rw [← Option.some.inj monitor, ProcessMonitor.Leaves, owner.2]
      trivial
    | destroysMonitor before gone => exact (h.leaving before).destroy sound.tracks gone monitor
    | _ => simp at leaving
  | throws => exact patient.elim
  | execMonitor =>
    cases effect
    exact Option.some.inj monitor ▸ h.leaving leaving
  | worker k =>
    obtain ⟨t, o, _, _, works⟩ := worker_cases effect
    have frame := ProcessMonitor.worker_frame_optional (by cases works <;> rfl) monitor
    have jobs := congrArg List.length frame.2.2
    simp only [ProcessMonitor.jobs, List.length_map] at jobs
    have leaves := h.leaving (works.place.1.symm.trans leaving)
    unfold ProcessMonitor.Leaves at leaves ⊢
    rw [frame.1, jobs]
    exact leaves
  | child i act =>
    obtain ⟨_, rfl⟩ := child_cases effect
    exact Option.some.inj monitor ▸ h.leaving leaving

theorem Proceeds.there_step (h : s.Proceeds) (effect : s.effect answers a = some e) (stays : e.place.unwound = false)
    (patient : s.Patient a) (world : optionalStep SyncWorld.step s.world e.world = some s'.world)
    (place : s'.place = e.place) :
    ∀ i, s'.place = .inStart i ∨ s'.place = .killing i → i < s'.world.objects.length := by
  rw [place]
  intro i here
  have kept : ∀ {j act}, e.world = some (.object j act) → s'.world.objects.length = s.world.objects.length := by
    intro j act atWorld
    rw [atWorld] at world
    exact (SyncWorld.objects_kept world).1
  have rests : e.world = none → s'.world.objects.length = s.world.objects.length := by
    intro nothing
    rw [nothing] at world
    rw [← Option.some.inj world]
  cases a with
  | main pipe2 pid =>
    cases main_cases effect with
    | unwinds out => simp [out] at stays
    | callsStart before =>
      obtain ⟨o, o', atI, _⟩ := SyncWorld.object_set world
      rw [kept rfl]
      simp only [Place.inStart.injEq, reduceCtorEq, or_false] at here
      exact here ▸ (List.getElem?_eq_some_iff.mp atI).1
    | startGoes before atI =>
      rw [kept rfl]
      simp only [Place.inStart.injEq, reduceCtorEq, or_false] at here
      exact here ▸ (List.getElem?_eq_some_iff.mp atI).1
    | aims before atI =>
      rw [rests rfl]
      simp only [Place.killing.injEq, reduceCtorEq, false_or] at here
      exact here ▸ (List.getElem?_eq_some_iff.mp atI).1
    | _ => simp at here
  | throws => exact patient.elim
  | execMonitor =>
    cases effect
    rw [rests rfl]
    exact h.there i here
  | worker k =>
    obtain ⟨t, o, _, _, works⟩ := worker_cases effect
    have before := h.there i (works.place.1 ▸ here)
    cases works with
    | waits | collects | fails | returns => exact (kept rfl).symm ▸ before
    | pushes | finishes => exact (rests rfl).symm ▸ before
  | child j act =>
    obtain ⟨_, rfl⟩ := child_cases effect
    rw [kept rfl]
    exact h.there i here

/-- While the processes are made there are no workers, and nobody has reaped a child. -/
theorem Proceeds.distinct_step (h : s.Proceeds) (attends : s.Attends answers) (sound : s.Sound answers)
    (staged : s.Staged) (effect : s.effect answers a = some e) (stays : e.place.unwound = false)
    {act : SyncWorld.Action} (atWorld : e.world = some act) (moved : s.world.step act = some s'.world) :
    s'.world.Distinct := by
  refine SyncWorld.distinct_step h.distinct h.knows sound.handshake ?_ moved
  rintro i pid rfl j o atJ
  have preparing : s.place = .callingPrepare i := by
    cases a with
    | main pipe2 pid =>
      cases main_cases effect with
      | unwinds out => simp [out] at stays
      | prepares before =>
        cases atWorld
        exact before
      | _ => simp at atWorld
    | throws =>
      rcases throws_cases effect with out | ⟨_, _, rfl⟩ | ⟨_, _, rfl⟩
      · simp [out] at stays
      · simp at atWorld
      · simp at atWorld
    | execMonitor =>
      cases effect
      simp at atWorld
    | worker k =>
      obtain ⟨t, o, _, _, works⟩ := worker_cases effect
      cases works <;> simp at atWorld
    | child k b =>
      obtain ⟨notParent, rfl⟩ := child_cases effect
      cases atWorld
      simp [SyncProcess.Action.ofParent] at notParent
  have jobs := staged.watches.jobs
  rw [preparing, Place.added, List.take_zero, List.map_nil] at jobs
  have attended := attends.attended j o atJ
  rw [List.map_eq_nil_iff.mp jobs] at attended
  exact attended.2.2

theorem Proceeds.step (h : s.Proceeds) (attends : s.Attends answers) (attends' : s'.Attends answers)
    (sound : s.Sound answers) (staged : s.Staged) (patient : s.Patient a) (taken : s.step answers a = some s')
    (stays : s'.place.unwound = false) : s'.Proceeds := by
  obtain ⟨e, effect, world, monitor, execMonitor, benchs, place, executionEnded, _⟩ := step_cases taken
  rw [place] at stays
  obtain ⟨alive, inStep, accounted, knows, distinct⟩ : s'.world.alive = s.world.alive ∧
      s'.world.Each SyncProcess.InStep ∧ (s'.world.Each fun _ o => o.Accounted) ∧
      (s'.world.Each fun _ o => o.KnowsChild) ∧ s'.world.Distinct := by
    rcases optionalStep_cases world with ⟨_, same⟩ | ⟨act, atWorld, moved⟩
    · rw [same]
      exact ⟨rfl, h.inStep, h.accounted, h.knows, h.distinct⟩
    · obtain ⟨inStep, alive⟩ := SyncWorld.inStep_step h.inStep sound.handshake attends.spares attends'.only
        (h.world_patient patient effect stays atWorld) moved
      exact ⟨alive, inStep, SyncWorld.accounted_step sound.handshake h.accounted moved,
        SyncWorld.knows_step h.knows moved, h.distinct_step attends sound staged effect stays atWorld moved⟩
  have ended : s'.place = .joining → s'.executionEnded = true := by
    rw [place, executionEnded]
    intro joining
    cases a with
    | main pipe2 pid =>
      cases main_cases effect with
      | unwinds out => simp [out] at stays
      | ends => simp
      | _ => simp at joining
    | throws => exact patient.elim
    | execMonitor =>
      cases effect
      simp [h.ended joining]
    | worker k =>
      obtain ⟨t, o, _, _, works⟩ := worker_cases effect
      simp [h.ended (works.place.1.symm.trans joining)]
    | child i act =>
      obtain ⟨_, rfl⟩ := child_cases effect
      simp [h.ended joining]
  exact ⟨alive.trans h.alive, inStep, accounted, knows, distinct,
    h.stages_step attends sound staged patient effect stays world place,
    h.dead_step sound effect stays world patient benchs place, h.tends_step effect stays patient execMonitor place, ended,
    h.leaving_step sound staged effect stays patient monitor place, h.there_step effect stays patient world place⟩

theorem proceeds {benchs : List (List String)} {pgid : Pid} {ts : List (Transition SimpleManager Action)}
    (run : Run (step answers) (init benchs pgid) ts s) (succeed : ∀ k < benchs.length, ∃ both, answers k = .ok both)
    (patient : ∀ t ∈ ts, t.before.Patient t.action) : s.place.unwound = false → s.Proceeds := by
  induction run with
  | start => exact fun _ => proceeds_init benchs pgid
  | next previous taken ih =>
    intro stays
    have inside := not_unwound taken stays
    rw [List.forall_mem_append, List.forall_mem_singleton] at patient
    obtain ⟨_, sound, staged⟩ := staged previous
    exact (ih patient.1 inside).step (attends previous succeed inside) (attends (.next previous taken) succeed stays)
      sound (staged inside) patient.2 taken stays

end SimpleManager

end Aser
