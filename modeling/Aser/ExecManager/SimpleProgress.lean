import Aser.ExecManager.SimpleBlocking
import Aser.ExecManager.SimplePlaces

namespace Aser

open Library

namespace SimpleManager

/-- A step of the manager in which nothing fails: of its threads, or of a child on the way to its command. The
exec monitor counts when it is to end. -/
def goesOn (s : SimpleManager) : Action → Bool
  | .main pipe2 _ => pipe2
  | .throws => false
  | .execMonitor => s.executionEnded
  | .worker _ => true
  | .child _ a => a = .child || a = .execvp none

/-- Such a step can be taken. -/
def Goes (answers : Nat → WaitResult) (s : SimpleManager) : Prop :=
  ∃ a, s.goesOn a = true ∧ (s.step answers a).isSome = true

/-- `waitpid` answers what has become of the children. -/
def Truthful (answers : Nat → WaitResult) (s : SimpleManager) : Prop :=
  ∀ (k : Nat) (o : SyncProcess) (c : Child) (status : Int), s.world.objects[k]? = some o → o.child = some c →
    c.phase = .ended status → answers k = .ok (o.pid, status)

/-- Worker `k` is in `waitpid` for a child that has come to its command, or failed on the way to it. -/
def RunsProgram (s : SimpleManager) (k : Nat) : Prop :=
  ∃ (t : Worker) (o : SyncProcess) (c : Child), s.monitor.workers[k]? = some t ∧ t.phase = .waiting ∧
    s.world.objects[k]? = some o ∧ o.waiter = .waitpid ∧ o.child = some c ∧
      (c.phase = .program ∨ ∃ e, c.phase = .escaped e)

/-- The thread of the manager is in `wait_for_any`, and the programs of as many benchmarks as there are run. -/
def Rests (s : SimpleManager) : Prop :=
  s.place = .inWaitForAny ∧ ∀ k < s.benchs.length, s.RunsProgram k

/-- There are benchmarks, and it is there until a program ends. -/
def AwaitsPrograms (s : SimpleManager) : Prop := s.benchs ≠ [] ∧ s.Rests

/-- There is no benchmark, and it is there for ever. -/
def AwaitsNothing (s : SimpleManager) : Prop := s.benchs = [] ∧ s.place = .inWaitForAny

variable {answers : Nat → WaitResult} {s s' : SimpleManager} {a : Action} {e : Effect}

theorem rests_iff : s.Rests ↔ s.AwaitsPrograms ∨ s.AwaitsNothing := by
  by_cases none : s.benchs = []
  · simp [Rests, AwaitsPrograms, AwaitsNothing, none]
  · simp [AwaitsPrograms, AwaitsNothing, none]

/-- A step is possible when the step of each component is. -/
theorem step_enabled (effect : s.effect answers a = some e)
    (world : (optionalStep SyncWorld.step s.world e.world).isSome = true)
    (monitor : (optionalStep (ProcessMonitor.step answers) s.monitor e.monitor).isSome = true)
    (execMonitor : (optionalStep (ExecMonitor.step s.executionEnded) s.execMonitor e.execMonitor).isSome = true) :
    (s.step answers a).isSome = true := by
  obtain ⟨w, atWorld⟩ := Option.isSome_iff_exists.mp world
  obtain ⟨m, atMonitor⟩ := Option.isSome_iff_exists.mp monitor
  obtain ⟨x, atExecMonitor⟩ := Option.isSome_iff_exists.mp execMonitor
  simp [step, apply, effect, atWorld, atMonitor, atExecMonitor]

variable (answers) in
theorem main_goes (pid : Pid) (effect : s.main true pid = some e)
    (world : (optionalStep SyncWorld.step s.world e.world).isSome = true)
    (monitor : (optionalStep (ProcessMonitor.step answers) s.monitor e.monitor).isSome = true)
    (execMonitor : (optionalStep (ExecMonitor.step s.executionEnded) s.execMonitor e.execMonitor).isSome = true) :
    s.Goes answers :=
  ⟨.main true pid, rfl, step_enabled (a := .main true pid) effect world monitor execMonitor⟩

variable (answers) in
theorem child_goes {i : Nat} {o : SyncProcess} {act : SyncProcess.Action} (alive : s.world.alive = true)
    (atI : s.world.objects[i]? = some o) (counts : act = .child ∨ act = .execvp none)
    (can : (o.step (s.world.view i) act).isSome = true) : s.Goes answers := by
  have effect : s.effect answers (.child i act) = some { place := s.place, world := some (.object i act) } := by
    rcases counts with rfl | rfl
    · rfl
    · rfl
  refine ⟨.child i act, ?_, step_enabled effect (SyncWorld.object_enabled alive atI can) rfl rfl⟩
  rcases counts with rfl | rfl
  · rfl
  · rfl

/-- When `start_impl` has returned, nobody waits for a process any more. -/
theorem Attends.free (attends : s.Attends answers) (sound : s.Sound answers) (staged : s.Staged)
    (left : s.place.left = true) {k : Nat} {o : SyncProcess} (atK : s.world.objects[k]? = some o) :
    o.waiter = .none := by
  obtain ⟨objects, workers, _⟩ := staged.all (Place.launched_of_left left)
  have within := (List.getElem?_eq_some_iff.mp atK).1
  have atWorker := List.getElem?_eq_getElem (l := s.monitor.workers) (i := k) (by omega)
  have ready := sound.drains.of_destroyed (staged.watches.owner.destroyed left) atWorker
  have attended := attends.attended k o atK
  rw [atWorker, Option.map_some] at attended
  have done : (s.monitor.workers[k]).phase ≠ .waiting := by
    intro waiting
    simp [waiting, WorkerPhase.isReady] at ready
  exact ((SyncProcess.attended_done done).mp attended).1

/-- A worker that is not done goes on, or its child does, or its program runs. -/
theorem worker_goes (h : s.Proceeds) (attends : s.Attends answers) (sound : s.Sound answers)
    (truthful : s.Truthful answers) {k : Nat} {t : Worker} {o : SyncProcess} (atK : s.monitor.workers[k]? = some t)
    (atO : s.world.objects[k]? = some o) (started : Stage.started.Holds o) (busy : t.phase.isReady = false) :
    s.Goes answers ∨ s.RunsProgram k := by
  have go : ∀ {e}, s.worker answers k = some e → (optionalStep SyncWorld.step s.world e.world).isSome = true →
      (optionalStep (ProcessMonitor.step answers) s.monitor e.monitor).isSome = true → e.execMonitor = none →
        s.Goes answers := by
    intro e effect world monitor rests
    exact ⟨.worker k, rfl, step_enabled (a := .worker k) effect world monitor (by rw [rests]; rfl)⟩
  have attended := attends.attended k o atO
  rw [atK, Option.map_some] at attended
  cases phase : t.phase with
  | collected status =>
    refine .inl (go (e := { place := s.place, monitor := some (.push k) }) ?_ rfl ?_ rfl)
    · simp [SimpleManager.worker, atK, atO, phase]
    · simp [optionalStep, ProcessMonitor.step, atK, phase]
  | leaving result =>
    refine .inl (go (e := { place := s.place, monitor := some (.finish k) }) ?_ rfl ?_ rfl)
    · simp [SimpleManager.worker, atK, atO, phase]
    · simp [optionalStep, ProcessMonitor.step, atK, phase]
  | ready result => simp [phase, WorkerPhase.isReady] at busy
  | waiting =>
    rw [phase] at attended
    obtain ⟨isStarted, written, idle⟩ := started
    have there : o.alive = true := by rw [SyncProcess.alive, idle, ParentCall.alive]
    have handshake := sound.handshake k o atO
    have goes : ∀ {act}, (o.step (s.world.view k) act).isSome = true → (s.world.step (.object k act)).isSome = true :=
      SyncWorld.object_enabled h.alive atO
    cases waiter : o.waiter with
    | none =>
      -- the child was not reaped, so nobody has found it terminated
      have running : o.terminated = false := by
        by_contra terminated
        rcases attended with ⟨returning, _⟩ | ⟨_, _, unreaped⟩
        · simp [waiter] at returning
        · exact unreaped (h.accounted k o atO (.inl (by simpa using terminated)))
      refine .inl (go (e := { place := s.place, world := some (.object k .wait) }) ?_ (goes ?_) rfl rfl)
      · simp [SimpleManager.worker, atK, atO, phase, waiter]
      · simp [SyncProcess.step, there, isStarted, running, waiter]
    | returning =>
      refine .inl (go (e := { place := s.place, world := some (.object k .waitReturns), monitor := some (.waitpid k) })
        ?_ (goes ?_) ?_ rfl)
      · simp [SimpleManager.worker, atK, atO, phase, waiter]
      · simp [SyncProcess.step, waiter]
      · simp [optionalStep, ProcessMonitor.step, atK, phase]
    | waitpid =>
      obtain ⟨c, atChild⟩ := Option.isSome_iff_exists.mp (handshake.forked.symm.trans isStarted)
      cases fate : c.phase with
      | waitForParent todo =>
        cases todo with
        | nil =>
          refine .inl (child_goes answers h.alive atO (.inr rfl) ?_)
          obtain ⟨pid, pgid, _, fds⟩ := c
          cases fate
          simp [SyncProcess.step, atChild]
        | cons op todo =>
          refine .inl (child_goes answers h.alive atO (.inl rfl) ?_)
          exact SyncProcess.InStep.child_goes (v := s.world.view k) (h.inStep k o atO) handshake
            (fun pipe ep => SyncWorld.held_of_mem atO) atChild fate fun _ => written
      | program => exact .inr ⟨t, o, c, atK, phase, atO, waiter, atChild, .inl fate⟩
      | escaped e => exact .inr ⟨t, o, c, atK, phase, atO, waiter, atChild, .inr ⟨e, fate⟩⟩
      | ended status =>
        have answer := truthful k o c status atO atChild fate
        refine .inl (go (e := { place := s.place, world := some (.object k .waitpid) }) ?_ (goes ?_) rfl rfl)
        · simp [SimpleManager.worker, atK, atO, phase, waiter, answer, atChild, fate]
        · obtain ⟨pid, pgid, _, fds⟩ := c
          cases fate
          simp [SyncProcess.step, waiter, atChild]
      | reaped =>
        rcases attended with ⟨returning, _⟩ | ⟨_, _, unreaped⟩
        · simp [waiter] at returning
        · exact absurd ⟨c, atChild, fate⟩ unreaped

/-- While the processes are made and prepared, the thread of the manager goes on, or a child that it waits
for. -/
theorem prepares_goes (h : s.Proceeds) (sound : s.Sound answers) (staged : s.Staged)
    (early : s.place.launched = false) : s.Goes answers := by
  have tends := h.tends
  have owner := staged.watches.owner
  have made := staged.launches.made
  cases place : s.place with
  | initializing =>
    rw [place] at tends
    refine main_goes answers 0 (by simp only [main, place]; rfl) rfl rfl ?_
    simp [optionalStep, ExecMonitor.step, tends.1]
  | constructing i =>
    cases atI : s.benchs[i]? with
    | some args =>
      refine main_goes answers 0 (by simp only [main, place, atI]; rfl) ?_ rfl rfl
      simp only [optionalStep, SyncWorld.step, h.alive, if_true]
      split <;> rfl
    | none => exact main_goes answers 0 (by simp only [main, place, atI]; rfl) rfl rfl rfl
  | callingPrepare i =>
    rw [place, Place.made] at made
    have atI := List.getElem?_eq_getElem (l := s.world.objects) (i := i) (by omega)
    have holds := h.stages i _ atI
    rw [place, Place.stage, if_pos rfl] at holds
    obtain ⟨pid, may⟩ := s.world.exists_mayFork
    refine main_goes answers pid (by simp only [main, place]; rfl) ?_ rfl rfl
    refine SyncWorld.object_enabled h.alive atI ?_
    have free : (s.world.view i).mayFork pid = true := may
    simp [SyncProcess.step, holds.1, holds.2.2, free]
  | inPrepare i =>
    rw [place, Place.made] at made
    have atI := List.getElem?_eq_getElem (l := s.world.objects) (i := i) (by omega)
    have holds := h.stages i _ atI
    rw [place, Place.stage, if_pos rfl] at holds
    obtain ⟨_, _, todo, call⟩ := holds
    rcases SyncProcess.InStep.prepare_goes (v := s.world.view i) (h.inStep i _ atI) (sound.handshake i _ atI)
      (fun pipe ep => SyncWorld.held_of_mem atI) call with parent | child
    · refine main_goes answers 0 (by simp only [main, place, atI, Option.map_some, call]; rfl) ?_ rfl rfl
      exact SyncWorld.object_enabled h.alive atI parent
    · exact child_goes answers h.alive atI (.inl rfl) child
  | notifying i =>
    rw [place, Place.made] at made
    have atI := List.getElem?_eq_getElem (l := s.world.objects) (i := i) (by omega)
    exact main_goes answers 0 (by simp only [main, place, atI, Option.map_some]; rfl) rfl rfl rfl
  | adding i =>
    rw [place] at owner
    cases atI : s.world.objects[i]? with
    | some o =>
      cases new : s.monitor.checkDuplicatedPid o.pid with
      | ok =>
        refine main_goes answers 0 (by simp only [main, place, atI, new]; rfl) rfl ?_ rfl
        simp [optionalStep, ProcessMonitor.step, owner.2]
      | error e => exact main_goes answers 0 (by simp only [main, place, atI, new]; rfl) rfl rfl rfl
    | none => exact main_goes answers 0 (by simp only [main, place, atI]; rfl) rfl rfl rfl
  | preparingMonitor =>
    rw [place] at tends
    refine main_goes answers 0 (by simp only [main, place]; rfl) rfl rfl ?_
    simp [optionalStep, ExecMonitor.step, tends.1]
  | _ => simp [place, Place.launched] at early

/-- No wait ends with an exception that `get` could pass on. -/
theorem get_ok (sound : s.Sound answers) (staged : s.Staged) (waits : s.place = .inWaitForAny)
    (succeed : ∀ k < s.benchs.length, ∃ both, answers k = .ok both) {k : Nat} {t : Worker} {error : Exception}
    (atK : s.monitor.workers[k]? = some t) : t.phase ≠ .ready (.error error) := by
  intro failed
  have kind := (staged.watches.worker atK).1
  have fits := sound.tracks.workers atK
  rw [Worker.Fits, failed] at fits
  have within := (List.getElem?_eq_some_iff.mp atK).1
  obtain ⟨_, count, _⟩ := staged.all (by rw [waits]; rfl)
  obtain ⟨⟨pid, status⟩, answer⟩ := succeed k (by omega)
  have outcome := (outcome_process kind (answers k) status).mpr ⟨pid, answer⟩
  simp [outcome] at fits

/-- `wait_for_any` is left as soon as a program ends. -/
theorem waits_goes (h : s.Proceeds) (attends : s.Attends answers) (sound : s.Sound answers) (staged : s.Staged)
    (truthful : s.Truthful answers) (succeed : ∀ k < s.benchs.length, ∃ both, answers k = .ok both)
    (waits : s.place = .inWaitForAny) : s.Goes answers ∨ s.Rests := by
  have owner := staged.watches.owner
  rw [waits] at owner
  obtain ⟨objects, workers, _⟩ := staged.all (by rw [waits]; rfl)
  have goes : ∀ {k : Nat} {t : Worker}, s.monitor.workers[k]? = some t → t.phase.isReady = false →
      s.Goes answers ∨ s.RunsProgram k := by
    intro k t atK busy
    have within := (List.getElem?_eq_some_iff.mp atK).1
    have atO := List.getElem?_eq_getElem (l := s.world.objects) (i := k) (by omega)
    have holds := h.stages k _ atO
    rw [waits] at holds
    exact worker_goes h attends sound truthful atK atO holds busy
  rcases owner with ⟨none, popping | ⟨pid, k, getting⟩⟩
  · cases queue : s.monitor.endedProcessQueue with
    | cons pid rest =>
      refine .inl (main_goes answers 0 (by simp only [main, waits, waitForAnyNext, popping]; rfl) rfl ?_ rfl)
      simp [optionalStep, ProcessMonitor.step, popping, queue]
    | nil =>
      by_cases all : ∀ k < s.benchs.length, s.RunsProgram k
      · exact .inr ⟨waits, all⟩
      · simp only [not_forall] at all
        obtain ⟨k, within, notRuns⟩ := all
        have atK := List.getElem?_eq_getElem (l := s.monitor.workers) (i := k) (by omega)
        refine .inl ((goes atK ?_).resolve_right notRuns)
        -- a worker that is done has pushed its pid, and nothing was pushed
        have pushed : s.monitor.pushed = [] := by
          have matched := sound.tracks.queue
          rw [queue, ProcessMonitor.Tracks.taken_of_popping popping, none] at matched
          simpa using matched
        have fits := sound.tracks.workers atK
        obtain ⟨⟨pid, status⟩, answer⟩ := succeed k within
        have outcome := (outcome_process (staged.watches.worker atK).1 (answers k) status).mpr ⟨pid, answer⟩
        cases phase : (s.monitor.workers[k]).phase with
        | ready result =>
          rw [Worker.Fits, phase, outcome, pushed] at fits
          have known := fits.2.mpr ⟨status, fits.1.symm⟩
          simp at known
        | _ => rfl
  · obtain ⟨next, known⟩ := sound.tracks.getting getting
    obtain ⟨t, atK, _⟩ := Option.map_eq_some_iff.mp known
    have fits := sound.tracks.workers atK
    have pushed := List.mem_of_getElem? next
    cases phase : t.phase with
    | ready result =>
      cases result with
      | ok status =>
        have effect : s.main true 0 = some { place := .ending, monitor := some .get } := by
          simp only [main, waits, waitForAnyNext, getting, atK, Option.map_some, phase]
        refine .inl (main_goes answers 0 effect rfl ?_ rfl)
        simp [optionalStep, ProcessMonitor.step, getting, atK, phase]
      | error e => exact absurd phase (get_ok sound staged waits succeed atK)
    | waiting =>
      rw [Worker.Fits, phase] at fits
      exact absurd pushed fits
    | collected status =>
      rw [Worker.Fits, phase] at fits
      exact absurd pushed fits.2
    | leaving result =>
      refine .inl ((goes atK (by rw [phase]; rfl)).resolve_right ?_)
      rintro ⟨t', _, _, atK', waiting, _⟩
      cases Option.some.inj (atK.symm.trans atK')
      simp [phase] at waiting

/-- The destructor of the monitor waits for no program, as all are killed by then. -/
theorem leaves_goes (h : s.Proceeds) (attends : s.Attends answers) (sound : s.Sound answers) (staged : s.Staged)
    (truthful : s.Truthful answers) (leaving : s.place = .leaving) : s.Goes answers := by
  have leaves := h.leaving leaving
  obtain ⟨objects, workers, _⟩ := staged.all (by rw [leaving]; rfl)
  cases owner : s.monitor.owner with
  | idle =>
    refine main_goes answers 0 (by simp only [main, leaving, destroyMonitor, owner]; rfl) rfl ?_ rfl
    simp [optionalStep, ProcessMonitor.step, owner]
  | destroyed => exact main_goes answers 0 (by simp only [main, leaving, destroyMonitor, owner]; rfl) rfl rfl rfl
  | destroying left =>
    cases left with
    | nil =>
      refine main_goes answers 0 (by simp only [main, leaving, destroyMonitor, owner]; rfl) rfl ?_ rfl
      simp [optionalStep, ProcessMonitor.step, owner]
    | cons k left =>
      rw [ProcessMonitor.Leaves, owner] at leaves
      have bound := leaves k List.mem_cons_self
      have atK := List.getElem?_eq_getElem bound
      have atO := List.getElem?_eq_getElem (l := s.world.objects) (i := k) (by omega)
      cases phase : (s.monitor.workers[k]).phase with
      | ready result =>
        refine main_goes answers 0 (by simp only [main, leaving, destroyMonitor, owner]; rfl) rfl ?_ rfl
        simp [optionalStep, ProcessMonitor.step, owner, atK, phase]
      | _ =>
        have holds := h.stages k _ atO
        rw [leaving] at holds
        refine (worker_goes h attends sound truthful atK atO holds (by rw [phase]; rfl)).resolve_right ?_
        rintro ⟨_, o, c, _, _, atO', _, atChild, runs⟩
        obtain ⟨c', atChild', ended⟩ := h.dead k o atO' (by rw [leaving, Place.cleaned]; omega)
        cases Option.some.inj (atChild.symm.trans atChild')
        rcases runs with program | ⟨e, escaped⟩
        · simp [Child.running, program] at ended
        · simp [Child.running, escaped] at ended
  | popping | getting | aborted => simp [ProcessMonitor.Leaves, owner] at leaves

/-- The processes are started one after the other, and so is the exec monitor. -/
theorem starts_goes (h : s.Proceeds) (sound : s.Sound answers) (staged : s.Staged)
    (here : (∃ i, s.place = .callingStart i ∨ s.place = .inStart i) ∨ s.place = .startingMonitor ∨
      s.place = .callingWaitForAny) : s.Goes answers := by
  have tends := h.tends
  have owner := staged.watches.owner
  rcases here with ⟨i, place | place⟩ | place | place
  · cases atI : s.world.objects[i]? with
    | some o =>
      have holds := h.stages i o atI
      rw [place, Place.stage, if_neg (Nat.lt_irrefl i)] at holds
      refine main_goes answers 0 (by simp only [main, place, atI]; rfl) ?_ rfl rfl
      refine SyncWorld.object_enabled h.alive atI ?_
      simp [SyncProcess.step, holds.1, holds.2.2]
    | none => exact main_goes answers 0 (by simp only [main, place, atI]; rfl) rfl rfl rfl
  · obtain ⟨o, atI⟩ : ∃ o, s.world.objects[i]? = some o := ⟨_, List.getElem?_eq_getElem (h.there i (.inl place))⟩
    have holds := h.stages i _ atI
    rw [place, Place.stage, if_neg (Nat.lt_irrefl i), if_pos rfl] at holds
    obtain ⟨started, todo, call, suffix, first⟩ := holds
    refine main_goes answers 0 (by simp only [main, place, atI, Option.map_some, call]; rfl) ?_ rfl rfl
    refine SyncWorld.object_enabled h.alive atI ?_
    have forked := (sound.handshake i _ atI).forked.symm.trans started
    exact SyncProcess.InStep.start_goes (v := s.world.view i) (h.inStep i _ atI)
      (fun c pipe ep atChild => SyncWorld.held_of_child_mem atI atChild) call suffix
      (Option.isSome_iff_ne_none.mp forked) first.mp
  · rw [place] at tends
    refine main_goes answers 0 (by simp only [main, place]; rfl) rfl rfl ?_
    simp [optionalStep, ExecMonitor.step, tends.1, tends.2]
  · rw [place] at owner
    refine main_goes answers 0 (by simp only [main, place]; rfl) rfl ?_ rfl
    simp [optionalStep, ProcessMonitor.step, owner.2]

/-- Nor does the thread of the exec monitor keep the manager from its end. -/
theorem joins_goes (h : s.Proceeds) (joining : s.place = .joining) : s.Goes answers := by
  have tends := h.tends
  rw [joining] at tends
  have ends := h.ended joining
  have thread : (s.execMonitor.threadStep s.executionEnded).isSome = true → s.Goes answers := fun can =>
    ⟨.execMonitor, ends, step_enabled (a := .execMonitor) rfl rfl rfl can⟩
  cases phase : s.execMonitor.thread with
  | notStarted => exact absurd phase tends.2.1
  | joined => exact absurd phase tends.2.2
  | finished =>
    refine main_goes answers 0 (by simp only [main, joining]; rfl) rfl rfl ?_
    simp [optionalStep, ExecMonitor.step, tends.1, phase]
  | testing => exact thread (by simp [ExecMonitor.threadStep, phase])
  | looping => exact thread (by simp [ExecMonitor.threadStep, phase])
  | processing =>
    refine thread ?_
    simp only [ExecMonitor.threadStep, phase]
    split <;> rfl

/-- The processes are destroyed one after the other, with nobody waiting for them any more. -/
theorem destroys_goes (h : s.Proceeds) (attends : s.Attends answers) (sound : s.Sound answers) (staged : s.Staged)
    {i : Nat} (place : s.place = .destroying i) : s.Goes answers := by
  have left : s.place.left = true := by rw [place]; rfl
  cases atI : s.world.objects[i]? with
  | none => exact main_goes answers 0 (by simp only [main, place, atI]; rfl) rfl rfl rfl
  | some o =>
    have holds := h.stages i o atI
    rw [place, Place.stage, if_neg (Nat.lt_irrefl i), if_pos rfl] at holds
    obtain ⟨started, _, idle | ⟨todo, call⟩ | gone⟩ := holds
    · have free := attends.free sound staged left atI
      refine main_goes answers 0 (by simp only [main, place, atI, destroyObject, idle]; rfl) ?_ rfl rfl
      refine SyncWorld.object_enabled h.alive atI ?_
      simp [SyncProcess.step, idle, free]
    · refine main_goes answers 0 (by simp only [main, place, atI, destroyObject, call]; rfl) ?_ rfl rfl
      have fits := (sound.handshake i o atI).calls
      rw [call] at fits
      exact SyncWorld.object_enabled h.alive atI (SyncProcess.destroyPipes_goes call fits)
    · exact main_goes answers 0 (by simp only [main, place, atI, destroyObject, gone]; rfl) rfl rfl rfl

/-- No worker waits yet for a process that is about to be added, and no other process has its pid. -/
theorem Proceeds.new (h : s.Proceeds) (sound : s.Sound answers) (staged : s.Staged) {i : Nat} {o : SyncProcess}
    (place : s.place = .adding i) (atI : s.world.objects[i]? = some o) :
    s.monitor.checkDuplicatedPid o.pid = .ok () := by
  have started := h.stages i o atI
  rw [place] at started
  refine if_neg fun known => ?_
  obtain ⟨k, entry⟩ := OrderedMap.mem_keys.mp known
  obtain ⟨t, atK, isPid⟩ := Option.map_eq_some_iff.mp ((sound.tracks.status _ _).mp entry).1
  obtain ⟨_, o', atO', same⟩ := staged.watches.worker atK
  have pids := fun {j : Nat} {q : SyncProcess} (atJ : s.world.objects[j]? = some q) =>
    (List.getElem?_map ..).trans (congrArg (Option.map SyncProcess.pid) atJ)
  have mine : k = i := h.distinct k i o.pid ((pids atO').trans (congrArg some (same.trans isPid))) (pids atI)
    (by simpa [SyncProcess.started] using started.1)
  have jobs := congrArg List.length staged.watches.jobs
  have within := (List.getElem?_eq_some_iff.mp atK).1
  simp only [ProcessMonitor.jobs, place, Place.added, List.length_map, List.length_take] at jobs
  omega

/-- No exception leaves the manager when nothing fails. -/
theorem Proceeds.stays (h : s.Proceeds) (sound : s.Sound answers) (staged : s.Staged)
    (named : [] ∉ s.benchs) (succeed : ∀ k < s.benchs.length, ∃ both, answers k = .ok both)
    (inside : s.place.unwound = false) (patient : s.Patient a) (effect : s.effect answers a = some e) :
    e.place.unwound = false := by
  cases a with
  | main pipe2 pid =>
    have stages := h.stages
    simp only [SimpleManager.effect] at effect
    cases place : s.place with
    | constructing i =>
      simp only [main, place] at effect
      split at effect
      · rename_i args atI
        cases effect
        have nonempty : args ≠ [] := fun empty => named (empty ▸ List.mem_of_getElem? atI)
        have succeeds : pipe2 = true := patient
        rw [if_neg (by simp [nonempty, succeeds])]
        rfl
      · cases effect
        rfl
    | inPrepare i =>
      simp only [main, place] at effect
      obtain ⟨o, atI, same⟩ := Option.map_eq_some_iff.mp effect
      have holds := stages i o atI
      rw [place, Place.stage, if_pos rfl] at holds
      obtain ⟨_, _, todo, call⟩ := holds
      rw [← same]
      simp only [call]
      split <;> rfl
    | adding i =>
      simp only [main, place] at effect
      split at effect
      · rename_i o atI
        rw [h.new sound staged place atI] at effect
        cases effect
        rfl
      · cases effect
        rfl
    | inStart i =>
      simp only [main, place] at effect
      obtain ⟨o, atI, same⟩ := Option.map_eq_some_iff.mp effect
      have holds := stages i o atI
      rw [place, Place.stage, if_neg (Nat.lt_irrefl i), if_pos rfl] at holds
      obtain ⟨_, todo, call, _⟩ := holds
      rw [← same]
      simp only [call]
      split <;> rfl
    | inWaitForAny =>
      simp only [main, place, waitForAnyNext] at effect
      split at effect
      · cases effect
        rfl
      · split at effect
        · cases effect
          rfl
        · rename_i k _ error failed
          obtain ⟨t, atK, phase⟩ := Option.map_eq_some_iff.mp failed
          exact absurd phase (get_ok sound staged place succeed atK)
        · simp at effect
      · simp at effect
    | initializing | callingPrepare | preparingMonitor | startingMonitor | callingWaitForAny | ending | joining
    | finalizing | returned =>
      simp only [main, place, Option.some.injEq] at effect
      exact effect ▸ rfl
    | notifying | killing =>
      simp only [main, place] at effect
      obtain ⟨o, _, same⟩ := Option.map_eq_some_iff.mp effect
      exact same ▸ rfl
    | callingStart =>
      simp only [main, place] at effect
      split at effect <;> cases effect <;> rfl
    | cleaningUp =>
      simp only [main, place] at effect
      split at effect
      · cases effect
        rw [testTerminated]
        split <;> rfl
      · cases effect
        rfl
    | leaving =>
      simp only [main, place, destroyMonitor, Option.some.injEq] at effect
      rw [← effect]
      split <;> rfl
    | destroying =>
      simp only [main, place] at effect
      split at effect
      · cases effect
        rw [destroyObject]
        split <;> rfl
      · cases effect
        rfl
    | destroyed => simp [main, place] at effect
    | dropping | unwinding | threw => simp [place, Place.unwound] at inside
  | throws => exact patient.elim
  | execMonitor =>
    cases effect
    exact inside
  | worker k =>
    obtain ⟨t, o, _, _, works⟩ := worker_cases effect
    exact works.place.1 ▸ inside
  | child i act =>
    obtain ⟨_, rfl⟩ := child_cases effect
    exact inside

/-- Unless an exception leaves it, a manager that has not come to its end goes on, or waits for the programs of
the benchmarks there are. -/
theorem goes_on (h : s.Proceeds) (attends : s.Attends answers) (sound : s.Sound answers) (staged : s.Staged)
    (truthful : s.Truthful answers) (succeed : ∀ k < s.benchs.length, ∃ both, answers k = .ok both)
    (inside : s.place.unwound = false) : s.place = .destroyed ∨ s.Goes answers ∨ s.Rests := by
  have tends := h.tends
  cases place : s.place with
  | initializing | constructing | callingPrepare | inPrepare | notifying | adding | preparingMonitor =>
    exact .inr (.inl (prepares_goes h sound staged (by rw [place]; rfl)))
  | callingStart i => exact .inr (.inl (starts_goes h sound staged (.inl ⟨i, .inl place⟩)))
  | inStart i => exact .inr (.inl (starts_goes h sound staged (.inl ⟨i, .inr place⟩)))
  | startingMonitor => exact .inr (.inl (starts_goes h sound staged (.inr (.inl place))))
  | callingWaitForAny => exact .inr (.inl (starts_goes h sound staged (.inr (.inr place))))
  | inWaitForAny => exact .inr (waits_goes h attends sound staged truthful succeed place)
  | ending | returned =>
    exact .inr (.inl (main_goes answers 0 (by simp only [main, place]; rfl) rfl rfl rfl))
  | joining => exact .inr (.inl (joins_goes h place))
  | finalizing =>
    rw [place] at tends
    have initialized : s.execMonitor.initialized = true := tends
    refine .inr (.inl (main_goes answers 0 (by simp only [main, place]; rfl) rfl rfl ?_))
    simp [optionalStep, ExecMonitor.step, initialized]
  | cleaningUp i =>
    cases atI : s.world.objects[i]? with
    | some o => exact .inr (.inl (main_goes answers 0 (by simp only [main, place, atI]; rfl) rfl rfl rfl))
    | none => exact .inr (.inl (main_goes answers 0 (by simp only [main, place, atI]; rfl) rfl rfl rfl))
  | killing i =>
    obtain ⟨o, atI⟩ : ∃ o, s.world.objects[i]? = some o := ⟨_, List.getElem?_eq_getElem (h.there i (.inr place))⟩
    have holds := h.stages i _ atI
    rw [place] at holds
    refine .inr (.inl (main_goes answers 0 (by simp only [main, place, atI, Option.map_some]; rfl) ?_ rfl rfl))
    refine SyncWorld.object_enabled h.alive atI ?_
    simp [SyncProcess.step, SyncProcess.alive, holds.1, holds.2.2, ParentCall.alive]
  | leaving => exact .inr (.inl (leaves_goes h attends sound staged truthful place))
  | destroying i => exact .inr (.inl (destroys_goes h attends sound staged place))
  | destroyed => exact .inl rfl
  | dropping | unwinding | threw => simp [place, Place.unwound] at inside

/-- While all programs run nothing is to be reported, and the manager can only wait. -/
theorem Rests.stuck (sound : s.Sound answers) (staged : s.Staged)
    (succeed : ∀ k < s.benchs.length, ∃ both, answers k = .ok both) (rests : s.Rests) :
    ¬ s.Goes answers := by
  obtain ⟨waits, runs⟩ := rests
  obtain ⟨objects, workers, _⟩ := staged.all (by rw [waits]; rfl)
  have pushed : s.monitor.pushed = [] := by
    refine List.eq_nil_iff_forall_not_mem.mpr fun k member => ?_
    have within := sound.tracks.known member
    obtain ⟨t, _, _, atK, waiting, _⟩ := runs k (by omega)
    have fits := sound.tracks.workers atK
    rw [Worker.Fits, waiting] at fits
    exact fits member
  rintro ⟨a, counts, can⟩
  obtain ⟨s', taken⟩ := Option.isSome_iff_exists.mp can
  obtain ⟨e, effect, world, monitor, _⟩ := step_cases taken
  cases a with
  | main pipe2 pid =>
    simp only [SimpleManager.effect, main, waits, waitForAnyNext] at effect
    split at effect
    · rename_i popping
      cases effect
      have empty : s.monitor.endedProcessQueue = [] := by
        have matched := sound.tracks.queue
        rw [pushed, List.drop_nil, List.map_nil] at matched
        exact List.map_eq_nil_iff.mp matched
      simp [optionalStep, ProcessMonitor.step, popping, empty] at monitor
    · rename_i getting
      have next := (sound.tracks.getting getting).1
      simp [pushed] at next
    · simp at effect
  | throws => simp [goesOn] at counts
  | execMonitor =>
    have late := staged.late (.inl counts)
    simp [waits, Place.ended] at late
  | worker k =>
    obtain ⟨t, o, atK, atO, works⟩ := worker_cases effect
    have within := (List.getElem?_eq_some_iff.mp atK).1
    obtain ⟨t', o', c, atK', waiting, atO', waiter, atChild, fate⟩ := runs k (by omega)
    cases Option.some.inj (atK.symm.trans atK')
    cases Option.some.inj (atO.symm.trans atO')
    cases works with
    | waits _ free => simp [free] at waiter
    | collects _ _ _ _ ended =>
      rcases fate with program | ⟨error, escaped⟩
      · simp [atChild, program] at ended
      · simp [atChild, escaped] at ended
    | fails _ _ failed =>
      obtain ⟨both, answer⟩ := succeed k (by omega)
      simp [failed] at answer
    | returns _ returning => simp [returning] at waiter
    | pushes collected => simp [collected] at waiting
    | finishes leaving => simp [leaving] at waiting
  | child i act =>
    obtain ⟨_, rfl⟩ := child_cases effect
    obtain ⟨o, o', atI, moved, _⟩ := SyncWorld.object_set world
    have within := (List.getElem?_eq_some_iff.mp atI).1
    obtain ⟨_, o', c, _, _, atO', _, atChild, fate⟩ := runs i (by omega)
    cases Option.some.inj (atI.symm.trans atO')
    have notWaiting : ∀ todo, c.phase ≠ .waitForParent todo := by
      intro todo waits
      rcases fate with program | ⟨error, escaped⟩
      · simp [program] at waits
      · simp [escaped] at waits
    simp only [goesOn, Bool.or_eq_true, decide_eq_true_eq] at counts
    obtain ⟨pid, pgid, phase, fds⟩ := c
    rcases counts with rfl | rfl
    · simp only [SyncProcess.step, SyncProcess.childStep, atChild] at moved
      split at moved
      · rename_i same
        cases same
        exact notWaiting _ rfl
      · simp at moved
    · simp only [SyncProcess.step, atChild] at moved
      split at moved
      · rename_i same
        cases same
        exact notWaiting _ rfl
      · simp at moved

/-- A manager none of whose calls fail never throws, and until it has come to its end it goes on, unless the
programs of all its benchmarks run or it has no benchmark to wait for. -/
theorem goes_on_iff {benchs : List (List String)} {pgid : Pid} {ts : List (Transition SimpleManager Action)}
    (run : Run (step answers) (init benchs pgid) ts s) (named : [] ∉ benchs)
    (succeed : ∀ k < benchs.length, ∃ both, answers k = .ok both)
    (patient : ∀ t ∈ ts, t.before.Patient t.action) (truthful : s.Truthful answers) :
    s.place.unwound = false ∧
      (s.place = .destroyed ∨ (s.Goes answers ↔ ¬ s.AwaitsPrograms ∧ ¬ s.AwaitsNothing)) := by
  obtain ⟨same, sound, staged⟩ := staged run
  have inside : s.place.unwound = false := by
    clear truthful same sound staged
    induction run with
    | start => rfl
    | next previous taken ih =>
      rw [List.forall_mem_append, List.forall_mem_singleton] at patient
      have before := ih patient.1
      obtain ⟨same, sound, staged⟩ := SimpleManager.staged previous
      obtain ⟨e, effect, _, _, _, _, place, _⟩ := step_cases taken
      exact place ▸ (proceeds previous succeed patient.1 before).stays sound (staged before) (same ▸ named)
        (same ▸ succeed) before patient.2 effect
  have holds := goes_on (proceeds run succeed patient inside) (attends run succeed inside) sound (staged inside)
    truthful (same ▸ succeed) inside
  rw [← not_or, ← rests_iff]
  refine ⟨inside, holds.imp_right fun goes => ⟨fun can rests => ?_, goes.resolve_right⟩⟩
  exact rests.stuck sound (staged inside) (same ▸ succeed) can

/-- What the manager does on its way is no failure. -/
theorem patient_of_goesOn (counts : s.goesOn a = true) : s.Patient a := by
  cases a with
  | main pipe2 pid => exact counts
  | throws => simp [goesOn] at counts
  | execMonitor | worker => exact trivial
  | child i act =>
    simp only [goesOn, Bool.or_eq_true, decide_eq_true_eq] at counts
    rcases counts with rfl | rfl
    · exact fun o _ => ⟨by simp, by simp [SyncProcess.Action.fails]⟩
    · exact fun o _ => ⟨by simp, by simp [SyncProcess.Action.fails]⟩

end SimpleManager

end Aser
