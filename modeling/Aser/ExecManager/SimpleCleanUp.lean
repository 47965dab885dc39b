import Aser.ExecManager.SimpleStages

namespace Aser

open Library

namespace SyncProcess

/-- Nobody has reaped the child. -/
def Unreaped (o : SyncProcess) : Prop := o.reaps = 0 ∧ ¬ o.Reaped

/-- One `waitpid` has reaped the child, with the answer it gave. -/
def Collected (o : SyncProcess) (answer : WaitResult) : Prop :=
  o.Reaped ∧ o.reaps = 1 ∧ ∃ pid status, answer = .ok (pid, status) ∧ o.terminationStatus = some status ∧
    (wifExited status || wifSignaled status) = true

/-- How far a process is, by how far its worker is. -/
def Attended (o : SyncProcess) (answer : WaitResult) : Option WorkerPhase → Prop
  | none => o.waiter = .none ∧ o.Unreaped
  | some .waiting => o.waiter = .returning ∧ o.Collected answer ∨ o.waiter ≠ .returning ∧ o.Unreaped
  | some _ => o.waiter = .none ∧ o.Collected answer ∧ o.terminated = true

variable {v : View} {o o' : SyncProcess} {a : Action} {answer : WaitResult}

theorem Collected.step (collected : o.Collected answer) (h : o.Handshake) (taken : o.step v a = some o') :
    o'.Collected answer := by
  obtain ⟨reaped, once, pid, status, answered, atStatus, ended⟩ := collected
  obtain ⟨reaped', reaps, terminationStatus, _⟩ := reaped.step h taken
  exact ⟨reaped', reaps.trans once, pid, status, answered, terminationStatus.trans atStatus, ended⟩

theorem attended_done {phase : WorkerPhase} (done : phase ≠ .waiting) : o.Attended answer (some phase) ↔
    o.waiter = .none ∧ o.Collected answer ∧ o.terminated = true := by
  cases phase with
  | waiting => contradiction
  | _ => exact Iff.rfl

/-- The steps of others do not change how far a process is. -/
theorem Attended.others {phase : Option WorkerPhase} (attended : o.Attended answer phase) (h : o.Handshake)
    (spares : o.SparesChild) (others : a.ofWaiter = false) (taken : o.step v a = some o') :
    o'.Attended answer phase := by
  obtain ⟨waiter, reaps, terminated, _⟩ := wait_frame others spares taken
  have unreaped : o.Unreaped → o'.Unreaped := by
    intro unreaped
    obtain ⟨none, not⟩ := unreaped
    refine ⟨reaps.trans none, fun reaped => ?_⟩
    rcases reaped_of_step reaped taken with before | rfl | ⟨_, call⟩
    · exact not before
    · simp [Action.ofWaiter] at others
    · exact spares true call
  have collected : o.Collected answer → o'.Collected answer := fun collected => collected.step h taken
  cases phase with
  | none => exact ⟨waiter.trans attended.1, unreaped attended.2⟩
  | some phase =>
    by_cases waiting : phase = .waiting
    · subst waiting
      rcases attended with ⟨returning, reaped⟩ | ⟨notYet, not⟩
      · exact .inl ⟨waiter.trans returning, collected reaped⟩
      · exact .inr ⟨by rw [waiter]; exact notYet, unreaped not⟩
    · obtain ⟨free, reaped, known⟩ := (attended_done waiting).mp attended
      exact (attended_done waiting).mpr ⟨waiter.trans free, collected reaped, terminated.trans known⟩

/-- A thread that calls `wait` on a process of its own comes to `waitpid`. -/
theorem Attended.waits (attended : o.Attended answer (some .waiting)) (waiter : o.waiter = .none)
    (taken : o.step v .wait = some o') : o'.Attended answer (some .waiting) := by
  rcases attended with ⟨returning, _⟩ | ⟨_, unreaped⟩
  · simp [waiter] at returning
  · cases change_of_step taken with
    | waits => exact .inr ⟨by simp, unreaped⟩
    | escapes fails => simp [Action.fails] at fails
    | dies signal => simp at signal

/-- `waitpid` reaps the child, and the status says how it ended. -/
theorem Attended.collects {pid : Pid} {status : Int} (attended : o.Attended answer (some .waiting))
    (waiter : o.waiter = .waitpid) (answered : answer = .ok (pid, status))
    (ended : o.child.any (·.phase == .ended status) = true) (ends : o.EndsProperly)
    (taken : o.step v .waitpid = some o') : o'.Attended answer (some .waiting) := by
  rcases attended with ⟨returning, _⟩ | ⟨_, none, _⟩
  · simp [waiter] at returning
  · obtain ⟨c, atChild, phase⟩ := (Option.any_eq_true _ _).mp ended
    have properly := ends c status atChild (by simpa using phase)
    cases change_of_step taken with
    | @collects c' status' _ atChild' ended' =>
      cases Option.some.inj (atChild.symm.trans atChild')
      rw [ended', beq_iff_eq, ChildPhase.ended.injEq] at phase
      subst phase
      refine .inl ⟨rfl, ⟨_, rfl, rfl⟩, ?_, pid, status', answered, rfl, properly⟩
      show o.reaps + 1 = 1
      omega
    | escapes fails => simp [Action.fails] at fails
    | dies signal => simp at signal

/-- And `wait` returns with the process known to have terminated. -/
theorem Attended.returns {phase : WorkerPhase} (attended : o.Attended answer (some .waiting))
    (waiter : o.waiter = .returning) (done : phase ≠ .waiting) (taken : o.step v .waitReturns = some o') :
    o'.Attended answer (some phase) := by
  rcases attended with ⟨_, collected⟩ | ⟨notYet, _⟩
  · refine (attended_done done).mpr ?_
    cases change_of_step taken with
    | waited =>
      obtain ⟨pid, status, _, atStatus, ended⟩ := collected.2.2
      refine ⟨rfl, collected, ?_⟩
      simp [atStatus, ended]
    | escapes fails => simp [Action.fails] at fails
    | dies signal => simp at signal
  · exact absurd waiter notYet

end SyncProcess

namespace SimpleManager

/-- What the workers and the children have come to, besides what the manager has done. -/
structure Attends (answers : Nat → WaitResult) (s : SimpleManager) : Prop where
  attended : ∀ (k : Nat) (o : SyncProcess), s.world.objects[k]? = some o →
    o.Attended (answers k) ((s.monitor.workers[k]?).map Worker.phase)
  spares : s.world.Each fun _ o => o.SparesChild
  holding : s.world.Each SyncProcess.Holding
  only : s.world.ExecOnlyAfterStart

variable {answers : Nat → WaitResult} {s s' : SimpleManager} {a : Action} {e : Effect}

/-- What happens in the world while no exception is on its way: objects are made as long as there are
no workers, destroyed when `start_impl` has returned, and waited for by their workers. -/
theorem world_action (effect : s.effect answers a = some e) (stays : e.place.unwound = false)
    {act : SyncWorld.Action} (atWorld : e.world = some act) :
    (∃ args pipe2, act = .construct args pipe2 ∧ s.place.added s.benchs.length = 0) ∨
    ∃ i b, act = .object i b ∧ (b = .destroy → s.place.left = true) ∧
      (b = .parent → s.place.left = true ∨ ∀ o : SyncProcess, s.world.objects[i]? = some o → o.call ≠ .destroyPipes []) ∧
      (b.ofWaiter = true → a = .worker i) := by
  cases a with
  | main pipe2 pid =>
    cases main_cases effect with
    | unwinds out => simp [out] at stays
    | constructs before => exact .inl ⟨_, _, (Option.some.inj atWorld).symm, before ▸ rfl⟩
    | prepareGoes before atI call | prepareReturns before atI call | startGoes before atI call
    | startReturns before atI call =>
      refine .inr ⟨_, .parent, (Option.some.inj atWorld).symm, by simp, fun _ => .inr ?_,
        by simp [SyncProcess.Action.ofWaiter]⟩
      intro o atI'
      cases Option.some.inj (atI.symm.trans atI')
      simp [call]
    | destroys before =>
      exact .inr ⟨_, .destroy, (Option.some.inj atWorld).symm, fun _ => before ▸ rfl, by simp,
        by simp [SyncProcess.Action.ofWaiter]⟩
    | destroyGoes before =>
      exact .inr ⟨_, .parent, (Option.some.inj atWorld).symm, by simp, fun _ => .inl (before ▸ rfl),
        by simp [SyncProcess.Action.ofWaiter]⟩
    | prepares | callsStart | kills =>
      exact .inr ⟨_, _, (Option.some.inj atWorld).symm, by simp, by simp, by simp [SyncProcess.Action.ofWaiter]⟩
    | _ => simp at atWorld
  | throws =>
    rcases throws_cases effect with out | ⟨i, _, rfl⟩ | ⟨i, _, rfl⟩
    · simp [out] at stays
    · simp at atWorld
    · exact .inr ⟨_, _, (Option.some.inj atWorld).symm, by simp, by simp, by simp [SyncProcess.Action.ofWaiter]⟩
  | execMonitor =>
    cases effect
    simp at atWorld
  | worker k =>
    obtain ⟨t, o, _, _, works⟩ := worker_cases effect
    cases works with
    | waits | collects | fails | returns =>
      exact .inr ⟨_, _, (Option.some.inj atWorld).symm, by simp, by simp, fun _ => rfl⟩
    | pushes | finishes => simp at atWorld
  | child i b =>
    obtain ⟨notParent, rfl⟩ := child_cases effect
    refine .inr ⟨i, b, (Option.some.inj atWorld).symm, ?_, ?_, ?_⟩
    · intro same
      subst same
      simp [SyncProcess.Action.ofParent] at notParent
    · intro same
      subst same
      simp [SyncProcess.Action.ofParent] at notParent
    · intro ofWaiter
      cases b <;> simp [SyncProcess.Action.ofParent, SyncProcess.Action.ofWaiter] at notParent ofWaiter

/-- Within `start`, the thread of the manager changes the workers only by adding one that waits. -/
theorem workers_of_main (effect : s.effect answers a = some e) (stays : e.place.unwound = false)
    (notWorker : ∀ k, a ≠ .worker k) {m' : ProcessMonitor}
    (monitor : optionalStep (ProcessMonitor.step answers) s.monitor e.monitor = some m') :
    m'.workers = s.monitor.workers ∨ ∃ t : Worker, t.phase = .waiting ∧ m'.workers = s.monitor.workers ++ [t] := by
  have rests : e.monitor.all ProcessMonitor.Action.sparesWorkers = true → m'.workers = s.monitor.workers :=
    fun spares => ProcessMonitor.owner_frame_optional spares monitor
  cases a with
  | main pipe2 pid =>
    cases main_cases effect with
    | unwinds out => simp [out] at stays
    | adds before atI new =>
      simp only [optionalStep, ProcessMonitor.step, ProcessMonitor.add, new, Option.ite_none_right_eq_some,
        Option.some.injEq] at monitor
      exact .inr ⟨_, rfl, by rw [← monitor.2]⟩
    | destroysMonitor before gone =>
      rcases gone with rfl | rfl
      · exact .inl (rests rfl)
      · exact .inl (rests rfl)
    | _ => exact .inl (rests rfl)
  | throws =>
    rcases throws_cases effect with out | ⟨i, _, rfl⟩ | ⟨i, _, rfl⟩
    · simp [out] at stays
    · exact .inl (rests rfl)
    · exact .inl (rests rfl)
  | execMonitor =>
    cases effect
    exact .inl (rests rfl)
  | worker k => exact absurd rfl (notWorker k)
  | child i b =>
    obtain ⟨_, rfl⟩ := child_cases effect
    exact .inl (rests rfl)

/-- When `start_impl` has returned, every worker is done with its process. -/
theorem Attends.settled (h : s.Attends answers) (sound : s.Sound answers) (staged : s.Staged)
    (left : s.place.left = true) {k : Nat} {o : SyncProcess} (atK : s.world.objects[k]? = some o) :
    o.Collected (answers k) ∧ o.terminated = true := by
  have destroyed := staged.watches.owner.destroyed left
  obtain ⟨objects, workers, _⟩ := staged.all (Place.launched_of_left left)
  have within := (List.getElem?_eq_some_iff.mp atK).1
  have bound : k < s.monitor.workers.length := by omega
  have atWorker := List.getElem?_eq_getElem bound
  have ready := sound.drains.of_destroyed destroyed atWorker
  have attended := h.attended k o atK
  rw [atWorker, Option.map_some] at attended
  cases phase : (s.monitor.workers[k]).phase with
  | ready result =>
    rw [phase] at attended
    exact attended.2
  | _ => simp [phase, WorkerPhase.isReady] at ready

/-- A worker goes on with its process. -/
theorem Attends.worker (h : s.Attends answers) (ends : s.world.Each fun _ o => o.EndsProperly) {k : Nat}
    (succeeds : ∃ both, answers k = .ok both) (effect : s.worker answers k = some e)
    (world : optionalStep SyncWorld.step s.world e.world = some s'.world)
    (monitor : optionalStep (ProcessMonitor.step answers) s.monitor e.monitor = some s'.monitor) :
    ∀ (j : Nat) (q : SyncProcess), s'.world.objects[j]? = some q →
      q.Attended (answers j) ((s'.monitor.workers[j]?).map Worker.phase) := by
  obtain ⟨t, o, atK, atO, works⟩ := worker_cases effect
  have attended := h.attended k o atO
  rw [atK, Option.map_some] at attended
  intro j q atJ
  -- what the worker did to its process and to its future, and that it left the others alone
  have moves : ∀ {act : SyncProcess.Action}, s.world.step (.object k act) = some s'.world →
      j = k ∧ o.step (s.world.view k) act = some q ∨ j ≠ k ∧ s.world.objects[j]? = some q := by
    intro act taken
    rcases SyncWorld.object_cases taken atJ with ⟨mine, o₀, atO', moved⟩ | other
    · cases Option.some.inj (atO.symm.trans atO')
      exact .inl ⟨mine, moved⟩
    · exact .inr other
  have rests : s.monitor = s'.monitor → j ≠ k → s.world.objects[j]? = some q →
      q.Attended (answers j) ((s'.monitor.workers[j]?).map Worker.phase) := by
    intro same _ atJ
    exact same ▸ h.attended j q atJ
  have resumes : ∀ {act}, act = .waitpid k ∨ act = .push k ∨ act = .finish k →
      s.monitor.step answers act = some s'.monitor → s.world = s'.world → t.phase ≠ .waiting →
      q.Attended (answers j) ((s'.monitor.workers[j]?).map Worker.phase) := by
    intro act mine taken same notWaiting
    obtain ⟨⟨phase', done, here⟩, others⟩ := ProcessMonitor.worker_moves mine atK taken
    by_cases other : j = k
    · subst other
      cases Option.some.inj (atO.symm.trans (same ▸ atJ))
      rw [here]
      exact (SyncProcess.attended_done done).mpr ((SyncProcess.attended_done notWaiting).mp attended)
    · rw [others j other]
      exact h.attended j q (same ▸ atJ)
  cases works with
  | waits phase waiter =>
    have same : s.monitor = s'.monitor := Option.some.inj monitor
    rcases moves world with ⟨rfl, moved⟩ | ⟨other, atJ⟩
    · rw [phase] at attended
      rw [← same, atK, Option.map_some, phase]
      exact attended.waits waiter moved
    · exact rests same other atJ
  | collects phase waiter answer mine ended =>
    have same : s.monitor = s'.monitor := Option.some.inj monitor
    rcases moves world with ⟨rfl, moved⟩ | ⟨other, atJ⟩
    · rw [phase] at attended
      rw [← same, atK, Option.map_some, phase]
      exact attended.collects waiter answer ended (ends j o atO) moved
    · exact rests same other atJ
  | fails phase waiter answer =>
    obtain ⟨both, succeeds⟩ := succeeds
    simp [answer] at succeeds
  | returns phase waiter =>
    obtain ⟨⟨phase', done, mine⟩, others⟩ := ProcessMonitor.worker_moves (.inl rfl) atK monitor
    rcases moves world with ⟨rfl, moved⟩ | ⟨other, atJ⟩
    · rw [phase] at attended
      rw [mine]
      exact attended.returns waiter done moved
    · rw [others j other]
      exact h.attended j q atJ
  | pushes phase => exact resumes (.inr (.inl rfl)) monitor (Option.some.inj world) (by simp [phase])
  | finishes phase => exact resumes (.inr (.inr rfl)) monitor (Option.some.inj world) (by simp [phase])

/-- An object that is made has no worker yet, and a process that is waited for is left alone by all but
its worker. -/
theorem Attends.others (h : s.Attends answers) (sound : s.Sound answers) (staged : s.Staged)
    (effect : s.effect answers a = some e) (stays : e.place.unwound = false) (notWorker : ∀ k, a ≠ .worker k)
    (world : optionalStep SyncWorld.step s.world e.world = some s'.world) {j : Nat} {q : SyncProcess}
    (atJ : s'.world.objects[j]? = some q) :
    q.Attended (answers j) ((s.monitor.workers[j]?).map Worker.phase) := by
  rcases optionalStep_cases world with ⟨_, same⟩ | ⟨act, atWorld, moved⟩
  · exact h.attended j q (same ▸ atJ)
  · rcases world_action effect stays atWorld with ⟨args, pipe2, rfl, early⟩ | ⟨i, b, rfl, _, _, waits⟩
    · have none : s.monitor.workers = [] := by
        have jobs := staged.watches.jobs
        rw [early, List.take_zero, List.map_nil] at jobs
        exact List.map_eq_nil_iff.mp jobs
      rcases SyncWorld.step_cases moved with ⟨_, _, ⟨⟩, _, same⟩ | ⟨_, ⟨⟩, _, same⟩ | ⟨_, _, _, _, ⟨⟩, _⟩ | ⟨⟨⟩, _⟩
      · exact h.attended j q (same ▸ atJ)
      · rw [same] at atJ
        rcases getElem?_append_singleton atJ with old | ⟨_, rfl⟩
        · exact h.attended j q old
        · rw [none]
          exact ⟨rfl, rfl, by rintro ⟨c, ⟨⟩, _⟩⟩
    · rcases SyncWorld.object_cases moved atJ with ⟨rfl, o, atI, moved⟩ | ⟨_, atJ⟩
      · refine (h.attended j o atI).others (sound.handshake j o atI) (h.spares j o atI) ?_ moved
        cases ofWaiter : b.ofWaiter with
        | false => rfl
        | true => exact absurd (waits ofWaiter) (notWorker j)
      · exact h.attended j q atJ

/-- Within `start_impl` the children keep the order of the handshake, and no destructor gets at them. -/
theorem Attends.orderly (h : s.Attends answers) (sound : s.Sound answers) (staged : s.Staged)
    (effect : s.effect answers a = some e) (stays : e.place.unwound = false)
    (world : optionalStep SyncWorld.step s.world e.world = some s'.world) :
    (s'.world.Each fun _ o => o.SparesChild) ∧ s'.world.Each SyncProcess.Holding ∧ s'.world.ExecOnlyAfterStart := by
  rcases optionalStep_cases world with ⟨_, same⟩ | ⟨act, atWorld, world⟩
  · exact same ▸ ⟨h.spares, h.holding, h.only⟩
  · have onWorld := world_action effect stays atWorld
    have orderly : s.world.Orderly act := by
      rcases onWorld with ⟨_, _, rfl, _⟩ | ⟨i, b, rfl, destroys, _⟩
      · trivial
      · by_cases gone : b = .destroy
        · subst gone
          intro o atI held
          obtain ⟨_, c, todo, atChild, phase, _⟩ := held
          obtain ⟨⟨c', atChild', reaped⟩, _⟩ := (h.settled sound staged (destroys rfl) atI).1
          cases Option.some.inj (atChild.symm.trans atChild')
          simp [phase] at reaped
        · cases b with
          | destroy => contradiction
          | _ => trivial
    refine ⟨?_, SyncWorld.holding_step sound.handshake h.holding orderly world, ?_⟩
    · refine h.spares.step world (fun _ _ => by simp [SyncProcess.SparesChild, SyncProcess.make]) ?_
        (fun _ _ _ _ spares => spares)
      intro i b o o' same atI spares moved
      rcases onWorld with ⟨_, _, rfl, _⟩ | ⟨_, _, rfl, _, parents, _⟩
      · simp at same
      · cases same
        refine spares.step (fun byParent call => ?_) moved
        rcases parents byParent with left | other
        · exact (h.settled sound staged left atI).2
        · exact absurd call (other o atI)
    · exact (SyncWorld.execOnlyAfterStart_step sound.handshake h.only world).mpr
        (SyncWorld.not_readsGoAtEof sound.handshake h.holding)

theorem Attends.step (h : s.Attends answers) (sound : s.Sound answers) (staged : s.Staged)
    (succeed : ∀ k < s.benchs.length, ∃ both, answers k = .ok both)
    (taken : s.step answers a = some s') (stays : s'.place.unwound = false) : s'.Attends answers := by
  obtain ⟨e, effect, world, monitor, _, _, place, _⟩ := step_cases taken
  rw [place] at stays
  obtain ⟨spares, holding, only⟩ := h.orderly sound staged effect stays world
  refine ⟨?_, spares, holding, only⟩
  by_cases worker : ∃ k, a = .worker k
  · obtain ⟨k, rfl⟩ := worker
    obtain ⟨t, o, _, atO, _⟩ := worker_cases effect
    have within := (List.getElem?_eq_some_iff.mp atO).1
    have made := staged.launches.made
    have bound := staged.launches.bound
    exact h.worker sound.ends (succeed k (by omega)) effect world monitor
  · simp only [not_exists] at worker
    intro j q atJ
    have before := h.others sound staged effect stays worker world atJ
    rcases workers_of_main effect stays worker monitor with same | ⟨t, waiting, added⟩
    · rw [same]
      exact before
    · rw [added, List.getElem?_append]
      split
      · exact before
      · rename_i beyond
        rw [List.getElem?_eq_none (by omega), Option.map_none] at before
        by_cases last : j = s.monitor.workers.length
        · subst last
          simp only [Nat.sub_self, List.getElem?_cons_zero, Option.map_some, waiting]
          exact .inr ⟨by simp [before.1], before.2⟩
        · rw [List.getElem?_eq_none (by simp; omega), Option.map_none]
          exact before

theorem attends {benchs : List (List String)} {pgid : Pid} {ts : List (Transition SimpleManager Action)}
    (run : Run (step answers) (init benchs pgid) ts s)
    (succeed : ∀ k < benchs.length, ∃ both, answers k = .ok both) :
    s.place.unwound = false → s.Attends answers := by
  induction run with
  | start =>
    intro _
    exact ⟨by simp [init, SyncWorld.init], SyncWorld.each_init pgid, SyncWorld.each_init pgid, SyncWorld.each_init pgid⟩
  | next previous taken ih =>
    intro stays
    have inside := not_unwound taken stays
    obtain ⟨rfl, sound, staged⟩ := staged previous
    exact (ih inside).step sound (staged inside) succeed taken stays

/-- What `wait_for_any` returned first is how the child of some benchmark ended. -/
theorem Attends.reported (h : s.Attends answers) (sound : s.Sound answers) (staged : s.Staged)
    (reported : s.monitor.returned ≠ []) : ∃ (k : Nat) (o : SyncProcess) (status : Int),
      s.world.objects[k]? = some o ∧ o.Reaped ∧ o.terminationStatus = some status ∧
        (o.pid, status) ∈ s.monitor.returned := by
  obtain ⟨⟨pid, status⟩, member⟩ := List.exists_mem_of_ne_nil _ reported
  obtain ⟨i, atI⟩ := List.mem_iff_getElem?.mp member
  obtain ⟨k, t, pushed, atK, rfl, outcome⟩ := sound.tracks.returned atI
  obtain ⟨kind, o, atO, isPid⟩ := staged.watches.worker atK
  have attended := h.attended k o atO
  have fits := sound.tracks.workers atK
  have notWaiting : t.phase ≠ .waiting := by
    intro waiting
    rw [Worker.Fits, waiting] at fits
    exact fits (List.mem_of_getElem? pushed)
  rw [atK, Option.map_some, SyncProcess.attended_done notWaiting] at attended
  obtain ⟨_, ⟨reaped, _, pid, status', answered, atStatus, _⟩, _⟩ := attended
  rw [Worker.outcome, kind, answered, waitForProcess, Except.ok.injEq] at outcome
  subst outcome
  exact ⟨k, o, status', atO, reaped, atStatus, isPid ▸ member⟩

/-- In a run in which the waits succeed and nothing throws, no command is executed before everything
is prepared; the end is announced and signals are sent only after `wait_for_any` has returned how a
benchmark ended; and once `start_impl` has returned every child is reaped, by one `waitpid`, so that
the destructors neither kill nor wait. -/
theorem run_in_order {benchs : List (List String)} {pgid : Pid} {ts : List (Transition SimpleManager Action)}
    (run : Run (step answers) (init benchs pgid) ts s)
    (succeed : ∀ k < benchs.length, ∃ both, answers k = .ok both) (noThrow : s.place.unwound = false) :
    (∀ (i : Nat) (o : SyncProcess), s.world.objects[i]? = some o → o.AtExecvp →
      s.world.objects.length = benchs.length ∧ s.monitor.workers.length = benchs.length ∧
        (s.world.Each fun _ o => o.prepared = true) ∧ s.execMonitor.prepared = true) ∧
    (s.executionEnded = true ∨ s.signals ≠ [] → ∃ (k : Nat) (o : SyncProcess) (status : Int),
      s.world.objects[k]? = some o ∧ o.Reaped ∧ o.terminationStatus = some status ∧
        (o.pid, status) ∈ s.monitor.returned) ∧
    (s.place.left = true → s.world.objects.length = benchs.length ∧
      s.world.Each fun _ o => o.Reaped ∧ o.reaps = 1 ∧ o.terminated = true ∧ o.SparesChild) := by
  obtain ⟨rfl, sound, staged⟩ := staged run
  have inside := staged noThrow
  have attends := attends run succeed noThrow
  refine ⟨fun i o atI atExecvp => ?_, fun late => ?_, fun left => ?_⟩
  · have written := attends.only i o atI atExecvp
    have launched : s.place.launched = true := by
      by_contra notYet
      have unstarted := inside.launches.unstarted (by simpa using notYet) i o atI
      simp [unstarted.1] at written
    exact inside.all launched
  · exact attends.reported sound inside (inside.watches.owner.reported (inside.late late))
  · refine ⟨(inside.all (Place.launched_of_left left)).1, fun i o atI => ?_⟩
    obtain ⟨⟨reaped, once, _⟩, terminated⟩ := attends.settled sound inside left atI
    exact ⟨reaped, once, terminated, attends.spares i o atI⟩

/-- Two benchmarks, from their preparation to the return of `start_impl`. The second still runs when the first
has ended, and the clean-up kills it. -/
theorem run_in_order_two : ∃ ts s,
    Run (step fun k => .ok (k + 5, if k = 0 then 0 else sigkilled)) (init [["sleep", "5"], ["yes"]] 1) ts s ∧
      s.place = .returned ∧ s.signals = [6] ∧ s.world.objects.length = 2 ∧
        s.world.Each fun _ o => o.Reaped ∧ o.reaps = 1 ∧ o.terminated = true ∧ o.SparesChild := by
  let answers (k : Nat) : WaitResult := .ok (k + 5, if k = 0 then 0 else sigkilled)
  have succeed : ∀ k < 2, ∃ both, answers k = .ok both := fun _ _ => ⟨_, rfl⟩
  obtain ⟨ts, s, run, _, test⟩ := run_of_exec_any (step answers) (init [["sleep", "5"], ["yes"]] 1)
    (launch [5, 6] ++ [.child 1 .child, .child 1 (.execvp none)] ++ exits 0 ++ List.replicate 3 (.main true 0) ++
      [.execMonitor] ++ List.replicate 5 (.main true 0) ++ List.replicate 5 (.worker 1) ++
      List.replicate 5 (.main true 0))
    (fun s => s.place = .returned ∧ s.signals = [6]) (by decide +kernel)
  obtain ⟨returned, killed⟩ := of_decide_eq_true test
  have order := run_in_order run succeed (by rw [returned]; rfl)
  exact ⟨ts, s, run, returned, killed, order.2.2 (by rw [returned]; rfl)⟩

end SimpleManager

end Aser
