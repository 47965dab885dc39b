import Aser.Util.SyncRelease

namespace Aser

open Library

theorem Child.dies_of_dead {c : Child} (dead : c.running = false) (status : Int) : c.dies status = c := by
  rw [dies, dead]
  rfl

namespace SyncProcess

/-- A `waitpid` has returned the child. -/
def Reaped (o : SyncProcess) : Prop := ∃ c, o.child = some c ∧ c.phase = .reaped

/-- `start` was not called. -/
def Unstarted (o : SyncProcess) : Prop := o.goWritten = false ∧ ∀ todo, o.call ≠ .start todo

/-- The status of a child that ended says that it exited or that a signal killed it. -/
def EndsProperly (o : SyncProcess) : Prop :=
  ∀ c status, o.child = some c → c.phase = .ended status → (wifExited status || wifSignaled status) = true

/-- The destructor is not at the child. -/
def SparesChild (o : SyncProcess) : Prop := ∀ killed, o.call ≠ .destroyProcess killed

/-- The steps of a thread in `sync_process::wait`. -/
def Action.ofWaiter : Action → Bool
  | .wait | .waitpid | .waitThrows | .waitReturns => true
  | _ => false

variable {v : View} {o o' : SyncProcess} {a : Action}

theorem prepared_kept (prepared : o.prepared = true) (taken : o.step v a = some o') :
    o'.prepared = true := by
  cases change_of_step taken with
  | parentDoes next done =>
    obtain ⟨ready, rfl⟩ := perform_frame done
    exact prepared
  | childDoes atChild phase done =>
    obtain ⟨ready, rfl⟩ := perform_frame done
    exact prepared
  | prepared => rfl
  | _ => exact prepared

/-- An object has at most one child, so at most one pid. -/
theorem pid_kept (notPrepare : ∀ pathExists fork, a ≠ .prepare pathExists fork)
    (taken : o.step v a = some o') : o'.pid = o.pid := by
  cases change_of_step taken with
  | refused => rfl
  | forked => exact absurd rfl (notPrepare _ _)
  | parentDoes next done =>
    obtain ⟨ready, rfl⟩ := perform_frame done
    rfl
  | childDoes atChild phase done =>
    obtain ⟨ready, rfl⟩ := perform_frame done
    rfl
  | _ => rfl

theorem pid_kept_of_started (started : o.started = true) (taken : o.step v a = some o') : o'.pid = o.pid := by
  cases a with
  | prepare pathExists fork =>
    cases change_of_step taken with
    | refused => rfl
    | forked idle unstarted may => simp [unstarted] at started
    | escapes fails => simp [Action.fails] at fails
    | dies signal => simp at signal
  | _ => exact pid_kept (by simp) taken

theorem started_kept (started : o.started = true) (taken : o.step v a = some o') : o'.started = true := by
  rw [SyncProcess.started, pid_kept_of_started started taken]
  exact started

/-- What is to be executed never changes. -/
theorem args_kept (taken : o.step v a = some o') : o'.args = o.args := by
  cases change_of_step taken with
  | parentDoes next done =>
    obtain ⟨ready, rfl⟩ := perform_frame done
    rfl
  | childDoes atChild phase done =>
    obtain ⟨ready, pgid, rfl⟩ := perform_child done atChild
    rfl
  | _ => rfl

theorem Unstarted.step (unstarted : o.Unstarted) (h : o.Handshake) (notStart : a ≠ .start)
    (taken : o.step v a = some o') : o'.Unstarted := by
  obtain ⟨unwritten, notStarting⟩ := unstarted
  cases change_of_step taken with
  | starts => contradiction
  | parentDoes next done =>
    have fits := h.calls
    obtain ⟨ready, rfl⟩ := perform_frame done
    have written : ∀ {op : SyncOp} {l : List SyncOp}, op ∈ l → SyncOp.write .goPipe ∉ l →
        (o.goWritten || op == .write .goPipe) = false := by
      intro op l member other
      rw [unwritten, Bool.false_or, beq_eq_false_iff_ne]
      exact fun same => other (same ▸ member)
    rcases ParentCall.cases_of_next next with ⟨todo, before, rfl⟩ | ⟨todo, before, _⟩ | ⟨todo, before, rfl⟩
    · rw [before] at fits
      exact ⟨written (List.cons_subset.mp fits.2).1 (by decide), by simp⟩
    · exact absurd before (notStarting _)
    · rw [before] at fits
      exact ⟨written (List.cons_subset.mp fits).1 (by decide), by simp⟩
  | childDoes atChild phase done =>
    obtain ⟨ready, rfl⟩ := perform_frame done
    exact ⟨unwritten, notStarting⟩
  | pipesDestroyed =>
    refine ⟨unwritten, fun todo => ?_⟩
    dsimp only
    split <;> simp
  | forked | destroys | parentFails | parentThrows | swallows | prepared | started | killed | reaped =>
    exact ⟨unwritten, by simp⟩
  | refused | waits | collects | waitFails | waited | executes | childFails | escapes | dies =>
    exact ⟨unwritten, notStarting⟩

/-- A child that ends does so with a status that `process::wait` recognises. -/
theorem EndsProperly.step (ends : o.EndsProperly) (taken : o.step v a = some o') : o'.EndsProperly := by
  have died : ∀ {status : Int}, (wifExited status || wifSignaled status) = true →
      ∀ c s, o.child.map (·.dies status) = some c → c.phase = .ended s → (wifExited s || wifSignaled s) = true := by
    intro status properly c s atChild phase
    obtain ⟨c₀, before, rfl⟩ := Option.map_eq_some_iff.mp atChild
    rcases c₀.dies_cases status with ended | ⟨_, same⟩
    · rw [ended] at phase
      cases phase
      exact properly
    · exact ends c₀ s before (same ▸ phase)
  cases change_of_step taken with
  | forked | reaped | collects | executes | childFails | escapes => rintro _ _ ⟨⟩ ⟨⟩
  | parentDoes next done =>
    intro c s atChild phase
    obtain ⟨c₀, pgid, before, rfl⟩ := child_before done atChild
    exact ends c₀ s before phase
  | childDoes atChild phase done =>
    obtain ⟨ready, pgid, rfl⟩ := perform_child done atChild
    rintro _ _ ⟨⟩ ⟨⟩
  | killed => exact died rfl
  | dies _ properly => exact died properly
  | _ => exact ends

/-- A child that was reaped stays what it is, and nobody reaps it again. -/
theorem Reaped.step (reaped : o.Reaped) (h : o.Handshake) (taken : o.step v a = some o') :
    o'.Reaped ∧ o'.reaps = o.reaps ∧ o'.terminationStatus = o.terminationStatus ∧
      (o.terminated = true → o'.terminated = true) := by
  obtain ⟨c, atChild, phase⟩ := reaped
  have dead : ∀ status, o.child.map (·.dies status) = some c := by
    intro status
    rw [atChild, Option.map_some, c.dies_of_dead (by simp [Child.running, phase])]
  have other : ∀ {c' : Child}, o.child = some c' → c'.phase ≠ .reaped → False := by
    intro c' atChild' not
    cases Option.some.inj (atChild.symm.trans atChild')
    exact not phase
  cases change_of_step taken with
  | forked idle unstarted may =>
    have gone := h.forked.symm.trans unstarted
    simp [atChild] at gone
  | parentDoes next done =>
    obtain ⟨ready, rfl⟩ := perform_frame done
    exact ⟨⟨_, by rw [atChild, Option.map_some], by simpa using phase⟩, rfl, rfl, id⟩
  | killed => exact ⟨⟨c, dead _, phase⟩, rfl, rfl, id⟩
  | dies => exact ⟨⟨c, dead _, phase⟩, rfl, rfl, id⟩
  | reaped _ atChild' ended => exact (other atChild' (by simp [ended])).elim
  | collects _ atChild' ended => exact (other atChild' (by simp [ended])).elim
  | childDoes atChild' phase' => exact (other atChild' (by simp [phase'])).elim
  | executes atChild' phase' => exact (other atChild' (by simp [phase'])).elim
  | childFails atChild' phase' => exact (other atChild' (by simp [phase'])).elim
  | escapes _ atChild' running =>
    refine (other atChild' fun gone => ?_).elim
    simp [Child.running, gone] at running
  | waited => exact ⟨⟨c, atChild, phase⟩, rfl, rfl, fun terminated => by simp [terminated]⟩
  | _ => exact ⟨⟨c, atChild, phase⟩, rfl, rfl, id⟩

/-- Only a `waitpid` reaps a child: that of a waiter, or that of the destructor. -/
theorem reaped_of_step (reaped : o'.Reaped) (taken : o.step v a = some o') :
    o.Reaped ∨ a = .waitpid ∨ a = .parent ∧ o.call = .destroyProcess true := by
  obtain ⟨c, atChild, phase⟩ := reaped
  have died : ∀ {status : Int}, o.child.map (·.dies status) = some c → o.Reaped := by
    intro status atChild
    obtain ⟨c₀, before, rfl⟩ := Option.map_eq_some_iff.mp atChild
    rcases c₀.dies_cases status with ended | ⟨_, same⟩
    · rw [ended] at phase
      cases phase
    · exact ⟨c₀, before, same ▸ phase⟩
  cases change_of_step taken with
  | forked | executes | childFails | escapes =>
    cases atChild
    cases phase
  | childDoes atChild' phase' done =>
    obtain ⟨ready, pgid, rfl⟩ := perform_child done atChild'
    cases atChild
    cases phase
  | parentDoes next done =>
    obtain ⟨c₀, pgid, before, rfl⟩ := child_before done atChild
    exact .inl ⟨c₀, before, phase⟩
  | collects => exact .inr (.inl rfl)
  | reaped call => exact .inr (.inr ⟨rfl, call⟩)
  | killed => exact .inl (died atChild)
  | dies => exact .inl (died atChild)
  | _ => exact .inl ⟨c, atChild, phase⟩

/-- What a thread in `wait` works on is left alone by everybody else. -/
theorem wait_frame (others : a.ofWaiter = false) (spares : o.SparesChild) (taken : o.step v a = some o') :
    o'.waiter = o.waiter ∧ o'.reaps = o.reaps ∧ o'.terminated = o.terminated ∧
      o'.terminationStatus = o.terminationStatus := by
  cases change_of_step taken with
  | waits | collects | waitFails | waited => simp [Action.ofWaiter] at others
  | reaped call => exact absurd call (spares true)
  | parentDoes next done =>
    obtain ⟨ready, rfl⟩ := perform_frame done
    exact ⟨rfl, rfl, rfl, rfl⟩
  | childDoes atChild phase done =>
    obtain ⟨ready, rfl⟩ := perform_frame done
    exact ⟨rfl, rfl, rfl, rfl⟩
  | _ => exact ⟨rfl, rfl, rfl, rfl⟩

/-- The destructor comes to the child only if it is not known to have terminated. -/
theorem SparesChild.step (spares : o.SparesChild)
    (terminated : a = .parent → o.call = .destroyPipes [] → o.terminated = true)
    (taken : o.step v a = some o') : o'.SparesChild := by
  cases change_of_step taken with
  | parentDoes next done =>
    intro killed
    rcases ParentCall.cases_of_next next with ⟨_, _, rfl⟩ | ⟨_, _, rfl⟩ | ⟨_, _, rfl⟩
    all_goals simp
  | childDoes atChild phase done =>
    obtain ⟨ready, rfl⟩ := perform_frame done
    exact spares
  | pipesDestroyed call =>
    intro killed
    simp [terminated rfl call]
  | killed call => exact absurd call (spares false)
  | reaped call => exact absurd call (spares true)
  | forked | starts | destroys | parentFails | parentThrows | swallows | prepared | started =>
    exact fun killed => by simp
  | _ => exact spares

/-- What a child does, a thread in `wait` or a system call that fails in the parent puts no child on
hold, and closes nothing in the parent. -/
theorem OnHold.of_step (held : o'.OnHold)
    (spares : a.ofParent = false ∨ a.ofWaiter = true ∨ a = .parentThrows) (taken : o.step v a = some o') :
    o.OnHold ∧ o'.fds = o.fds := by
  obtain ⟨unwritten, c', todo, atChild', phase, left⟩ := held
  cases change_of_step taken with
  | parentThrows | swallows | waits | waitFails | waited =>
    exact ⟨⟨unwritten, c', todo, atChild', phase, left⟩, rfl⟩
  | collects | executes | childFails | escapes =>
    cases atChild'
    cases phase
  | childDoes atChild before done =>
    obtain ⟨ready, pgid, rfl⟩ := perform_child done atChild
    exact ⟨⟨unwritten, _, _, atChild, before, by simp⟩, rfl⟩
  | dies => exact absurd phase (map_dies_not_waiting atChild')
  | _ => simp [Action.ofParent, Action.ofWaiter] at spares

/-- A child on its way to `execvp` is forked in this step, or was on that way before, where it may have
made one of its calls meanwhile. -/
theorem waiting_of_step {c' : Child} {todo : List SyncOp} (atChild' : o'.child = some c')
    (phase' : c'.phase = .waitForParent todo) (taken : o.step v a = some o') :
    (∃ pid, a = .prepare true (.child pid) ∧ todo = SyncOp.waitForParent ∧ c'.fds = v.fds ∧ o.started = false) ∨
    ((∃ c, o.child = some c ∧ c.phase = c'.phase ∧ c.fds = c'.fds) ∧ ∀ pid, a ≠ .prepare true (.child pid)) ∨
    ∃ c op o₁, a = .child ∧ o.child = some c ∧ c.phase = .waitForParent (op :: todo) ∧
      o.perform v c.fds op = some (.ok (c'.fds, o₁)) := by
  cases change_of_step taken with
  | refused refuses =>
    refine .inr (.inl ⟨⟨c', atChild', rfl, rfl⟩, ?_⟩)
    rintro pid ⟨⟩
    exact refuses pid rfl rfl
  | forked idle unstarted may =>
    cases atChild'
    cases phase'
    exact .inl ⟨_, rfl, rfl, rfl, unstarted⟩
  | parentDoes next done =>
    obtain ⟨c, pgid, atChild, rfl⟩ := child_before done atChild'
    exact .inr (.inl ⟨⟨c, atChild, rfl, rfl⟩, by simp⟩)
  | reaped | collects | executes | childFails | escapes =>
    cases atChild'
    cases phase'
  | childDoes atChild phase done =>
    have performed := done
    obtain ⟨ready, pgid, rfl⟩ := perform_child done atChild
    cases atChild'
    cases phase'
    exact .inr (.inr ⟨_, _, _, rfl, atChild, phase, performed⟩)
  | killed => exact absurd phase' (map_dies_not_waiting atChild')
  | dies => exact absurd phase' (map_dies_not_waiting atChild')
  | _ => exact .inr (.inl ⟨⟨c', atChild', rfl, rfl⟩, by simp⟩)

end SyncProcess

namespace SyncWorld

variable {w w' : SyncWorld} {i : Nat} {act : SyncProcess.Action}

theorem object_step (taken : w.step (.object i act) = some w') : ∃ o o', w.objects[i]? = some o ∧
    o.step (w.view i) act = some o' ∧ w' = { w with objects := w.objects.set i o' } := by
  rcases step_cases taken with ⟨_, _, ⟨⟩, _⟩ | ⟨_, ⟨⟩, _⟩ | ⟨_, _, o, o', ⟨⟩, atI, _, moved, same⟩ | ⟨⟨⟩, _⟩
  exact ⟨o, o', atI, moved, same⟩

/-- A step of object `i` leaves the others alone. -/
theorem object_set (taken : w.step (.object i act) = some w') : ∃ o o', w.objects[i]? = some o ∧
    o.step (w.view i) act = some o' ∧ w'.objects[i]? = some o' ∧ ∀ j, j ≠ i → w'.objects[j]? = w.objects[j]? := by
  obtain ⟨o, o', atI, moved, rfl⟩ := object_step taken
  have within := (List.getElem?_eq_some_iff.mp atI).1
  exact ⟨o, o', atI, moved, List.getElem?_set_self within, fun j other => List.getElem?_set_ne (Ne.symm other)⟩

/-- After a step of object `i`, an object is that one after its step, or another one as it was. -/
theorem object_cases (taken : w.step (.object i act) = some w') {j : Nat} {q : SyncProcess}
    (atJ : w'.objects[j]? = some q) :
    (j = i ∧ ∃ o, w.objects[i]? = some o ∧ o.step (w.view i) act = some q) ∨
      (j ≠ i ∧ w.objects[j]? = some q) := by
  obtain ⟨o, o', atI, moved, atI', others⟩ := object_set taken
  by_cases mine : j = i
  · subst mine
    exact .inl ⟨rfl, o, atI, Option.some.inj (atI'.symm.trans atJ) ▸ moved⟩
  · exact .inr ⟨mine, others j mine ▸ atJ⟩

/-- Where an object comes from that is there after a step: something happened to it, it was made, or it
was left alone, but for its descriptors when the parent ended. -/
theorem object_of_step {a : Action} (taken : w.step a = some w') {j : Nat} {q : SyncProcess}
    (atJ : w'.objects[j]? = some q) :
    (∃ act o, a = .object j act ∧ w.objects[j]? = some o ∧ o.step (w.view j) act = some q) ∨
    (∀ act, a ≠ .object j act) ∧ ((w.objects[j]? = none ∧ ∃ args, q = .make j args) ∨
      ∃ o, w.objects[j]? = some o ∧ (q = o ∨ q = { o with fds := [] })) := by
  rcases step_cases taken with ⟨_, _, rfl, _, rfl⟩ | ⟨args, rfl, _, rfl⟩ |
    ⟨i, act, _, _, rfl, _, _, _, _⟩ | ⟨rfl, _, rfl⟩
  · exact .inr ⟨by simp, .inr ⟨q, atJ, .inl rfl⟩⟩
  · rcases getElem?_append_singleton atJ with old | ⟨rfl, rfl⟩
    · exact .inr ⟨by simp, .inr ⟨q, old, .inl rfl⟩⟩
    · exact .inr ⟨by simp, .inl ⟨by simp, args, rfl⟩⟩
  · rcases object_cases taken atJ with ⟨rfl, o, atI, moved⟩ | ⟨other, atJ⟩
    · exact .inl ⟨act, o, rfl, atI, moved⟩
    · refine .inr ⟨?_, .inr ⟨q, atJ, .inl rfl⟩⟩
      rintro act ⟨⟩
      exact other rfl
  · simp only [List.getElem?_map, Option.map_eq_some_iff] at atJ
    obtain ⟨o, atJ, rfl⟩ := atJ
    exact .inr ⟨by simp, .inr ⟨o, atJ, .inr rfl⟩⟩

/-- An object that was there is there after a step. -/
theorem object_stays {a : Action} (taken : w.step a = some w') {j : Nat} {o : SyncProcess}
    (atJ : w.objects[j]? = some o) : ∃ q, w'.objects[j]? = some q := by
  have within := (List.getElem?_eq_some_iff.mp atJ).1
  have enough : w.objects.length ≤ w'.objects.length := by
    rcases step_cases taken with ⟨_, _, _, _, rfl⟩ | ⟨_, _, _, rfl⟩ | ⟨_, _, _, _, _, _, _, _, rfl⟩ | ⟨_, _, rfl⟩
    · exact Nat.le_refl _
    · simp
    · simp
    · simp
  exact ⟨_, List.getElem?_eq_getElem (Nat.lt_of_lt_of_le within enough)⟩

/-- A process that is prepared stays so and keeps its pid. -/
theorem prepared_stays {a : Action} (taken : w.step a = some w') {o : SyncProcess} (atI : w.objects[i]? = some o)
    (prepared : o.prepared = true) (started : o.started = true) :
    ∃ q, w'.objects[i]? = some q ∧ q.prepared = true ∧ q.pid = o.pid := by
  obtain ⟨q, atI'⟩ := object_stays taken atI
  refine ⟨q, atI', ?_⟩
  rcases object_of_step taken atI' with ⟨act, o', _, before, moved⟩ | ⟨_, ⟨none, _⟩ | ⟨o', before, same⟩⟩
  · cases Option.some.inj (atI.symm.trans before)
    exact ⟨SyncProcess.prepared_kept prepared moved, SyncProcess.pid_kept_of_started started moved⟩
  · simp [none] at atI
  · cases Option.some.inj (atI.symm.trans before)
    rcases same with rfl | rfl
    · exact ⟨prepared, rfl⟩
    · exact ⟨prepared, rfl⟩

/-- The processes stay, and stay prepared. -/
theorem objects_kept (taken : w.step (.object i act) = some w') : w'.objects.length = w.objects.length ∧
    ∀ (j : Nat) (q' : SyncProcess), w'.objects[j]? = some q' →
      ∃ q : SyncProcess, w.objects[j]? = some q ∧ (q.prepared = true → q'.prepared = true) := by
  refine ⟨?_, fun j q' atJ => ?_⟩
  · obtain ⟨o, o', _, _, rfl⟩ := object_step taken
    exact List.length_set
  · rcases object_cases taken atJ with ⟨rfl, o, atI, moved⟩ | ⟨_, atJ⟩
    · exact ⟨o, atI, fun prepared => SyncProcess.prepared_kept prepared moved⟩
    · exact ⟨q', atJ, id⟩

theorem pids_kept (notPrepare : ∀ pathExists fork, act ≠ .prepare pathExists fork)
    (taken : w.step (.object i act) = some w') : w'.objects.map (·.pid) = w.objects.map (·.pid) := by
  obtain ⟨o, o', atI, moved, rfl⟩ := object_step taken
  apply List.ext_getElem?
  intro j
  rw [List.getElem?_map, List.getElem?_map, List.getElem?_set]
  split
  · rename_i mine
    subst mine
    rw [if_pos (List.getElem?_eq_some_iff.mp atI).1, atI]
    exact congrArg some (SyncProcess.pid_kept notPrepare moved)
  · rfl

theorem unstarted_kept (each : w.Each fun _ o => o.Handshake) (unstarted : w.Each fun _ o => o.Unstarted)
    (notStart : act ≠ .start) (taken : w.step (.object i act) = some w') :
    w'.Each fun _ o => o.Unstarted := by
  intro j q atJ
  rcases object_cases taken atJ with ⟨rfl, o, atI, moved⟩ | ⟨_, atJ⟩
  · exact (unstarted j o atI).step (each j o atI) notStart moved
  · exact unstarted j q atJ

theorem endsProperly_step {a : Action} (each : w.Each fun _ o => o.EndsProperly)
    (taken : w.step a = some w') : w'.Each fun _ o => o.EndsProperly :=
  each.step taken (fun _ _ => by rintro _ _ ⟨⟩) (fun _ _ _ _ _ _ ends moved => ends.step moved)
    (fun _ _ _ _ ends => ends)

end SyncWorld

end Aser
