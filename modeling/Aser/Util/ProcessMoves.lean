import Aser.Util.ProcessOwnership

namespace Aser.ProcessObjects

open Library

/-- What every run keeps, moves or not: only started objects ever terminate, and the statuses in
the table are those of children that have ended for good. -/
structure Sane (s : ProcessObjects) : Prop where
  unstarted : ∀ {o p}, s.object o = some p → p.started = false → p.terminated = false
  ended : s.kernel.Ended

theorem Sane.destroy {s : ProcessObjects} (sane : s.Sane) (p : Process) (kill waitpid : Option Int) :
    (p.destroy kill waitpid s.kernel).Ended := by
  unfold Process.destroy
  split
  · have killed := sane.ended.kill kill p.pid
    split
    · rename_i same
      rwa [same] at killed
    · rename_i same
      rw [same] at killed
      split
      · rename_i answer
        exact killed.waitpid answer
      · exact killed
  · exact sane.ended

theorem Sane.put {s : ProcessObjects} (sane : s.Sane) {o : Nat} {p : Process} {q : Option Process}
    {k : ProcessTable} (alive : s.object o = some p)
    (new : ∀ p', q = some p' → p'.started = false → p'.terminated = false) (ended : k.Ended) :
    Sane { s.put o q with kernel := k } where
  unstarted {j p'} atJ := by
    rw [object_kernel, object_put alive] at atJ
    split at atJ
    · exact new p' atJ
    · exact sane.unstarted atJ
  ended := ended

theorem Sane.append {s : ProcessObjects} (sane : s.Sane) {p : Process}
    (new : p.started = false → p.terminated = false) :
    Sane { s with objects := s.objects ++ [some p] } where
  unstarted {j p'} atJ := by
    rw [object_append s.objects s.kernel] at atJ
    split at atJ
    · cases Option.some.inj atJ
      exact new
    · exact sane.unstarted atJ
  ended := sane.ended

theorem Sane.step {s s' : ProcessObjects} {a : Action} (sane : s.Sane)
    (taken : s.step a = some s') : s'.Sane := by
  cases change_of_step taken with
  | refused => exact sane
  | constructs made => exact sane.append (fun _ => (Process.make_fresh made).2)
  | starts alive unstarted =>
    refine sane.put alive ?_ ?_
    · rintro _ ⟨⟩ _
      rw [Process.start_terminated]
      exact sane.unstarted alive unstarted
    · split
      · exact sane.ended.insert (by simp) _
      · exact sane.ended
  | @waits o waitpid p result k alive holds answer =>
    refine sane.put alive ?_ (sane.ended.waitpid answer)
    rintro _ ⟨⟩ unstarted
    have same : (p.wait result).2.pid = p.pid := by unfold Process.wait; split <;> rfl
    simp only [Process.holdsChild, Process.started, same, Bool.and_eq_true] at holds unstarted
    simp [unstarted] at holds
  | kills =>
    refine ⟨sane.unstarted, ?_⟩
    simp only [Process.killProcess]
    split
    · exact sane.ended
    · exact sane.ended.kill _ _
  | @moves source p alive =>
    have known := sane.unstarted alive
    exact (sane.put (q := some p.movedFrom) alive (by rintro _ ⟨⟩; exact known) sane.ended).append known
  | @assigns target source p q alive alive' =>
    have known := sane.unstarted alive
    have first : Sane (s.put target p) := sane.put alive' (by rintro _ ⟨⟩; exact known) sane.ended
    exact first.put (object_put_source alive alive') (by rintro _ ⟨⟩; exact known) sane.ended
  | destroys alive => exact sane.put alive (by simp) (sane.destroy _ _ _)
  | ends ended => exact ⟨sane.unstarted, sane.ended.childEnds ended⟩

/-- Children and owners match one to one. -/
def Matched (s : ProcessObjects) : Prop := Exclusive s.Holds (· ∈ s.kernel.pids)

variable {s s' : ProcessObjects} {o : Nat} {p : Process}

theorem holds_put (alive : s.object o = some p) (q : Option Process) (k : ProcessTable) (j : Nat)
    (pid : Pid) : Holds { s.put o q with kernel := k } j pid ↔
      if j = o then q.bind Process.held = some pid else s.Holds j pid := by
  unfold Holds
  rw [object_kernel, object_put alive]
  split <;> rfl

theorem holds_append (j : Nat) (pid : Pid) (free : p.held = none) :
    Holds { s with objects := s.objects ++ [some p] } j pid ↔ s.Holds j pid := by
  unfold Holds
  rw [object_append s.objects s.kernel]
  split
  · rename_i last
    have beyond : s.object j = none := by simp [object, last]
    have same : s.object j = (ProcessObjects.mk s.objects s.kernel).object j := rfl
    simp [free, beyond]
  · rfl

/-- Replacing an object that owns nothing by one that owns nothing changes no ownership. -/
theorem holds_put_free {q : Option Process} (alive : s.object o = some p) (free : p.held = none)
    (free' : q.bind Process.held = none) (k : ProcessTable) (j : Nat) (pid : Pid) :
    Holds { s.put o q with kernel := k } j pid ↔ s.Holds j pid := by
  rw [holds_put alive]
  split
  · rename_i here
    simp [Holds, here, alive, free, free']
  · rfl

theorem holds_self (alive : s.object o = some p) {pid : Pid} : s.Holds o pid ↔ p.held = some pid := by
  simp [Holds, alive]

theorem Matched.construct (m : s.Matched) (free : p.held = none) :
    Matched { s with objects := s.objects ++ [some p] } :=
  Exclusive.congr m (fun _ _ => holds_append _ _ free) (fun _ => Iff.rfl)

theorem Matched.start (m : s.Matched) (sane : s.Sane) {pathExists : Bool} {fork : ForkResult}
    (alive : s.object o = some p) (unstarted : p.started = false) (may : s.kernel.mayFork fork = true) :
    Matched { s.put o (p.start pathExists fork).2 with
      kernel :=
        if (p.start pathExists fork).2.started then s.kernel.fork (p.start pathExists fork).2.pid else s.kernel } := by
  have free := held_of_not_started unstarted
  by_cases forked : (p.start pathExists fork).2.started
  · have child := Process.fork_of_started unstarted forked
    have fresh : (p.start pathExists fork).2.pid ∉ s.kernel.pids := by
      rw [child] at may
      simpa [ProcessTable.mayFork] using (Bool.and_eq_true_iff.mp may).2
    have owns : (p.start pathExists fork).2.held = some (p.start pathExists fork).2.pid := by
      simp [Process.held, Process.holdsChild, forked, sane.unstarted alive unstarted]
    refine Exclusive.acquire (i := o) m fresh (fun j pid => ?_) (fun pid => ?_)
    · rw [holds_put alive]
      split
      · rename_i here
        simp only [Option.bind_some, owns, Option.some.injEq, here, holds_self alive, free]
        simp [eq_comm]
      · rename_i elsewhere
        simp [elsewhere]
    · simp only [forked, if_true, ProcessTable.mem_pids_fork]
      exact or_comm
  · have still : (p.start pathExists fork).2.held = none := by
      simp [Process.held, Process.holdsChild, forked]
    refine Exclusive.congr m (fun j pid => holds_put_free (q := some _) alive free still _ j pid) (fun pid => ?_)
    simp [forked]

/-- A `wait` that fails leaves the child with its owner. -/
theorem Matched.wait (m : s.Matched) (sane : s.Sane) {waitpid : Option Int} {result : WaitResult}
    {kernel : ProcessTable} (alive : s.object o = some p) (holds : p.holdsChild = true)
    (answer : s.kernel.waitpid waitpid p.pid = some (result, kernel)) :
    Matched { s.put o (p.wait result).2 with kernel } := by
  have owns : p.held = some p.pid := by rw [Process.held, if_pos holds]
  have held := (holds_self alive).mpr owns
  rcases ProcessTable.waitpid_child (m.present held) answer with
    ⟨errno, _, rfl, rfl⟩ | ⟨status, _, ended, rfl, _, left⟩
  · refine Exclusive.congr m (fun j pid => ?_) (fun _ => Iff.rfl)
    rw [holds_put alive]
    split
    · rename_i here
      simp [here, holds_self alive, Process.wait]
    · rfl
  · have final := sane.ended _ _ ended
    have freed : (p.wait (.ok (p.pid, status))).2.held = none := by
      simp [Process.held, Process.holdsChild, Process.wait, Bool.or_assoc, final]
    refine Exclusive.release m held (fun j pid => ?_) left
    rw [holds_put alive]
    split
    · rename_i here
      subst here
      simp only [Option.bind_some, freed, holds_self alive, owns, Option.some.injEq, true_and]
      simp [eq_comm]
    · rename_i elsewhere
      simp [elsewhere]

theorem Matched.killProcess (m : s.Matched) (p : Process) (kill : Option Int) :
    Matched { s with kernel := p.killProcess kill s.kernel } := by
  refine Exclusive.congr m (fun _ _ => Iff.rfl) (fun pid => ?_)
  simp only [Process.killProcess]
  split
  · rfl
  · exact ProcessTable.mem_pids_kill _ _ _ _

theorem Matched.destroy (m : s.Matched) {kill waitpid : Option Int} (alive : s.object o = some p)
    (guard : s.KeepsOwners (.destroy o kill waitpid)) :
    Matched { s.put o none with kernel := p.destroy kill waitpid s.kernel } ∧
      s.Contract (.destroy o kill waitpid) { s.put o none with kernel := p.destroy kill waitpid s.kernel } := by
  cases owns : p.held with
  | none =>
    refine ⟨Exclusive.congr m (fun j pid => holds_put_free alive owns rfl _ j pid) (fun pid => ?_), ?_⟩
    · rw [destroy_of_not_held s.kernel owns]
    · intro pid held
      simp [holds_self alive, owns] at held
  | some pid =>
    have held := (holds_self alive).mpr owns
    obtain ⟨rfl, rfl⟩ := guard pid held
    obtain ⟨signals, left⟩ := destroy_held owns (m.present held)
    refine ⟨Exclusive.release m held (fun j x => ?_) left, ?_⟩
    · rw [holds_put alive]
      split
      · rename_i here
        subst here
        simp only [Option.bind_none, holds_self alive, owns, Option.some.injEq, true_and]
        simp [eq_comm]
      · rename_i elsewhere
        simp [elsewhere]
    · intro x held'
      rw [holds_self alive, owns, Option.some.injEq] at held'
      subst held'
      exact ⟨signals, fun still => ((left pid).mp still).2 rfl⟩

theorem disarmed_iff (alive : s.object o = some p) : s.Disarmed o ↔ p.started = false := by
  refine ⟨fun disarmed => (disarmed p alive).1, fun unstarted q atO => ?_⟩
  cases Option.some.inj (alive.symm.trans atO)
  exact ⟨unstarted, destroy_of_not_held s.kernel (held_of_not_started unstarted)⟩

/-- The source of a move construction is disarmed exactly if it was not started. -/
theorem moveConstruct_guard {source : Nat} (alive : s.object source = some p) :
    Disarmed ⟨s.objects.set source (some p.movedFrom) ++ [some p], s.kernel⟩ source ↔
      s.KeepsOwners (.moveConstruct source) := by
  have left : (ProcessObjects.mk (s.objects.set source (some p.movedFrom) ++ [some p]) s.kernel).object
      source = some p.movedFrom := by
    have moved := object_put alive (some p.movedFrom) source
    have within : source ≠ (s.objects.set source (some p.movedFrom)).length := by
      have bound := slot_lt alive
      rw [List.length_set]
      omega
    rw [object_append _ s.kernel, if_neg within]
    simpa [put] using moved
  rw [disarmed_iff left]
  refine ⟨fun unstarted q atSource => ?_, fun unstarted => unstarted p alive⟩
  cases Option.some.inj (alive.symm.trans atSource)
  exact unstarted

theorem moveAssign_guard {target source : Nat} {q : Process} (alive : s.object source = some p)
    (alive' : s.object target = some q) :
    Disarmed ((s.put target p).put source p.movedFrom) source ↔
      ∀ p, s.object source = some p → p.started = false := by
  have given := object_put_source alive alive'
  have left : ((s.put target p).put source p.movedFrom).object source = some p.movedFrom := by
    rw [object_put given, if_pos rfl]
  rw [disarmed_iff left]
  refine ⟨fun unstarted r atSource => ?_, fun unstarted => unstarted p alive⟩
  cases Option.some.inj (alive.symm.trans atSource)
  exact unstarted

theorem Matched.moveConstruct (m : s.Matched) {source : Nat} (alive : s.object source = some p)
    (unstarted : s.KeepsOwners (.moveConstruct source)) :
    Matched { s with objects := s.objects.set source (some p.movedFrom) ++ [some p] } ∧
      s.Contract (.moveConstruct source) { s with objects := s.objects.set source (some p.movedFrom) ++ [some p] } := by
  have free := held_of_not_started (unstarted p alive)
  have free' : p.movedFrom.held = none := held_of_not_started (unstarted p alive)
  refine ⟨?_, (moveConstruct_guard alive).mpr unstarted⟩
  have moved : Matched (s.put source p.movedFrom) :=
    Exclusive.congr m (fun j pid => holds_put_free (q := some _) alive free free' s.kernel j pid)
      (fun _ => Iff.rfl)
  exact moved.construct free

theorem Matched.moveAssign (m : s.Matched) {target source : Nat} {q : Process}
    (alive : s.object source = some p) (alive' : s.object target = some q)
    (guard : s.KeepsOwners (.moveAssign target source)) :
    Matched ((s.put target p).put source p.movedFrom) ∧
      s.Contract (.moveAssign target source) ((s.put target p).put source p.movedFrom) := by
  obtain ⟨unstarted, unowned⟩ := guard
  have given := object_put_source alive alive'
  have free := held_of_not_started (unstarted p alive)
  have free' : p.movedFrom.held = none := held_of_not_started (unstarted p alive)
  have targetFree : q.held = none := by
    cases owns : q.held with
    | none => rfl
    | some pid => exact absurd ((holds_self alive').mpr owns) (unowned pid)
  refine ⟨?_, (moveAssign_guard alive alive').mpr unstarted, fun pid held => absurd held (unowned pid)⟩
  refine Exclusive.congr m (fun j pid => ?_) (fun _ => Iff.rfl)
  have first := holds_put_free (q := some p) alive' targetFree free s.kernel j pid
  exact (holds_put_free (q := some _) given free free' s.kernel j pid).trans first

/-- From a state where children and owners match, every step that meets the condition keeps them matched
and fulfils the contract. -/
theorem Matched.step (m : s.Matched) (sane : s.Sane) {a : Action} (taken : s.step a = some s')
    (guard : s.KeepsOwners a) : s'.Matched ∧ s.Contract a s' := by
  cases change_of_step taken with
  | refused => exact ⟨m, trivial⟩
  | constructs made => exact ⟨m.construct (held_of_not_started (Process.make_fresh made).1), trivial⟩
  | starts alive unstarted may => exact ⟨m.start sane alive unstarted may, trivial⟩
  | waits alive holds answer => exact ⟨m.wait sane alive holds answer, trivial⟩
  | kills => exact ⟨m.killProcess _ _, trivial⟩
  | moves alive => exact m.moveConstruct alive guard
  | assigns alive alive' => exact m.moveAssign alive alive' guard
  | destroys alive => exact m.destroy alive guard
  | ends ended =>
    refine ⟨Exclusive.congr m (fun _ _ => Iff.rfl) (fun pid => ?_), trivial⟩
    unfold ProcessTable.childEnds at ended
    split at ended
    · rename_i running
      cases Option.some.inj ended
      exact ProcessTable.mem_pids_overwrite (ProcessTable.mem_pids_of_find? running.1)
    · simp at ended

theorem init_sane : init.Sane where
  unstarted {o p} atO := by simp [init, object] at atO
  ended := by
    intro pid status found
    simp [init, ProcessTable.init] at found

theorem init_matched : init.Matched where
  owned {pid} there := by simp [init, ProcessTable.init, ProcessTable.pids, OrderedMap.keys, OrderedMap.empty] at there
  single {o} _ _ held := by simp [init, Holds, object] at held
  present {o pid} held := by simp [init, Holds, object] at held

/-- A step that fulfils the contract, from a state where children and owners match, meets the condition. -/
theorem Matched.guard (m : s.Matched) {a : Action} (taken : s.step a = some s') (kept : s.Contract a s') :
    s.KeepsOwners a := by
  cases change_of_step taken with
  | moves alive => exact (moveConstruct_guard alive).mp kept
  | assigns alive alive' =>
    refine ⟨(moveAssign_guard alive alive').mp kept.1, fun pid held => ?_⟩
    -- the assignment itself signals nobody
    have signalled := congrArg List.length (kept.2 pid held).1
    simp [put] at signalled
  | destroys alive =>
    intro pid held
    exact destroy_fails ((holds_self alive).mp held) (m.present held) (kept pid held)
  | _ => trivial

/-- In a run each child always has exactly one owner, moved-from objects are disarmed and owners
kill and reap their child when they go, if and only if no started object is ever moved from, no
owner assigned to, and no owner destroyed with a call that fails. The defaulted moves copy `pid_` and
`terminated_` and kill nothing; `~process` swallows what `kill_process` and `wait` throw. -/
theorem ownership_iff {ts : List (Transition ProcessObjects Action)} {s : ProcessObjects}
    (run : Run step init ts s) :
    (∀ t ∈ ts, t.after.Owned ∧ t.before.Contract t.action t.after) ↔
      ∀ t ∈ ts, t.before.KeepsOwners t.action := by
  have exact := Run.contract_iff_guard (I := Sane) (P := Matched) (Q := Contract)
    (fun run => run.invariant init_sane Sane.step) init_matched
    (fun sane m taken => ⟨fun both => m.guard taken both.2, m.step sane taken⟩) run
  constructor
  · intro within
    refine exact.mp fun t member => ⟨?_, (within t member).2⟩
    -- as long as the contract is fulfilled, the children and the owners match
    have matched := run.invariant_after (I := fun s => s.Sane ∧ s.Matched)
      (G := fun s a => ∀ s', s.step a = some s' → s.Contract a s') ⟨init_sane, init_matched⟩
      (fun both kept taken =>
        ⟨both.1.step taken, (both.2.step both.1 taken (both.2.guard taken (kept _ taken))).1⟩)
      (fun t member s' taken => by
        cases Option.some.inj ((run.transition member).1.symm.trans taken)
        exact (within t member).2)
    exact (matched t member).2
  · intro guarded t member
    have both := exact.mpr guarded t member
    exact ⟨fun pid there => both.1.existsUnique there, both.2⟩

/-- A run without moves: a `wait` is interrupted and a signal refused, then the one object is destroyed, and
its child is gone. -/
theorem ownership_iff_destroyed : ∃ ts s, Run step init ts s ∧ s.kernel.pids = [] ∧
    s.kernel.signals = [5] ∧ ∀ t ∈ ts, t.after.Owned ∧ t.before.Contract t.action t.after := by
  obtain ⟨ts, s, run, labels, gone⟩ := run_of_exec_any step init
    [.construct ["sleep"] {}, .start 0 true (.child 5), .wait 0 (some 4), .killProcess 0 (some 1),
      .destroy 0 none none]
    (fun s => s.kernel.pids = [] ∧ s.kernel.signals = [5]) rfl
  obtain ⟨reaped, killed⟩ := of_decide_eq_true gone
  refine ⟨ts, s, run, reaped, killed, (ownership_iff run).mpr fun t member => ?_⟩
  have action := List.mem_map_of_mem (f := Transition.action) member
  rw [labels] at action
  cases h : t.action with
  | moveConstruct | moveAssign => simp [h] at action
  | destroy o kill waitpid =>
    simp only [h, List.mem_cons, Action.destroy.injEq, reduceCtorEq, List.not_mem_nil, or_false, false_or] at action
    exact fun _ _ => action.2
  | _ => trivial

/-- After a started object is moved from, two objects hold its child. -/
theorem not_owned_after_move : ∃ ts s, Run step init ts s ∧
    (ts.map Transition.action = [.construct ["sleep"] {}, .start 0 true (.child 5), .moveConstruct 0]) ∧
    5 ∈ s.kernel.pids ∧ s.Holds 0 5 ∧ s.Holds 1 5 ∧ ¬ s.Owned := by
  obtain ⟨ts, s, run, labels, held⟩ := run_of_exec_any step init
    [.construct ["sleep"] {}, .start 0 true (.child 5), .moveConstruct 0]
    (fun s => 5 ∈ s.kernel.pids ∧ (s.object 0).bind Process.held = some 5 ∧
      (s.object 1).bind Process.held = some 5) rfl
  obtain ⟨there, first, second⟩ := of_decide_eq_true held
  refine ⟨ts, s, run, labels, there, first, second, fun owned => ?_⟩
  obtain ⟨o, _, unique⟩ := owned 5 there
  have zero := unique 0 first
  have one := unique 1 second
  omega

end Aser.ProcessObjects
