import Aser.Core.ProcessMonitorOrder
import Aser.Util.ProcessMoves

namespace Aser

open Library

/-- A `process_monitor` and the processes it is used with. `targets` says for each worker which of the
process objects it waits for; `returning` are the workers that `waitpid` has answered and whose `wait` has
not returned. `reaped` records the objects whose child a `waitpid` has reaped. -/
structure MonitoredProcesses where
  processes : ProcessObjects := .init
  monitor : ProcessMonitor := {}
  targets : List Nat := []
  returning : List Nat := []
  reaped : List Nat := []

namespace MonitoredProcesses

/-- What happens to the processes besides being waited for: they are made, started and killed, and
they end. -/
def sparesWaiting : ProcessObjects.Action → Bool
  | .construct _ _ | .start _ _ _ | .killProcess _ _ | .childEnds _ _ => true
  | _ => false

/-- The steps of `wait_for_any`, and those of a worker after its `wait`. -/
def sparesProcesses : ProcessMonitor.Action → Bool
  | .waitForAny | .pop | .get | .push _ | .finish _ => true
  | _ => false

inductive Action
  | process (a : ProcessObjects.Action)
  | monitor (a : ProcessMonitor.Action)
  | addProcess (o : Nat)
  | waitpid (k : Nat) (fails : Option Int)
  | waitReturns (k : Nat)

/-- `answers` is what `waitpid` says to each worker, which has to be what the kernel says. A `wait` is the
call of `waitpid`, which may reap the child, and what the object notes down afterwards; on a process that
has terminated it is ruled out by its assertion. -/
def step (answers : Nat → WaitResult) (w : MonitoredProcesses) : Action → Option MonitoredProcesses
  | .process a =>
    if sparesWaiting a then (w.processes.step a).map fun processes => { w with processes } else none
  | .monitor a =>
    if sparesProcesses a then (w.monitor.step answers a).map fun monitor => { w with monitor } else none
  | .addProcess o =>
    (w.processes.object o).bind fun p =>
      if p.started then
        (w.monitor.step answers (.add .process p.pid)).map fun monitor =>
          match w.monitor.checkDuplicatedPid p.pid with
          | .ok () => { w with monitor, targets := w.targets ++ [o] }
          | .error _ => { w with monitor }
      else none
  | .waitpid k fails =>
    (w.targets[k]?).bind fun o => (w.processes.object o).bind fun p =>
      if p.holdsChild ∧ k ∉ w.returning ∧ (w.monitor.step answers (.waitpid k)).isSome then
        (w.processes.kernel.waitpid fails p.pid).bind fun (result, kernel) =>
          if result = answers k then
            some { w with
              processes := { w.processes with kernel }
              returning := w.returning ++ [k]
              reaped := if result.toBool then w.reaped ++ [o] else w.reaped }
          else none
      else none
  | .waitReturns k =>
    (w.targets[k]?).bind fun o => (w.processes.object o).bind fun p =>
      if k ∈ w.returning then
        (w.monitor.step answers (.waitpid k)).map fun monitor =>
          { w with
            processes := w.processes.put o (p.wait (answers k)).2
            monitor
            returning := w.returning.filter (· ≠ k) }
      else none

/-- The call of `add_process` with process `o` throws because of its pid. -/
def Rejects (w : MonitoredProcesses) (o : Nat) : Prop :=
  ∃ p, w.processes.object o = some p ∧
    (w.monitor.add .process p.pid).1 = .error (.invalidArgument "Duplicated pid")

/-- The process `o` was added, and `wait_for_any` has not reported it since. -/
def Monitors (w : MonitoredProcesses) (o : Nat) : Prop :=
  ∃ k : Nat, w.targets[k]? = some o ∧ k ∉ w.monitor.pushed.take w.monitor.returned.length

/-- `o'` is another process which is monitored, and it has, or had, the pid of `o`. -/
def Namesake (w : MonitoredProcesses) (o o' : Nat) : Prop :=
  o' ≠ o ∧ w.Monitors o' ∧ ∃ p p', w.processes.object o = some p ∧ w.processes.object o' = some p' ∧ p'.pid = p.pid

/-- The child that object `o` has started is `pid`, and nobody has reaped it. -/
def Unreaped (w : MonitoredProcesses) (o : Nat) (pid : Pid) : Prop :=
  o ∉ w.reaped ∧ ∃ p, w.processes.object o = some p ∧ p.started = true ∧ p.pid = pid

/-- Every worker is there for the process that it was added for, and the kernel has the children that are
not reaped. A process whose child is reaped has terminated, or the worker that did it is still in `wait`. -/
structure Sound (answers : Nat → WaitResult) (w : MonitoredProcesses) : Prop where
  tracks : w.monitor.Tracks answers
  sane : w.processes.Sane
  matched : Exclusive w.Unreaped (· ∈ w.processes.kernel.pids)
  length : w.targets.length = w.monitor.workers.length
  target : ∀ {k o : Nat}, w.targets[k]? = some o → ∃ p, w.processes.object o = some p ∧
    p.started = true ∧ w.monitor.pidOf k = some p.pid
  reaped : ∀ {o}, o ∈ w.reaped → ∃ p, w.processes.object o = some p ∧ p.started = true ∧
    (p.terminated = true ∨ ∃ k ∈ w.returning, w.targets[k]? = some o ∧ (answers k).toBool = true)
  returning : ∀ {k}, k ∈ w.returning → (w.monitor.workers[k]?).map Worker.phase = some .waiting ∧
    ∀ pid status, answers k = .ok (pid, status) → (wifExited status || wifSignaled status) = true

variable {answers : Nat → WaitResult} {w w' : MonitoredProcesses}

/-- A process that was started stays as it is unless it is waited for. -/
theorem object_kept {s s' : ProcessObjects} {a : ProcessObjects.Action} {o : Nat} {p : Process}
    (spares : sparesWaiting a = true) (alive : s.object o = some p) (started : p.started = true)
    (taken : s.step a = some s') : s'.object o = some p := by
  cases ProcessObjects.change_of_step taken with
  | refused | kills | ends => exact alive
  | constructs =>
    rw [ProcessObjects.object_append s.objects s.kernel, if_neg (slot_lt alive).ne]
    exact alive
  | @starts o' p' pathExists fork alive' unstarted =>
    rw [ProcessObjects.object_kernel, ProcessObjects.object_put alive', if_neg]
    · exact alive
    · rintro rfl
      cases Option.some.inj (alive.symm.trans alive')
      rw [started] at unstarted
      cases unstarted
  | waits | moves | assigns | destroys => simp [sparesWaiting] at spares

theorem unreaped_put {o : Nat} {p : Process} (alive : w.processes.object o = some p) (q : Process) (k : ProcessTable)
    (j : Nat) (pid : Pid) : Unreaped { w with processes := { w.processes.put o (some q) with kernel := k } } j pid ↔
      if j = o then o ∉ w.reaped ∧ q.started = true ∧ q.pid = pid else w.Unreaped j pid := by
  unfold Unreaped
  rw [ProcessObjects.object_kernel, ProcessObjects.object_put alive]
  split
  · rename_i here
    simp [here]
  · rfl

/-- Which children are not reaped, after a step that changes objects and children in the same way. -/
theorem Sound.unreaped (h : w.Sound answers) {a : ProcessObjects.Action} {s : ProcessObjects}
    (spares : sparesWaiting a = true) (taken : w.processes.step a = some s) :
    Exclusive (Unreaped { w with processes := s }) (· ∈ s.kernel.pids) := by
  cases ProcessObjects.change_of_step taken with
  | refused => exact h.matched
  | @constructs args config p made =>
    refine h.matched.congr (fun o pid => ?_) (fun _ => Iff.rfl)
    unfold Unreaped
    rw [ProcessObjects.object_append w.processes.objects w.processes.kernel]
    split
    · rename_i last
      have beyond : w.processes.object o = none := by simp [ProcessObjects.object, last]
      simp [beyond, (Process.make_fresh made).1]
    · rfl
  | @starts o p pathExists fork alive unstarted may =>
    have fresh : o ∉ w.reaped := by
      intro reaped
      obtain ⟨p', alive', started, _⟩ := h.reaped reaped
      cases Option.some.inj (alive.symm.trans alive')
      rw [started] at unstarted
      cases unstarted
    have none : ∀ pid, ¬ w.Unreaped o pid := by
      rintro pid ⟨_, p', alive', started, _⟩
      cases Option.some.inj (alive.symm.trans alive')
      rw [started] at unstarted
      cases unstarted
    by_cases forked : (p.start pathExists fork).2.started
    · have new : (p.start pathExists fork).2.pid ∉ w.processes.kernel.pids := by
        rw [Process.fork_of_started unstarted forked] at may
        simpa [ProcessTable.mayFork] using (Bool.and_eq_true_iff.mp may).2
      refine h.matched.acquire (i := o) new (fun j pid => ?_) (fun pid => ?_)
      · rw [unreaped_put alive]
        by_cases here : j = o
        · subst here
          simp [none, fresh, forked, eq_comm]
        · simp [here]
      · simp only [forked, if_true, ProcessTable.mem_pids_fork]
        exact or_comm
    · refine h.matched.congr (fun j pid => ?_) (fun pid => by simp [forked])
      rw [unreaped_put alive]
      split
      · rename_i here
        simp [here, none, forked]
      · rfl
  | @kills o fails p alive =>
    refine h.matched.congr (fun _ _ => Iff.rfl) (fun pid => ?_)
    simp only [Process.killProcess]
    split
    · rfl
    · exact ProcessTable.mem_pids_kill _ _ _ _
  | ends ended =>
    refine h.matched.congr (fun _ _ => Iff.rfl) (fun pid => ?_)
    unfold ProcessTable.childEnds at ended
    split at ended
    · rename_i running
      cases Option.some.inj ended
      exact ProcessTable.mem_pids_overwrite (ProcessTable.mem_pids_of_find? running.1)
    · simp at ended
  | waits | moves | assigns | destroys => simp [sparesWaiting] at spares

/-- Steps of the processes leave the workers where they are. -/
theorem Sound.processes (h : w.Sound answers) {a : ProcessObjects.Action} {s : ProcessObjects}
    (spares : sparesWaiting a = true) (taken : w.processes.step a = some s) :
    Sound answers { w with processes := s } where
  tracks := h.tracks
  sane := h.sane.step taken
  matched := h.unreaped spares taken
  length := h.length
  target atK := by
    obtain ⟨p, alive, started, pid⟩ := h.target atK
    exact ⟨p, object_kept spares alive started taken, started, pid⟩
  reaped member := by
    obtain ⟨p, alive, started, rest⟩ := h.reaped member
    exact ⟨p, object_kept spares alive started taken, started, rest⟩
  returning := h.returning

/-- Steps of the monitor that add no worker leave the pids alone. -/
theorem pidOf_of_jobs {m m' : ProcessMonitor} (jobs : m'.jobs = m.jobs) : m'.pidOf = m.pidOf := by
  funext k
  have same : (m'.jobs[k]?).map Prod.snd = (m.jobs[k]?).map Prod.snd := by rw [jobs]
  simpa [ProcessMonitor.jobs, ProcessMonitor.pidOf, Function.comp_def] using same

/-- The workers of the monitor have moved on, but those whose `wait` has not returned are where they were. -/
theorem Sound.monitor (h : w.Sound answers) {m : ProcessMonitor} (tracks : m.Tracks answers)
    (jobs : m.jobs = w.monitor.jobs)
    (waiting : ∀ k ∈ w.returning, m.workers[k]? = w.monitor.workers[k]?) :
    Sound answers { w with monitor := m } where
  tracks := tracks
  sane := h.sane
  matched := h.matched
  length := by
    have length : m.workers.length = w.monitor.workers.length := by
      simpa [ProcessMonitor.jobs] using congrArg List.length jobs
    exact h.length.trans length.symm
  target atK := by
    rw [pidOf_of_jobs jobs]
    exact h.target atK
  reaped := h.reaped
  returning member := by
    show (m.workers[_]?).map Worker.phase = _ ∧ _
    rw [waiting _ member]
    exact h.returning member

/-- A worker past its `wait` is another one than those in it. -/
theorem Sound.others (h : w.Sound answers) {a : ProcessMonitor.Action} {m : ProcessMonitor} {k : Nat}
    (past : a = .push k ∨ a = .finish k) (taken : w.monitor.step answers a = some m) :
    ∀ j ∈ w.returning, m.workers[j]? = w.monitor.workers[j]? := by
  intro j member
  have waits := (h.returning member).1
  have different : ∀ {t : Worker}, w.monitor.workers[k]? = some t → t.phase ≠ .waiting → j ≠ k := by
    rintro t atK other rfl
    rw [atK] at waits
    exact other (Option.some.inj waits)
  rcases past with rfl | rfl
  · cases ProcessMonitor.change_of_step taken with
    | pushes atK collected =>
      exact (ProcessMonitor.worker_moves (.inr (.inl rfl)) atK taken).2 j (different atK (by simp [collected]))
  · cases ProcessMonitor.change_of_step taken with
    | finishes atK leaving =>
      exact (ProcessMonitor.worker_moves (.inr (.inr rfl)) atK taken).2 j (different atK (by simp [leaving]))

/-- A call that throws adds nothing. -/
theorem add_rejected {m : ProcessMonitor} {kind : WaitKind} {pid : Pid} {e : Exception}
    (refused : m.checkDuplicatedPid pid = .error e) : (m.add kind pid).2 = m := by
  simp only [ProcessMonitor.add, refused]

theorem Sound.adds (h : w.Sound answers) {o : Nat} {p : Process} (alive : w.processes.object o = some p)
    (started : p.started = true) (accepted : w.monitor.checkDuplicatedPid p.pid = .ok ()) :
    Sound answers { w with monitor := (w.monitor.add .process p.pid).2, targets := w.targets ++ [o] } := by
  have workers : (w.monitor.add .process p.pid).2.workers = w.monitor.workers ++ [⟨.process, p.pid, .waiting⟩] := by
    simp only [ProcessMonitor.add, accepted]
  refine ⟨h.tracks.add _ _, h.sane, h.matched, ?_, fun {k o'} atK => ?_, fun member => ?_, fun {k} member => ?_⟩
  · simp only [workers, List.length_append, List.length_singleton, h.length]
  · have pidOf : (w.monitor.add .process p.pid).2.pidOf k =
        if k = w.monitor.workers.length then some p.pid else w.monitor.pidOf k := by
      rw [ProcessMonitor.pidOf, workers]
      exact ProcessMonitor.pidOf_append w.monitor ⟨.process, p.pid, .waiting⟩ k
    rcases getElem?_append_singleton atK with old | ⟨last, same⟩
    · have within := (List.getElem?_eq_some_iff.mp old).1
      have earlier : k ≠ w.monitor.workers.length := by
        have length := h.length
        omega
      rw [pidOf, if_neg earlier]
      exact h.target old
    · rw [pidOf, if_pos (last.trans h.length)]
      exact ⟨p, same ▸ alive, started, rfl⟩
  · obtain ⟨q, alive', started', ended | ⟨k, waits, atK, reaps⟩⟩ := h.reaped member
    · exact ⟨q, alive', started', .inl ended⟩
    · refine ⟨q, alive', started', .inr ⟨k, waits, ?_, reaps⟩⟩
      rw [List.getElem?_append_left (List.getElem?_eq_some_iff.mp atK).1]
      exact atK
  · obtain ⟨waits, final⟩ := h.returning member
    have within : k < w.monitor.workers.length := by
      obtain ⟨t, atK, _⟩ := Option.map_eq_some_iff.mp waits
      exact (List.getElem?_eq_some_iff.mp atK).1
    refine ⟨?_, final⟩
    show ((w.monitor.add .process p.pid).2.workers[k]?).map Worker.phase = _
    rw [workers, List.getElem?_append_left within]
    exact waits

/-- Two workers that are not reported yet do not wait for one process. -/
theorem Sound.one_worker (h : w.Sound answers) {k k' o : Nat} (atK : w.targets[k]? = some o)
    (atK' : w.targets[k']? = some o) (unreported : k ∉ w.monitor.pushed.take w.monitor.returned.length)
    (unreported' : k' ∉ w.monitor.pushed.take w.monitor.returned.length) : k = k' := by
  obtain ⟨p, alive, _, known⟩ := h.target atK
  obtain ⟨p', alive', _, known'⟩ := h.target atK'
  cases Option.some.inj (alive.symm.trans alive')
  have found := (h.tracks.status p.pid k).mpr ⟨known, unreported⟩
  have found' := (h.tracks.status p.pid k').mpr ⟨known', unreported'⟩
  exact Option.some.inj (found.symm.trans found')

theorem Sound.unreported_of_waiting (h : w.Sound answers) {k : Nat}
    (waits : (w.monitor.workers[k]?).map Worker.phase = some .waiting) :
    k ∉ w.monitor.pushed.take w.monitor.returned.length := by
  obtain ⟨t, atK, phase⟩ := Option.map_eq_some_iff.mp waits
  have fits := h.tracks.workers atK
  rw [Worker.Fits, phase] at fits
  exact fun member => fits (List.mem_of_mem_take member)

theorem waiting_of_waitpid {m m' : ProcessMonitor} {k : Nat} (taken : m.step answers (.waitpid k) = some m') :
    (m.workers[k]?).map Worker.phase = some .waiting := by
  cases ProcessMonitor.change_of_step taken with
  | fails atK waiting | collects atK waiting => rw [atK, Option.map_some, waiting]

/-- The child that a worker calls `waitpid` for is not reaped yet. -/
theorem Sound.waits (h : w.Sound answers) {k o : Nat} {p : Process} (atK : w.targets[k]? = some o)
    (alive : w.processes.object o = some p) (holds : p.holdsChild = true) (outside : k ∉ w.returning)
    (waits : (w.monitor.workers[k]?).map Worker.phase = some .waiting) : w.Unreaped o p.pid := by
  obtain ⟨started, running⟩ := Bool.and_eq_true_iff.mp holds
  refine ⟨fun reaped => ?_, p, alive, started, rfl⟩
  obtain ⟨p', alive', _, ended | ⟨k', inside, atK', _⟩⟩ := h.reaped reaped
  · cases Option.some.inj (alive.symm.trans alive')
    simp [ended] at running
  · have same := h.one_worker atK atK' (h.unreported_of_waiting waits)
      (h.unreported_of_waiting (h.returning inside).1)
    exact outside (same ▸ inside)

/-- The worker has called `waitpid`, and it has the answer. -/
theorem Sound.waitpid (h : w.Sound answers) {k o : Nat} {p : Process} {fails : Option Int} {result : WaitResult}
    {kernel : ProcessTable} (atK : w.targets[k]? = some o) (alive : w.processes.object o = some p)
    (holds : p.holdsChild = true) (outside : k ∉ w.returning)
    (waits : (w.monitor.workers[k]?).map Worker.phase = some .waiting)
    (answer : w.processes.kernel.waitpid fails p.pid = some (result, kernel)) (same : result = answers k) :
    Sound answers { w with
      processes := { w.processes with kernel }
      returning := w.returning ++ [k]
      reaped := if result.toBool then w.reaped ++ [o] else w.reaped } := by
  have unreaped := h.waits atK alive holds outside waits
  have sane : ProcessObjects.Sane { w.processes with kernel } := ⟨h.sane.unstarted, h.sane.ended.waitpid answer⟩
  rcases ProcessTable.waitpid_child (h.matched.present unreaped) answer with
    ⟨errno, _, rfl, rfl⟩ | ⟨status, _, found, rfl, _, left⟩
  · refine ⟨h.tracks, sane, h.matched, h.length, h.target, fun member => ?_, fun member => ?_⟩
    · obtain ⟨q, alive', started', rest⟩ := h.reaped member
      exact ⟨q, alive', started', rest.imp_right fun ⟨j, inside, atJ⟩ => ⟨j, List.mem_append_left _ inside, atJ⟩⟩
    · rcases List.mem_append.mp member with old | new
      · exact h.returning old
      · cases List.mem_singleton.mp new
        exact ⟨waits, by simp [← same]⟩
  · refine ⟨h.tracks, sane, ?_, h.length, h.target, fun {o'} member => ?_, fun member => ?_⟩
    · refine h.matched.release unreaped (fun j pid => ?_) left
      by_cases here : j = o
      · subst here
        have only : ∀ pid, w.Unreaped j pid → pid = p.pid := by
          rintro _ ⟨_, q, alive', _, rfl⟩
          cases Option.some.inj (alive.symm.trans alive')
          rfl
        refine iff_of_false (fun unreaped' => unreaped'.1 (by simp [Except.toBool])) ?_
        rintro ⟨unreaped', other⟩
        exact other ⟨rfl, only pid unreaped'⟩
      · simp [Unreaped, here, Except.toBool, ProcessObjects.object]
    · have recorded : o' ∈ w.reaped ++ [o] := by simpa [Except.toBool] using member
      rcases List.mem_append.mp recorded with old | new
      · obtain ⟨q, alive', started', rest⟩ := h.reaped old
        exact ⟨q, alive', started', rest.imp_right fun ⟨j, inside, atJ⟩ => ⟨j, List.mem_append_left _ inside, atJ⟩⟩
      · cases List.mem_singleton.mp new
        exact ⟨p, alive, (Bool.and_eq_true_iff.mp holds).1, .inr ⟨k, by simp, atK, by rw [← same]; rfl⟩⟩
    · rcases List.mem_append.mp member with old | new
      · exact h.returning old
      · cases List.mem_singleton.mp new
        refine ⟨waits, fun pid status' answered => ?_⟩
        cases same.trans answered
        exact h.sane.ended _ _ found

/-- The object has noted down what `waitpid` answered, and the worker goes on. -/
theorem Sound.waitReturns (h : w.Sound answers) {k o : Nat} {p : Process} {m : ProcessMonitor}
    (atK : w.targets[k]? = some o) (alive : w.processes.object o = some p) (inside : k ∈ w.returning)
    (taken : w.monitor.step answers (.waitpid k) = some m) :
    Sound answers { w with
      processes := w.processes.put o (p.wait (answers k)).2
      monitor := m
      returning := w.returning.filter (· ≠ k) } := by
  have pid : (p.wait (answers k)).2.pid = p.pid := by unfold Process.wait; split <;> rfl
  have started' : (p.wait (answers k)).2.started = p.started := by rw [Process.started, pid]; rfl
  have started : p.started = true := by
    obtain ⟨q, alive', started, _⟩ := h.target atK
    cases Option.some.inj (alive.symm.trans alive')
    exact started
  have jobs := (ProcessMonitor.worker_frame rfl taken).2.2
  have length : m.workers.length = w.monitor.workers.length := by
    simpa [ProcessMonitor.jobs] using congrArg List.length jobs
  have object : ∀ {j q}, w.processes.object j = some q → q.started = true →
      ∃ q', (w.processes.put o (p.wait (answers k)).2).object j = some q' ∧ q'.started = true ∧ q'.pid = q.pid ∧
        (q.terminated = true → q'.terminated = true) := by
    intro j q atJ started
    rw [ProcessObjects.object_put alive]
    split
    · rename_i here
      subst here
      cases Option.some.inj (alive.symm.trans atJ)
      refine ⟨_, rfl, started'.trans started, pid, fun ended => ?_⟩
      unfold Process.wait
      split
      · exact ended
      · simp [ended]
    · exact ⟨q, atJ, started, rfl, id⟩
  have sane : ProcessObjects.Sane (w.processes.put o (p.wait (answers k)).2) := by
    refine h.sane.put alive ?_ h.sane.ended
    rintro _ ⟨⟩ unstarted
    rw [started', started] at unstarted
    cases unstarted
  refine ⟨h.tracks.step taken, sane, ?_, h.length.trans length.symm, fun {j o'} atJ => ?_, fun {o'} member => ?_,
    fun {j} member => ?_⟩
  · refine h.matched.congr (fun j x => ?_) (fun _ => Iff.rfl)
    refine (unreaped_put alive (p.wait (answers k)).2 w.processes.kernel j x).trans ?_
    split
    · rename_i here
      simp [here, Unreaped, alive, started', pid]
    · rfl
  · obtain ⟨q, alive', started, known⟩ := h.target atJ
    obtain ⟨q', alive'', started'', same, _⟩ := object alive' started
    refine ⟨q', alive'', started'', ?_⟩
    rw [pidOf_of_jobs jobs, same]
    exact known
  · obtain ⟨q, alive', started, rest⟩ := h.reaped member
    obtain ⟨q', alive'', started'', _, kept⟩ := object alive' started
    refine ⟨q', alive'', started'', ?_⟩
    rcases rest with ended | ⟨j, inside', atJ, reaps⟩
    · exact .inl (kept ended)
    · by_cases here : j = k
      · -- it is this `wait` that was to set `terminated_`
        subst here
        cases Option.some.inj (atK.symm.trans atJ)
        cases Option.some.inj (alive.symm.trans alive')
        rw [ProcessObjects.object_put alive, if_pos rfl] at alive''
        cases Option.some.inj alive''
        cases answered : answers j with
        | error errno => simp [answered, Except.toBool] at reaps
        | ok both =>
          have final := (h.returning inside').2 both.1 both.2 answered
          exact .inl (by simp [Process.wait, Bool.or_assoc, final])
      · exact .inr ⟨j, List.mem_filter.mpr ⟨inside', by simpa using here⟩, atJ, reaps⟩
  · obtain ⟨inside', other⟩ := List.mem_filter.mp member
    have different : j ≠ k := by simpa using other
    obtain ⟨t, atT, _⟩ := Option.map_eq_some_iff.mp (waiting_of_waitpid taken)
    have kept := (ProcessMonitor.worker_moves (.inl rfl) atT taken).2 j different
    show (m.workers[j]?).map Worker.phase = _ ∧ _
    rw [kept]
    exact h.returning inside'

theorem Sound.step (h : w.Sound answers) {a : Action} (taken : w.step answers a = some w') :
    w'.Sound answers := by
  cases a with
  | process a =>
    simp only [MonitoredProcesses.step, Option.ite_none_right_eq_some] at taken
    obtain ⟨spares, taken⟩ := taken
    obtain ⟨s, moved, rfl⟩ := Option.map_eq_some_iff.mp taken
    exact h.processes spares moved
  | monitor a =>
    simp only [MonitoredProcesses.step, Option.ite_none_right_eq_some] at taken
    obtain ⟨spares, taken⟩ := taken
    obtain ⟨m, moved, rfl⟩ := Option.map_eq_some_iff.mp taken
    cases a with
    | waitForAny | pop | get =>
      have same := ProcessMonitor.owner_frame rfl moved
      exact h.monitor (h.tracks.step moved) (by rw [ProcessMonitor.jobs, same, ProcessMonitor.jobs])
        (fun _ _ => by rw [same])
    | push k =>
      exact h.monitor (h.tracks.step moved) (ProcessMonitor.worker_frame rfl moved).2.2 (h.others (.inl rfl) moved)
    | finish k =>
      exact h.monitor (h.tracks.step moved) (ProcessMonitor.worker_frame rfl moved).2.2 (h.others (.inr rfl) moved)
    | _ => simp [sparesProcesses] at spares
  | addProcess o =>
    obtain ⟨p, alive, taken⟩ := Option.bind_eq_some_iff.mp taken
    simp only [Option.ite_none_right_eq_some] at taken
    obtain ⟨started, taken⟩ := taken
    obtain ⟨m, moved, rfl⟩ := Option.map_eq_some_iff.mp taken
    cases ProcessMonitor.change_of_step moved with
    | adds =>
      split
      · rename_i accepted
        exact h.adds alive started accepted
      · rename_i refused
        rw [add_rejected refused]
        exact h
  | waitpid k fails =>
    obtain ⟨o, atK, taken⟩ := Option.bind_eq_some_iff.mp taken
    obtain ⟨p, alive, taken⟩ := Option.bind_eq_some_iff.mp taken
    simp only [Option.ite_none_right_eq_some] at taken
    obtain ⟨⟨holds, outside, enabled⟩, taken⟩ := taken
    obtain ⟨m, moved⟩ := Option.isSome_iff_exists.mp enabled
    obtain ⟨⟨result, kernel⟩, answer, taken⟩ := Option.bind_eq_some_iff.mp taken
    simp only [Option.ite_none_right_eq_some, Option.some.injEq] at taken
    obtain ⟨same, rfl⟩ := taken
    exact h.waitpid atK alive holds outside (waiting_of_waitpid moved) answer same
  | waitReturns k =>
    obtain ⟨o, atK, taken⟩ := Option.bind_eq_some_iff.mp taken
    obtain ⟨p, alive, taken⟩ := Option.bind_eq_some_iff.mp taken
    simp only [Option.ite_none_right_eq_some] at taken
    obtain ⟨inside, taken⟩ := taken
    obtain ⟨m, moved, rfl⟩ := Option.map_eq_some_iff.mp taken
    exact h.waitReturns atK alive inside moved

theorem init_sound : ({} : MonitoredProcesses).Sound answers where
  tracks := ProcessMonitor.init_tracks
  sane := ProcessObjects.init_sane
  matched := by
    refine ⟨fun there => ?_, fun unreaped => ?_, fun unreaped => ?_⟩
    · simp [ProcessObjects.init, ProcessTable.init, ProcessTable.pids, OrderedMap.keys, OrderedMap.empty] at there
    · obtain ⟨_, p, alive, _⟩ := unreaped
      simp [ProcessObjects.init, ProcessObjects.object] at alive
    · obtain ⟨_, p, alive, _⟩ := unreaped
      simp [ProcessObjects.init, ProcessObjects.object] at alive
  length := rfl
  target atK := by simp at atK
  reaped member := by simp at member
  returning member := by simp at member

theorem sound {ts : List (Transition MonitoredProcesses Action)}
    (run : Run (MonitoredProcesses.step answers) {} ts w) : w.Sound answers :=
  run.invariant (I := Sound answers) init_sound (fun h taken => h.step taken)

/-- The map has an entry for exactly the processes that are not reported yet. -/
theorem Sound.monitored_pid (h : w.Sound answers) (pid : Pid) : pid ∈ w.monitor.status.keys ↔
    ∃ o p, w.Monitors o ∧ w.processes.object o = some p ∧ p.pid = pid := by
  rw [OrderedMap.mem_keys]
  constructor
  · intro ⟨k, found⟩
    obtain ⟨known, unreported⟩ := (h.tracks.status pid k).mp found
    have within : k < w.targets.length := by
      rw [h.length]
      exact ProcessMonitor.pidOf_lt known
    have atK := List.getElem?_eq_getElem within
    obtain ⟨p, alive, _, same⟩ := h.target atK
    exact ⟨_, p, ⟨k, atK, unreported⟩, alive, Option.some.inj (same.symm.trans known)⟩
  · intro ⟨o, p, ⟨k, atK, unreported⟩, alive, same⟩
    obtain ⟨p', alive', _, known⟩ := h.target atK
    cases Option.some.inj (alive.symm.trans alive')
    exact ⟨k, (h.tracks.status pid k).mpr ⟨same ▸ known, unreported⟩⟩

theorem Sound.rejects_iff (h : w.Sound answers) {o : Nat} {p : Process}
    (alive : w.processes.object o = some p) : w.Rejects o ↔
      ∃ o' p', w.Monitors o' ∧ w.processes.object o' = some p' ∧ p'.pid = p.pid := by
  rw [← h.monitored_pid]
  constructor
  · intro ⟨q, alive', rejected⟩
    cases Option.some.inj (alive.symm.trans alive')
    by_contra unknown
    simp [ProcessMonitor.add, ProcessMonitor.checkDuplicatedPid, unknown] at rejected
  · intro known
    exact ⟨p, alive, by simp only [ProcessMonitor.add, ProcessMonitor.checkDuplicatedPid, known, if_true]⟩

/-- No two monitored processes have one pid. -/
theorem Sound.single (h : w.Sound answers) {o o' : Nat} {p p' : Process} (here : w.Monitors o)
    (there : w.Monitors o') (alive : w.processes.object o = some p)
    (alive' : w.processes.object o' = some p') (same : p'.pid = p.pid) : o' = o := by
  obtain ⟨k, atK, unreported⟩ := here
  obtain ⟨k', atK', unreported'⟩ := there
  obtain ⟨q, aliveK, _, known⟩ := h.target atK
  obtain ⟨q', aliveK', _, known'⟩ := h.target atK'
  cases Option.some.inj (alive.symm.trans aliveK)
  cases Option.some.inj (alive'.symm.trans aliveK')
  have found := (h.tracks.status p.pid k).mpr ⟨known, unreported⟩
  have found' := (h.tracks.status p.pid k').mpr ⟨same ▸ known', unreported'⟩
  cases Option.some.inj (found.symm.trans found')
  exact Option.some.inj (atK'.symm.trans atK)

/-- `add_process` throws for a process that is not itself monitored if and only if another monitored
process has its pid: for a process whose child is not reaped, one whose child was reaped by its worker and
which is yet to be collected by `wait_for_any`. -/
theorem rejects_monitored_iff {ts : List (Transition MonitoredProcesses Action)}
    (run : Run (step answers) {} ts w) {o : Nat} {p : Process}
    (alive : w.processes.object o = some p) (started : p.started = true) :
    ((w.Rejects o → w.Monitors o) ↔ ∀ o', ¬ w.Namesake o o') ∧
      (o ∉ w.reaped → ∀ o', w.Namesake o o' → o' ∈ w.reaped) := by
  have h := sound run
  refine ⟨⟨?_, ?_⟩, ?_⟩
  · rintro only o' ⟨other, there, q, p', atO, alive', same⟩
    cases Option.some.inj (alive.symm.trans atO)
    have here := only ((h.rejects_iff alive).mpr ⟨o', p', there, alive', same⟩)
    exact other (h.single here there alive alive' same)
  · intro none rejected
    obtain ⟨o', p', there, alive', same⟩ := (h.rejects_iff alive).mp rejected
    by_cases other : o' = o
    · exact other ▸ there
    · exact absurd ⟨other, there, p, p', alive, alive', same⟩ (none o')
  · rintro unreaped o' ⟨other, _, q, p', atO, alive', same⟩
    cases Option.some.inj (alive.symm.trans atO)
    by_contra unreaped'
    -- the kernel gives no two children one pid while neither is reaped
    have started' : p'.started = true := by rwa [Process.started, same]
    exact other (h.matched.single ⟨unreaped', p', alive', started', same⟩ ⟨unreaped, p, alive, started, rfl⟩)

/-- Two processes that run at the same time: the one that is not monitored yet is not turned away. -/
theorem rejects_monitored_iff_two : ∃ ts w, Run (step fun _ => .ok (7, 0)) {} ts w ∧
    w.Monitors 0 ∧ w.Rejects 0 ∧ ¬ w.Rejects 1 := by
  obtain ⟨ts, w, run, _, test⟩ := run_of_exec_any (step fun _ => .ok (7, 0)) {}
    [.process (.construct ["sleep"] {}), .process (.start 0 true (.child 7)), .addProcess 0,
      .process (.construct ["sleep"] {}), .process (.start 1 true (.child 8))]
    (fun w => (w.processes.object 0).map (fun p => (p.pid, p.started)) = some (7, true) ∧
      (w.processes.object 1).map (fun p => (p.pid, p.started)) = some (8, true) ∧ w.targets = [0] ∧
      w.monitor.returned = [] ∧ w.monitor.status.keys = [7]) rfl
  obtain ⟨first, second, targets, returned, keys⟩ := of_decide_eq_true test
  obtain ⟨p, alive, shape⟩ := Option.map_eq_some_iff.mp first
  obtain ⟨q, alive', shape'⟩ := Option.map_eq_some_iff.mp second
  have monitored : w.Monitors 0 := ⟨0, by rw [targets]; rfl, by simp [returned]⟩
  have none : ∀ o', ¬ w.Namesake 1 o' := by
    rintro o' ⟨_, ⟨k, atK, _⟩, r, p', atOne, atO, same⟩
    have isFirst : o' = 0 := by
      have member := List.mem_of_getElem? atK
      simpa [targets] using member
    subst isFirst
    cases Option.some.inj (alive'.symm.trans atOne)
    cases Option.some.inj (alive.symm.trans atO)
    rw [(Prod.mk.inj shape).1, (Prod.mk.inj shape').1] at same
    cases same
  refine ⟨ts, w, run, monitored, ⟨p, alive, ?_⟩, fun rejected => ?_⟩
  · simp [ProcessMonitor.add, ProcessMonitor.checkDuplicatedPid, (Prod.mk.inj shape).1, keys]
  · obtain ⟨k, atK, _⟩ := (rejects_monitored_iff run alive' (Prod.mk.inj shape').2).1.mpr none rejected
    simp [targets, List.getElem?_singleton] at atK

/-- The first process has ended and its worker has reaped it; the second one, which is new, gets the
same pid and is turned away. -/
theorem rejects_new_process : ∃ ts w, Run (step fun _ => .ok (7, 0)) {} ts w ∧
    ts.map Transition.action = [.process (.construct ["sleep"] {}), .process (.start 0 true (.child 7)),
      .addProcess 0, .process (.childEnds 7 0), .waitpid 0 none, .process (.construct ["sleep"] {}),
      .process (.start 1 true (.child 7))] ∧
    w.reaped = [0] ∧ (w.processes.object 1).map Process.holdsChild = some true ∧
    w.Rejects 1 ∧ ¬ w.Monitors 1 := by
  obtain ⟨ts, w, run, labels, test⟩ := run_of_exec_any (step fun _ => .ok (7, 0)) {}
    [.process (.construct ["sleep"] {}), .process (.start 0 true (.child 7)), .addProcess 0,
      .process (.childEnds 7 0), .waitpid 0 none, .process (.construct ["sleep"] {}),
      .process (.start 1 true (.child 7))]
    (fun w => w.reaped = [0] ∧ (w.processes.object 1).map Process.holdsChild = some true ∧
      (w.processes.object 1).map Process.pid = some 7 ∧ w.targets = [0] ∧ w.monitor.status.keys = [7]) rfl
  obtain ⟨reaped, runs, pid, targets, keys⟩ := of_decide_eq_true test
  obtain ⟨p, alive, same⟩ := Option.map_eq_some_iff.mp pid
  refine ⟨ts, w, run, labels, reaped, runs, ⟨p, alive, ?_⟩, ?_⟩
  · simp [ProcessMonitor.add, ProcessMonitor.checkDuplicatedPid, same, keys]
  · rintro ⟨k, atK, _⟩
    simp [targets, List.getElem?_singleton] at atK

end MonitoredProcesses

end Aser
