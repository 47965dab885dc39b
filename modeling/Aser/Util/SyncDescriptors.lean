import Aser.Util.SyncFrames

namespace Aser

open Library

/-- Among the descriptors is an end of the ready pipe of another object than number `i`. -/
def HoldsForeignReady (i : Nat) (fds : List Descriptor) : Prop :=
  ∃ d ∈ fds, d.pipe = .childReadyPipe ∧ d.object ≠ i

namespace SyncProcess

/-- The child closes its own ready pipe before it comes to `execvp`. -/
def ClosesReady (i : Nat) (o : SyncProcess) : Prop :=
  ∀ c todo, o.child = some c → c.phase = .waitForParent todo → ∀ ep,
    ⟨i, .childReadyPipe, ep⟩ ∈ c.fds → .close .childReadyPipe ep ∈ todo

variable {v : View} {o o' : SyncProcess} {a : Action}

theorem mem_waitForParent (ep : EndPoint) : .close .childReadyPipe ep ∈ SyncOp.waitForParent := by
  cases ep <;> decide

/-- A call of the handshake closes no pipe of another object. -/
theorem foreign_perform {fds fds' : List Descriptor} {op : SyncOp} {o₁ : SyncProcess}
    (done : o.perform v fds op = some (.ok (fds', o₁))) :
    HoldsForeignReady v.index fds' ↔ HoldsForeignReady v.index fds := by
  have less := perform_fds done
  constructor
  · intro foreign
    obtain ⟨d, member, ready, other⟩ := foreign
    exact ⟨d, less member, ready, other⟩
  · intro foreign
    obtain ⟨d, member, ready, other⟩ := foreign
    refine ⟨d, ?_, ready, other⟩
    have what := perform_ok done
    cases op with
    | setpgid => exact what.1 ▸ member
    | write pipe => exact what.2.1 ▸ member
    | read pipe => exact what.2.1 ▸ member
    | close pipe ep =>
      rw [what.1, List.mem_filter]
      refine ⟨member, ?_⟩
      simp only [ne_eq, decide_not, Bool.not_eq_eq_eq_not, Bool.not_true, decide_eq_false_iff_not]
      intro same
      exact other (by rw [same])

theorem closesReady_step (closes : o.ClosesReady v.index) (taken : o.step v a = some o') :
    o'.ClosesReady v.index := by
  intro c' todo atChild' phase' ep member
  rcases waiting_of_step atChild' phase' taken with ⟨_, _, rfl, _⟩ | ⟨⟨c, atChild, phase, fds⟩, _⟩ |
    ⟨c, op, ready, _, atChild, phase, done⟩
  · exact mem_waitForParent ep
  · exact closes c todo atChild (phase.trans phase') ep (fds ▸ member)
  · have before := closes c _ atChild phase ep (perform_fds done member)
    rcases List.mem_cons.mp before with rfl | left
    · rw [(perform_ok done).1] at member
      simp at member
    · exact left

/-- A fork happens to an object that has no child yet. -/
theorem fork_starts {pid : Pid} (noPid : v.mayFork (-1) = false)
    (taken : o.step v (.prepare true (.child pid)) = some o') : o.started = false ∧ o'.started = true := by
  cases change_of_step taken with
  | refused refuses => exact absurd rfl (refuses pid rfl)
  | forked idle unstarted may =>
    have other : pid ≠ -1 := by
      intro same
      rw [same, noPid] at may
      cases may
    exact ⟨unstarted, by simpa [started] using other⟩
  | escapes fails => simp [Action.fails] at fails
  | dies signal => simp at signal

/-- A child that executes its command comes with what it held of its own ready pipe closed. -/
theorem executes_clean (closes : o.ClosesReady v.index) (taken : o.step v (.execvp none) = some o') :
    ∃ c c', o.child = some c ∧ c.phase = .waitForParent [] ∧ o'.child = some c' ∧ c'.phase = .program ∧
      (c'.fds = [] ↔ ¬ HoldsForeignReady v.index c.fds) := by
  cases change_of_step taken with
  | @executes c atChild phase =>
    refine ⟨c, _, atChild, phase, rfl, rfl, ?_⟩
    rw [List.filter_eq_nil_iff]
    constructor
    · intro nothing foreign
      obtain ⟨d, member, ready, _⟩ := foreign
      exact nothing d member (by simp [ready])
    · intro noForeign d member other
      have ready : d.pipe = .childReadyPipe := by
        cases pipe : d.pipe with
        | goPipe => simp [pipe] at other
        | childReadyPipe => rfl
      by_cases mine : d.object = v.index
      · have own : ⟨v.index, .childReadyPipe, d.endPoint⟩ ∈ c.fds := by
          rw [← mine, ← ready]
          exact member
        simpa using closes c [] atChild phase d.endPoint own
      · exact noForeign ⟨d, member, ready, mine⟩
  | escapes fails => simp [Action.fails] at fails
  | dies signal => simp at signal

end SyncProcess

namespace SyncWorld

/-- The step is the fork of the child of object `i`. -/
def Forks (i : Nat) (a : Action) : Prop := ∃ pid, a = .object i (.prepare true (.child pid))

/-- The step is the successful `execvp` of that child. -/
def Executes (i : Nat) (a : Action) : Prop := a = .object i (.execvp none)

/-- The program that the child of object `i` runs has no end of any pipe of a `sync_process`. -/
def RunsClean (i : Nat) (w : SyncWorld) : Prop :=
  ∀ (o : SyncProcess) (c : Child), w.objects[i]? = some o → o.child = some c → c.phase = .program → c.fds = []

/-- The parent has an end of the ready pipe of another object than `i` open. -/
def OpenForeignReady (i : Nat) (w : SyncWorld) : Prop := HoldsForeignReady i (w.view i).fds

/-- A child on its way to `execvp` was forked in the run, once, and has got what the parent had open of
the ready pipes of other objects. -/
structure Inherits (ts : List (Transition SyncWorld Action)) (w : SyncWorld) : Prop where
  once : ∀ {i t}, t ∈ ts → Forks i t.action → ∃ o : SyncProcess, w.objects[i]? = some o ∧ o.started = true
  forked : ∀ {i : Nat} {o : SyncProcess} {c : Child} {todo : List SyncOp}, w.objects[i]? = some o →
    o.child = some c → c.phase = .waitForParent todo → ∃ t ∈ ts, Forks i t.action
  foreign : ∀ {i : Nat} {o : SyncProcess} {c : Child} {todo : List SyncOp} {t : Transition SyncWorld Action},
    w.objects[i]? = some o → o.child = some c → c.phase = .waitForParent todo → t ∈ ts → Forks i t.action →
      (HoldsForeignReady i c.fds ↔ OpenForeignReady i t.before)

variable {w w' : SyncWorld} {a : Action} {ts : List (Transition SyncWorld Action)}

theorem Inherits.step (h : Inherits ts w) (taken : w.step a = some w') :
    Inherits (ts ++ [⟨w, a, w'⟩]) w' := by
  -- the child of object `i` after the step: forked in it, or on its way before it
  have origin : ∀ {i : Nat} {q : SyncProcess} {c' : Child} {todo : List SyncOp}, w'.objects[i]? = some q →
      q.child = some c' → c'.phase = .waitForParent todo →
      (Forks i a ∧ c'.fds = (w.view i).fds ∧ ∃ o, w.objects[i]? = some o ∧ o.started = false) ∨
      (¬ Forks i a ∧ ∃ o c todo, w.objects[i]? = some o ∧ o.child = some c ∧ c.phase = .waitForParent todo ∧
        (HoldsForeignReady i c'.fds ↔ HoldsForeignReady i c.fds)) := by
    intro i q c' todo atI atChild' phase'
    rcases object_of_step taken atI with ⟨act, o, rfl, before, moved⟩ | ⟨other, ⟨_, _, _, rfl⟩ | ⟨o, before, same⟩⟩
    · rcases SyncProcess.waiting_of_step atChild' phase' moved with ⟨pid, rfl, _, fds, unstarted⟩ |
        ⟨⟨c, atChild, phase, fds⟩, noFork⟩ | ⟨c, op, o₁, rfl, atChild, phase, done⟩
      · exact .inl ⟨⟨pid, rfl⟩, fds, o, before, unstarted⟩
      · refine .inr ⟨?_, o, c, todo, before, atChild, phase.trans phase', by rw [fds]⟩
        rintro ⟨pid, ⟨⟩⟩
        exact noFork pid rfl
      · refine .inr ⟨?_, o, c, op :: todo, before, atChild, phase, SyncProcess.foreign_perform (v := w.view i) done⟩
        rintro ⟨pid, ⟨⟩⟩
    · simp [SyncProcess.make] at atChild'
    · refine .inr ⟨fun forks => other _ forks.choose_spec, o, c', todo, before, ?_, phase', Iff.rfl⟩
      rcases same with rfl | rfl
      · exact atChild'
      · exact atChild'
  refine ⟨?_, ?_, ?_⟩
  · intro i t member forks
    rcases List.mem_append.mp member with old | new
    · obtain ⟨o, atI, started⟩ := h.once old forks
      obtain ⟨q, atQ⟩ := object_stays taken atI
      refine ⟨q, atQ, ?_⟩
      rcases object_of_step taken atQ with ⟨act, o₀, _, before, moved⟩ | ⟨_, ⟨none, _⟩ | ⟨o₀, before, same⟩⟩
      · cases Option.some.inj (atI.symm.trans before)
        exact SyncProcess.started_kept started moved
      · simp [atI] at none
      · cases Option.some.inj (atI.symm.trans before)
        rcases same with rfl | rfl
        · exact started
        · exact started
    · cases List.mem_singleton.mp new
      obtain ⟨pid, rfl⟩ := forks
      obtain ⟨o, o', _, moved, atI, _⟩ := object_set taken
      exact ⟨o', atI, (SyncProcess.fork_starts w.mayFork_neg moved).2⟩
  · intro i q c' todo atI atChild' phase'
    rcases origin atI atChild' phase' with ⟨forks, _⟩ | ⟨_, o, c, todo, before, atChild, phase, _⟩
    · exact ⟨_, List.mem_append_right _ (List.mem_singleton_self _), forks⟩
    · obtain ⟨t, member, forks⟩ := h.forked before atChild phase
      exact ⟨t, List.mem_append_left _ member, forks⟩
  · intro i q c' todo t atI atChild' phase' member forks
    rcases origin atI atChild' phase' with ⟨_, fds, o, before, unstarted⟩ |
      ⟨noFork, o, c, todo, before, atChild, phase, same⟩
    · rcases List.mem_append.mp member with old | new
      · obtain ⟨o₀, atI, started⟩ := h.once old forks
        cases Option.some.inj (atI.symm.trans before)
        simp [unstarted] at started
      · cases List.mem_singleton.mp new
        rw [fds, OpenForeignReady]
    · rcases List.mem_append.mp member with old | new
      · exact same.trans (h.foreign before atChild phase old forks)
      · cases List.mem_singleton.mp new
        exact absurd forks noFork

theorem closesReady_of_run {pgid : Pid} (run : Run step (init pgid) ts w) :
    w.Each SyncProcess.ClosesReady := by
  refine run.invariant (I := fun w => w.Each SyncProcess.ClosesReady) (each_init pgid) ?_
  intro w a w' closes taken
  exact closes.step taken (fun _ _ => by simp [SyncProcess.ClosesReady, SyncProcess.make])
    (fun i _ _ _ _ _ closes moved => SyncProcess.closesReady_step (v := w.view i) closes moved)
    (fun _ _ _ _ closes => closes)

theorem inherits_of_run {pgid : Pid} (run : Run step (init pgid) ts w) : Inherits ts w := by
  induction run with
  | start => exact ⟨by simp, fun atI => by simp [init] at atI, by simp⟩
  | next _ taken ih => exact ih.step taken

theorem runsClean_iff (closes : w.Each SyncProcess.ClosesReady) {i : Nat}
    (taken : w.step (.object i (.execvp none)) = some w') : ∃ o c, w.objects[i]? = some o ∧
      o.child = some c ∧ c.phase = .waitForParent [] ∧ (w'.RunsClean i ↔ ¬ HoldsForeignReady i c.fds) := by
  obtain ⟨o, o', atI, moved, atI', _⟩ := object_set taken
  obtain ⟨c, c', atChild, phase, atChild', runs, clean⟩ :=
    SyncProcess.executes_clean (v := w.view i) (closes i o atI) moved
  refine ⟨o, c, atI, atChild, phase, Iff.trans ?_ clean⟩
  constructor
  · intro all
    exact all o' c' atI' atChild' runs
  · intro nothing q d atQ atD _
    cases Option.some.inj (atI'.symm.trans atQ)
    cases Option.some.inj (atChild'.symm.trans atD)
    exact nothing

/-- A successful `execvp` leaves the new program no end of a pipe of any `sync_process` if and only if
its child was forked while the parent had no end of another object's ready pipe open; so none does
in a run all of whose forks are like that. -/
theorem exec_leaks_nothing_iff {pgid : Pid} (run : Run step (init pgid) ts w) :
    (∀ t ∈ ts, ∀ i, Executes i t.action →
      (∃ t₀ ∈ ts, Forks i t₀.action) ∧
        ∀ t₀ ∈ ts, Forks i t₀.action → (t.after.RunsClean i ↔ ¬ t₀.before.OpenForeignReady i)) ∧
      ((∀ t ∈ ts, ∀ i, Forks i t.action → ¬ t.before.OpenForeignReady i) →
        ∀ t ∈ ts, ∀ i, Executes i t.action → t.after.RunsClean i) := by
  have exact : ∀ t ∈ ts, ∀ i, Executes i t.action → (∃ t₀ ∈ ts, Forks i t₀.action) ∧
      ∀ t₀ ∈ ts, Forks i t₀.action → (t.after.RunsClean i ↔ ¬ t₀.before.OpenForeignReady i) := by
    induction run with
    | start => simp
    | @next ts w a w' previous taken ih =>
      have inherits := inherits_of_run previous
      intro t member i executes
      rcases List.mem_append.mp member with old | new
      · obtain ⟨⟨t₁, member₁, forks₁⟩, iff⟩ := ih t old i executes
        refine ⟨⟨t₁, List.mem_append_left _ member₁, forks₁⟩, fun t₀ member₀ forks => ?_⟩
        rcases List.mem_append.mp member₀ with old₀ | new₀
        · exact iff t₀ old₀ forks
        · -- the object has its child already
          cases List.mem_singleton.mp new₀
          obtain ⟨pid, rfl⟩ := forks
          obtain ⟨o, o', atI, moved, _⟩ := object_set taken
          obtain ⟨o₁, atI₁, started⟩ := inherits.once member₁ forks₁
          cases Option.some.inj (atI.symm.trans atI₁)
          have unstarted := (SyncProcess.fork_starts w.mayFork_neg moved).1
          simp [unstarted] at started
      · cases List.mem_singleton.mp new
        have isExec : a = .object i (.execvp none) := executes
        subst isExec
        obtain ⟨o, c, atI, atChild, phase, clean⟩ := runsClean_iff (closesReady_of_run previous) taken
        obtain ⟨t₁, member₁, forks₁⟩ := inherits.forked atI atChild phase
        refine ⟨⟨t₁, List.mem_append_left _ member₁, forks₁⟩, fun t₀ member₀ forks => ?_⟩
        rcases List.mem_append.mp member₀ with old₀ | new₀
        · rw [clean, inherits.foreign atI atChild phase old₀ forks]
        · cases List.mem_singleton.mp new₀
          obtain ⟨pid, ⟨⟩⟩ := forks
  refine ⟨exact, fun guarded t member i executes => ?_⟩
  obtain ⟨⟨t₀, before, forks⟩, iff⟩ := exact t member i executes
  exact (iff t₀ before forks).mpr (guarded t₀ before i forks)

/-- The calls of one object from its construction to the `execvp` of its child. -/
def launchObject (i : Nat) (pid : Pid) : List Action :=
  [.object i (.prepare true (.child pid))] ++ List.replicate 5 (.object i .child) ++
    List.replicate 5 (.object i .parent) ++ [.object i .start, .object i .parent, .object i .child,
      .object i .parent, .object i (.execvp none)]

/-- A transition that forks a child, if it does, has nothing of another ready pipe open. -/
def forksTight (t : Transition SyncWorld Action) : Bool :=
  match t.action with
  | .object i (.prepare _ _) => (t.before.view i).fds.all fun d => d.pipe ≠ .childReadyPipe || d.object = i
  | _ => true

/-- The second process is made when the first one is prepared. -/
theorem exec_leaks_nothing_iff_two : ∃ ts w, Run step (init 1) ts w ∧
    (∃ t ∈ ts, Executes 0 t.action) ∧ (∃ t ∈ ts, Executes 1 t.action) ∧
      ∀ t ∈ ts, ∀ i, Executes i t.action → t.after.RunsClean i := by
  obtain ⟨ts, w, run, test⟩ := run_of_trace_any step (init 1)
    ([.construct ["sleep"] true] ++ launchObject 0 5 ++ [.construct ["sleep"] true] ++ launchObject 1 6)
    (fun ts => ts.any (fun t => t.action = .object 0 (.execvp none)) &&
      ts.any (fun t => t.action = .object 1 (.execvp none)) && ts.all forksTight) rfl
  obtain ⟨both, tight⟩ := Bool.and_eq_true_iff.mp test
  obtain ⟨first, second⟩ := Bool.and_eq_true_iff.mp both
  obtain ⟨t₀, member₀, executes₀⟩ := List.any_eq_true.mp first
  obtain ⟨t₁, member₁, executes₁⟩ := List.any_eq_true.mp second
  have isFirst : t₀.action = .object 0 (.execvp none) := of_decide_eq_true executes₀
  have isSecond : t₁.action = .object 1 (.execvp none) := of_decide_eq_true executes₁
  refine ⟨ts, w, run, ⟨t₀, member₀, isFirst⟩, ⟨t₁, member₁, isSecond⟩, (exec_leaks_nothing_iff run).2 ?_⟩
  intro t member i forks foreign
  obtain ⟨pid, action⟩ := forks
  obtain ⟨d, inView, ready, other⟩ := foreign
  have closed := List.all_eq_true.mp tight t member
  rw [forksTight, action] at closed
  have mine := List.all_eq_true.mp closed d inView
  simp [ready, other] at mine

/-- Two processes are made before the first one is prepared: its program gets both ends of the ready
pipe of the second. -/
theorem exec_leaks_ready_pipe : ∃ ts w, Run step (init 1) ts w ∧
    ts.map Transition.action = [.construct ["sleep"] true, .construct ["sleep"] true] ++ launchObject 0 5 ∧
      ¬ w.RunsClean 0 := by
  obtain ⟨ts, w, run, labels, test⟩ := run_of_exec_any step (init 1)
    ([.construct ["sleep"] true, .construct ["sleep"] true] ++ launchObject 0 5)
    (fun w => w.objects[0]?.any fun o => o.child.any fun c => c.phase = .program ∧
      c.fds = [⟨1, .childReadyPipe, .readEnd⟩, ⟨1, .childReadyPipe, .writeEnd⟩]) rfl
  refine ⟨ts, w, run, labels, fun clean => ?_⟩
  obtain ⟨o, atZero, runs⟩ := (Option.any_eq_true _ _).mp test
  obtain ⟨c, atChild, known⟩ := (Option.any_eq_true _ _).mp runs
  obtain ⟨phase, fds⟩ := of_decide_eq_true known
  have nothing := clean o c atZero atChild phase
  simp [fds] at nothing

end SyncWorld

end Aser
