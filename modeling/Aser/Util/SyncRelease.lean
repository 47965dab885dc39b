import Aser.Util.SyncSteps

namespace Aser

open Library

/-- The operations left in a call are operations of that call; `start` is called after the fork. -/
def ParentCall.Fits (call : ParentCall) (forked : Bool) : Prop :=
  match call with
  | .prepare todo => forked = true ∧ todo ⊆ SyncOp.waitForChild
  | .start todo => forked = true ∧ todo ⊆ SyncOp.start
  | .destroyPipes todo => todo ⊆ SyncOp.destroyPipes
  | _ => True

/-- A call that goes on is the call it was. -/
theorem ParentCall.cases_of_next {call call' : ParentCall} {op : SyncOp}
    (next : call.next = some (op, call')) :
    (∃ todo, call = .prepare (op :: todo) ∧ call' = .prepare todo) ∨
    (∃ todo, call = .start (op :: todo) ∧ call' = .start todo) ∨
    (∃ todo, call = .destroyPipes (op :: todo) ∧ call' = .destroyPipes todo) := by
  unfold ParentCall.next at next
  split at next
  · cases next
    exact .inl ⟨_, rfl, rfl⟩
  · cases next
    exact .inr (.inl ⟨_, rfl, rfl⟩)
  · cases next
    exact .inr (.inr ⟨_, rfl, rfl⟩)
  · simp at next

theorem ParentCall.Fits.next {call call' : ParentCall} {forked : Bool} {op : SyncOp}
    (fits : call.Fits forked) (next : call.next = some (op, call')) :
    call'.Fits forked ∧ op ≠ .setpgid ∧ op ≠ .read .goPipe ∧ (op = .write .goPipe → forked = true) := by
  have ofParent : ∀ op ∈ SyncOp.waitForChild ++ SyncOp.start ++ SyncOp.destroyPipes,
      op ≠ .setpgid ∧ op ≠ .read .goPipe := by decide
  have noWrite : ∀ op ∈ SyncOp.destroyPipes, op ≠ .write .goPipe := by decide
  rcases cases_of_next next with ⟨todo, rfl, rfl⟩ | ⟨todo, rfl, rfl⟩ | ⟨todo, rfl, rfl⟩
  · obtain ⟨forked, fits⟩ := fits
    obtain ⟨here, left⟩ := List.cons_subset.mp fits
    obtain ⟨notSetpgid, noRead⟩ := ofParent op (by simp [here])
    exact ⟨⟨forked, left⟩, notSetpgid, noRead, fun _ => forked⟩
  · obtain ⟨forked, fits⟩ := fits
    obtain ⟨here, left⟩ := List.cons_subset.mp fits
    obtain ⟨notSetpgid, noRead⟩ := ofParent op (by simp [here])
    exact ⟨⟨forked, left⟩, notSetpgid, noRead, fun _ => forked⟩
  · obtain ⟨here, left⟩ := List.cons_subset.mp fits
    obtain ⟨notSetpgid, noRead⟩ := ofParent op (by simp [here])
    exact ⟨left, notSetpgid, noRead, fun write => absurd write (noWrite op here)⟩

namespace SyncProcess

/-- The child has come to `execvp`, or past it. -/
def AtExecvp (o : SyncProcess) : Prop :=
  ∃ c, o.child = some c ∧ (c.phase = .waitForParent [] ∨ c.phase = .program)

/-- The next thing the child does is to read the go pipe, which is empty and cannot be written to by
anybody: the read returns 0. -/
def ReadsGoAtEof (o : SyncProcess) (v : View) : Prop :=
  ∃ c, o.child = some c ∧ c.phase = .waitForParent [.read .goPipe] ∧
    ⟨v.index, .goPipe, .readEnd⟩ ∈ c.fds ∧ o.goBytes = 0 ∧ v.held .goPipe .writeEnd = false

/-- Parent and child follow the handshake: a byte in the go pipe was written by `start`, and once it
is written it stays there for the child to read. -/
structure Handshake (o : SyncProcess) : Prop where
  forked : o.started = o.child.isSome
  unwritten : o.child = none → o.goWritten = false
  written : 0 < o.goBytes → o.goWritten = true
  calls : o.call.Fits o.child.isSome
  todo : ∀ {c todo}, o.child = some c → c.phase = .waitForParent todo → todo <:+ SyncOp.waitForParent
  waits : ∀ {c todo}, o.child = some c → c.phase = .waitForParent todo → todo ≠ [] →
    o.goWritten = true → 0 < o.goBytes

variable {v : View} {o o' : SyncProcess}

/-- The go pipe is the last thing a child in `wait_for_parent` touches. -/
theorem waitForParent_suffix {op : SyncOp} {todo : List SyncOp}
    (suffix : op :: todo <:+ SyncOp.waitForParent) : todo <:+ SyncOp.waitForParent ∧
      (op = .read .goPipe ∧ todo = [] ∨ op ≠ .write .goPipe ∧ op ≠ .read .goPipe ∧ todo ≠ []) := by
  refine ⟨(List.suffix_cons op todo).trans suffix, ?_⟩
  simp only [SyncOp.waitForParent, List.suffix_cons_iff, List.cons.injEq, List.suffix_nil] at suffix
  rcases suffix with ⟨rfl, rfl⟩ | ⟨rfl, rfl⟩ | ⟨rfl, rfl⟩ | ⟨rfl, rfl⟩ | ⟨rfl, rfl⟩ | ⟨rfl, rfl⟩ | h
  all_goals simp_all

/-- A step that leaves the go pipe alone and sends no child back into `wait_for_parent`. -/
theorem Handshake.quiet (h : o.Handshake) (go : o'.goBytes = o.goBytes)
    (written : o'.goWritten = o.goWritten) (pid : o'.pid = o.pid)
    (forked : o'.child.isSome = o.child.isSome) (calls : o'.call.Fits o.child.isSome)
    (child : ∀ {c' todo}, o'.child = some c' → c'.phase = .waitForParent todo →
      ∃ c, o.child = some c ∧ c.phase = .waitForParent todo) : o'.Handshake where
  forked := by rw [forked, ← h.forked, started, started, pid]
  unwritten none := by
    rw [written]
    apply h.unwritten
    simpa [none] using forked.symm
  written bytes := by
    rw [written]
    exact h.written (go ▸ bytes)
  calls := forked ▸ calls
  todo here phase := by
    obtain ⟨c, atChild, phase⟩ := child here phase
    exact h.todo atChild phase
  waits here phase left isWritten := by
    obtain ⟨c, atChild, phase⟩ := child here phase
    rw [go]
    exact h.waits atChild phase left (written ▸ isWritten)

theorem map_dies_not_waiting {status : Int} {c' : Child} {todo : List SyncOp}
    (died : o.child.map (·.dies status) = some c') : c'.phase ≠ .waitForParent todo := by
  have dead := Child.not_running_of_dies died
  intro waiting
  simp [Child.running, waiting] at dead

theorem map_dies_not_program {status : Int} {c' : Child}
    (died : o.child.map (·.dies status) = some c') : c'.phase ≠ .program := by
  have dead := Child.not_running_of_dies died
  intro runs
  simp [Child.running, runs] at dead

theorem Handshake.parentDoes (h : o.Handshake) {op : SyncOp} {call : ParentCall}
    {fds : List Descriptor} {o₁ : SyncProcess} (next : o.call.next = some (op, call))
    (done : o.perform v o.fds op = some (.ok (fds, o₁))) :
    Handshake { o₁ with fds, call, goWritten := o₁.goWritten || op == .write .goPipe } := by
  obtain ⟨fits, notSetpgid, noRead, writes⟩ := h.calls.next next
  obtain ⟨ready, rfl⟩ := perform_parent done notSetpgid
  have more := SyncOp.le_goBytes noRead o.goBytes
  by_cases write : op = .write .goPipe
  · subst write
    refine ⟨h.forked, fun none => ?_, fun _ => by simp, fits, h.todo, fun _ _ _ _ => ?_⟩
    · have forked := writes rfl
      have gone : o.child = Option.none := none
      simp [gone] at forked
    · show 0 < o.goBytes + 1
      omega
  · have equal := SyncOp.goBytes_of_unrelated write noRead o.goBytes
    refine ⟨h.forked, fun none => ?_, fun bytes => ?_, fits, h.todo, fun atChild phase left isWritten => ?_⟩
    · simpa [write] using h.unwritten none
    · simpa [write] using h.written (equal ▸ bytes)
    · have before := h.waits atChild phase left (by simpa [write] using isWritten)
      exact Nat.lt_of_lt_of_le before more

theorem Handshake.childDoes (h : o.Handshake) {c : Child} {op : SyncOp} {todo : List SyncOp}
    {fds : List Descriptor} {o₁ : SyncProcess} (atChild : o.child = some c)
    (phase : c.phase = .waitForParent (op :: todo))
    (done : o.perform v c.fds op = some (.ok (fds, o₁))) :
    Handshake { o₁ with child := o₁.child.map fun c => { c with phase := .waitForParent todo, fds } } := by
  obtain ⟨suffix, which⟩ := waitForParent_suffix (h.todo atChild phase)
  have noWrite : op ≠ .write .goPipe := by
    rcases which with ⟨rfl, _⟩ | ⟨noWrite, _⟩
    · simp
    · exact noWrite
  obtain ⟨ready, pgid, rfl⟩ := perform_child done atChild
  have less := SyncOp.goBytes_le noWrite o.goBytes
  refine ⟨?_, by simp, fun bytes => h.written (Nat.lt_of_lt_of_le bytes less), ?_, ?_, ?_⟩
  · exact h.forked.trans (by simp [atChild])
  · simpa [atChild] using h.calls
  · rintro _ _ ⟨⟩ ⟨⟩
    exact suffix
  · rintro _ _ ⟨⟩ ⟨⟩ left isWritten
    rcases which with ⟨_, rfl⟩ | ⟨_, noRead, _⟩
    · exact absurd rfl left
    · have before := h.waits atChild phase (by simp) isWritten
      exact Nat.lt_of_lt_of_le before (SyncOp.le_goBytes noRead o.goBytes)

theorem Handshake.step (h : o.Handshake) {a : Action} (noPid : v.mayFork (-1) = false)
    (taken : o.step v a = some o') : o'.Handshake := by
  have same : ∀ {c todo}, o.child = some c → c.phase = .waitForParent todo →
      ∃ c, o.child = some c ∧ c.phase = .waitForParent todo := fun here phase => ⟨_, here, phase⟩
  cases change_of_step taken with
  | refused => exact h
  | @forked pid _ unstarted may =>
    have fresh : o.child = none := by simpa using h.forked.symm.trans unstarted
    have other : pid ≠ -1 := by
      intro same
      subst same
      simp [noPid] at may
    refine ⟨by simp [started, other], by simp, h.written, ⟨rfl, List.Subset.refl _⟩, ?_, ?_⟩
    · rintro _ _ ⟨⟩ ⟨⟩
      exact List.suffix_refl _
    · rintro _ _ ⟨⟩ ⟨⟩ _ isWritten
      exact absurd isWritten (by simp [h.unwritten fresh])
  | starts _ started =>
    exact h.quiet rfl rfl rfl rfl ⟨h.forked.symm.trans started, List.Subset.refl _⟩ same
  | destroys => exact h.quiet rfl rfl rfl rfl (List.Subset.refl SyncOp.destroyPipes) same
  | parentDoes next done => exact h.parentDoes next done
  | parentFails => exact h.quiet rfl rfl rfl rfl trivial same
  | parentThrows => exact h.quiet rfl rfl rfl rfl trivial same
  | swallows => exact h.quiet rfl rfl rfl rfl trivial same
  | prepared => exact h.quiet rfl rfl rfl rfl trivial same
  | started => exact h.quiet rfl rfl rfl rfl trivial same
  | pipesDestroyed =>
    refine h.quiet rfl rfl rfl rfl ?_ same
    dsimp only
    split <;> trivial
  | killed =>
    exact h.quiet rfl rfl rfl (by simp) trivial
      (fun child phase => absurd phase (map_dies_not_waiting child))
  | reaped _ atChild ended => exact h.quiet rfl rfl rfl (by simp [atChild]) trivial (by rintro _ _ ⟨⟩ ⟨⟩)
  | waits => exact h.quiet rfl rfl rfl rfl h.calls same
  | collects _ atChild ended => exact h.quiet rfl rfl rfl (by simp [atChild]) h.calls (by rintro _ _ ⟨⟩ ⟨⟩)
  | waitFails => exact h.quiet rfl rfl rfl rfl h.calls same
  | waited => exact h.quiet rfl rfl rfl rfl h.calls same
  | childDoes atChild phase done => exact h.childDoes atChild phase done
  | executes atChild phase => exact h.quiet rfl rfl rfl (by simp [atChild]) h.calls (by rintro _ _ ⟨⟩ ⟨⟩)
  | childFails atChild => exact h.quiet rfl rfl rfl (by simp [atChild]) h.calls (by rintro _ _ ⟨⟩ ⟨⟩)
  | escapes _ atChild => exact h.quiet rfl rfl rfl (by simp [atChild]) h.calls (by rintro _ _ ⟨⟩ ⟨⟩)
  | dies =>
    exact h.quiet rfl rfl rfl (by simp) h.calls
      (fun child phase => absurd phase (map_dies_not_waiting child))

/-- A step brings a child to `execvp` without the go byte only by a read at end-of-file. -/
theorem Handshake.exec_iff (h : o.Handshake) {a : Action}
    (only : o.AtExecvp → o.goWritten = true) (taken : o.step v a = some o') :
    (o'.AtExecvp → o'.goWritten = true) ↔ (a = .child → ¬ o.ReadsGoAtEof v) := by
  have other : (o'.AtExecvp → o.AtExecvp) → (o.goWritten = true → o'.goWritten = true) →
      (a = .child → ¬ o.ReadsGoAtEof v) →
      ((o'.AtExecvp → o'.goWritten = true) ↔ (a = .child → ¬ o.ReadsGoAtEof v)) :=
    fun back keeps guard => iff_of_true (fun at' => keeps (only (back at'))) guard
  cases change_of_step taken with
  | refused => exact other id id (by simp)
  | forked => exact other (by rintro ⟨_, ⟨⟩, phase⟩; simp [SyncOp.waitForParent] at phase) id (by simp)
  | parentDoes next done =>
    obtain ⟨ready, rfl⟩ := perform_parent done (h.calls.next next).2.1
    exact other id (fun isWritten => by simp [isWritten]) (by simp)
  | @childDoes c op todo fds o₁ atChild phase done =>
    obtain ⟨suffix, which⟩ := waitForParent_suffix (h.todo atChild phase)
    have performed := perform_ok done
    obtain ⟨ready, pgid, rfl⟩ := perform_child done atChild
    rcases which with ⟨rfl, rfl⟩ | ⟨_, noRead, left⟩
    · obtain ⟨here, _, _, unheld⟩ := performed
      constructor
      · intro only' _ eof
        obtain ⟨c', atChild', _, _, empty, _⟩ := eof
        have isWritten := only' ⟨_, rfl, .inl rfl⟩
        have byte := h.waits atChild phase (by simp) isWritten
        omega
      · intro notEof _
        refine h.written (Nat.pos_of_ne_zero fun empty => ?_)
        exact notEof rfl ⟨c, atChild, phase, here, empty, unheld empty⟩
    · refine other ?_ id ?_
      · intro ready
        rcases ready with ⟨_, ⟨⟩, phase | phase⟩
        · simp [left] at phase
        · simp at phase
      · intro _ eof
        obtain ⟨c', atChild', phase', _⟩ := eof
        cases Option.some.inj (atChild.symm.trans atChild')
        rw [phase] at phase'
        simp [noRead] at phase'
  | childFails atChild phase failed =>
    refine other (by rintro ⟨_, ⟨⟩, phase⟩; simp at phase) id ?_
    intro _ eof
    obtain ⟨c', atChild', phase', here, _⟩ := eof
    cases Option.some.inj (atChild.symm.trans atChild')
    cases phase.symm.trans phase'
    -- a read that has its end open does not fail
    simp only [perform, here, not_true_eq_false, if_false] at failed
    repeat' split at failed
    all_goals simp at failed
  | executes atChild phase => exact other (fun _ => ⟨_, atChild, .inl phase⟩) id (by simp)
  | escapes fails =>
    refine other (by rintro ⟨_, ⟨⟩, phase⟩; simp at phase) id ?_
    intro same
    subst same
    simp [Action.fails] at fails
  | dies signal =>
    refine other ?_ id (fun same => by simp [same] at signal)
    intro ready
    rcases ready with ⟨c', died, phase | phase⟩
    · exact absurd phase (map_dies_not_waiting died)
    · exact absurd phase (map_dies_not_program died)
  | killed =>
    refine other ?_ id (by simp)
    intro ready
    rcases ready with ⟨c', died, phase | phase⟩
    · exact absurd phase (map_dies_not_waiting died)
    · exact absurd phase (map_dies_not_program died)
  | reaped => exact other (by rintro ⟨_, ⟨⟩, phase⟩; simp at phase) id (by simp)
  | collects => exact other (by rintro ⟨_, ⟨⟩, phase⟩; simp at phase) id (by simp)
  | starts | destroys | parentFails | parentThrows | swallows | prepared | started | pipesDestroyed | waits | waitFails |
    waited =>
    exact other id id (by simp)

/-- The child waits and has not been told to go. -/
def OnHold (o : SyncProcess) : Prop :=
  o.goWritten = false ∧ ∃ c todo, o.child = some c ∧ c.phase = .waitForParent todo ∧ todo ≠ []

/-- As long as the child is on hold the parent can still write to its go pipe. -/
structure Holding (i : Nat) (o : SyncProcess) : Prop where
  own : ∀ {d}, d ∈ o.fds → d.object = i
  starting : ∀ {todo}, o.call = .start todo → todo = SyncOp.start ∨ o.goWritten = true
  fresh : o.child = none → o.alive = true → ⟨i, .goPipe, .readEnd⟩ ∈ o.fds → ⟨i, .goPipe, .writeEnd⟩ ∈ o.fds
  alive : o.OnHold → o.alive = true
  writable : o.OnHold → ∀ c, o.child = some c → ⟨i, .goPipe, .readEnd⟩ ∈ c.fds →
    ⟨i, .goPipe, .writeEnd⟩ ∈ o.fds

theorem Holding.make (i : Nat) (args : List String) : Holding i (SyncProcess.make i args) := by
  refine ⟨?_, by simp [SyncProcess.make], ?_, ?_, ?_⟩
  · intro d member
    simp only [SyncProcess.make, openEnds, List.mem_cons, List.not_mem_nil, or_false] at member
    rcases member with rfl | rfl | rfl | rfl <;> rfl
  · intro _ _ member
    simp [SyncProcess.make, openEnds]
  · intro held
    obtain ⟨_, c, _, atChild, _⟩ := held
    simp [SyncProcess.make] at atChild
  · intro held
    obtain ⟨_, c, _, atChild, _⟩ := held
    simp [SyncProcess.make] at atChild

theorem OnHold.reads {v : View} (h : o.Handshake) (reads : o.ReadsGoAtEof v) : o.OnHold := by
  obtain ⟨c, atChild, phase, _, empty, _⟩ := reads
  refine ⟨?_, c, _, atChild, phase, by simp⟩
  by_contra isWritten
  have byte := h.waits atChild phase (by simp) (by simpa using isWritten)
  omega

/-- A parent that has the write end open keeps its child from reading end-of-file. -/
theorem Holding.not_eof (holding : Holding v.index o) (h : o.Handshake)
    (seen : ⟨v.index, .goPipe, .writeEnd⟩ ∈ o.fds → v.held .goPipe .writeEnd = true) :
    ¬ o.ReadsGoAtEof v := by
  intro reads
  have hold := OnHold.reads h reads
  obtain ⟨c, atChild, _, here, _, unheld⟩ := reads
  have open_ := seen (holding.writable hold c atChild here)
  simp [unheld] at open_

/-- A step after which the child is on hold only if it was before, with the same descriptors on both
sides. -/
theorem Holding.quiet {i : Nat} (holding : Holding i o) (fds : o'.fds = o.fds)
    (starting : ∀ {todo}, o'.call = .start todo → todo = SyncOp.start ∨ o'.goWritten = true)
    (fresh : o'.child = none → o.child = none ∧ (o'.alive = true → o.alive = true))
    (hold : o'.OnHold → o.OnHold ∧ (o.alive = true → o'.alive = true) ∧
      ∀ c', o'.child = some c' → ∃ c, o.child = some c ∧ c'.fds ⊆ c.fds) : Holding i o' where
  own member := holding.own (fds ▸ member)
  starting := starting
  fresh none alive' readable := by
    obtain ⟨gone, back⟩ := fresh none
    rw [fds] at readable ⊢
    exact holding.fresh gone (back alive') readable
  alive held := (hold held).2.1 (holding.alive (hold held).1)
  writable held c' atChild readable := by
    obtain ⟨before, _, kept⟩ := hold held
    obtain ⟨c, atChild', less⟩ := kept c' atChild
    rw [fds]
    exact holding.writable before c atChild' (less readable)

/-- The parent goes on to another call, or to none, on an object that stays there. -/
theorem Holding.goes {i : Nat} (holding : Holding i o) (alive : o.alive = true) (still : o'.alive = true)
    (fds : o'.fds = o.fds) (child : o'.child = o.child) (written : o'.goWritten = o.goWritten)
    (starting : ∀ {todo}, o'.call = .start todo → todo = SyncOp.start ∨ o'.goWritten = true) :
    Holding i o' := by
  refine holding.quiet fds starting (fun none => ⟨child ▸ none, fun _ => alive⟩) (fun held => ?_)
  rw [OnHold, child, written] at held
  exact ⟨held, fun _ => still, fun c' atChild => ⟨c', child ▸ atChild, List.Subset.refl _⟩⟩

/-- Only calls on an object that is still there fail: closing a pipe does not. -/
theorem alive_of_failed (h : o.Handshake) {op : SyncOp} {call : ParentCall} {e : Exception}
    (next : o.call.next = some (op, call)) (failed : o.perform v o.fds op = some (.error e)) :
    o.alive = true := by
  have fits := h.calls
  rcases ParentCall.cases_of_next next with ⟨todo, before, _⟩ | ⟨todo, before, _⟩ | ⟨todo, before, _⟩
  · rw [alive, before, ParentCall.alive]
  · rw [alive, before, ParentCall.alive]
  · rw [before] at fits
    have close := (List.cons_subset.mp fits).1
    simp only [SyncOp.destroyPipes, List.mem_cons, List.not_mem_nil, or_false] at close
    rcases close with rfl | rfl | rfl | rfl <;> simp [perform] at failed

theorem perform_keeps {fds fds' : List Descriptor} {op : SyncOp} {pipe : SyncPipe} {ep : EndPoint}
    (done : o.perform v fds op = some (.ok (fds', o'))) (other : op ≠ .close pipe ep)
    (member : ⟨v.index, pipe, ep⟩ ∈ fds) : ⟨v.index, pipe, ep⟩ ∈ fds' := by
  have what := perform_ok done
  cases op with
  | setpgid => exact what.1 ▸ member
  | close pipe' ep' =>
    rw [what.1, List.mem_filter]
    refine ⟨member, ?_⟩
    simp only [decide_eq_true_eq]
    rintro ⟨⟩
    exact other rfl
  | write pipe' => exact what.2.1 ▸ member
  | read pipe' => exact what.2.1 ▸ member

/-- `start` closes the write end only after the byte is written, and nothing else the parent does with
a child on hold closes it. -/
theorem Holding.op_of_hold (holding : Holding v.index o) (h : o.Handshake) {op : SyncOp}
    {call : ParentCall} (next : o.call.next = some (op, call)) (alive : o.alive = true)
    (unwritten : o.goWritten = false) (noWrite : op ≠ .write .goPipe) :
    op ≠ .close .goPipe .writeEnd := by
  have fits := h.calls
  rcases ParentCall.cases_of_next next with ⟨todo, before, _⟩ | ⟨todo, before, _⟩ | ⟨todo, before, _⟩
  · rw [before] at fits
    have member := (List.cons_subset.mp fits.2).1
    intro same
    subst same
    simp [SyncOp.waitForChild] at member
  · rcases holding.starting before with whole | isWritten
    · cases whole
      exact absurd rfl noWrite
    · simp [unwritten] at isWritten
  · simp [SyncProcess.alive, before, ParentCall.alive] at alive

theorem Holding.parentDoes (holding : Holding v.index o) (h : o.Handshake) {op : SyncOp}
    {call : ParentCall} {fds : List Descriptor} {o₁ : SyncProcess}
    (next : o.call.next = some (op, call)) (done : o.perform v o.fds op = some (.ok (fds, o₁))) :
    Holding v.index { o₁ with fds, call, goWritten := o₁.goWritten || op == .write .goPipe } := by
  obtain ⟨fits, notSetpgid, _, _⟩ := h.calls.next next
  have less := perform_fds done
  have keeps := fun (other : op ≠ .close .goPipe .writeEnd) => perform_keeps done other
  obtain ⟨ready, rfl⟩ := perform_parent done notSetpgid
  have which := ParentCall.cases_of_next next
  refine ⟨fun member => holding.own (less member), ?_, ?_, ?_, ?_⟩
  · intro todo same
    subst same
    rcases which with ⟨_, _, ⟨⟩⟩ | ⟨_, before, ⟨⟩⟩ | ⟨_, _, ⟨⟩⟩
    rcases holding.starting before with whole | isWritten
    · cases whole
      exact .inr (by simp)
    · exact .inr (by simp [isWritten])
  · intro none alive _
    have gone : o.child = Option.none := none
    rcases which with ⟨_, _, rfl⟩ | ⟨_, _, rfl⟩ | ⟨_, _, rfl⟩
    · simp [ParentCall.Fits, gone] at fits
    · simp [ParentCall.Fits, gone] at fits
    · simp [SyncProcess.alive, ParentCall.alive] at alive
  · intro held
    obtain ⟨unwritten, held⟩ := held
    rw [Bool.or_eq_false_iff] at unwritten
    have before := holding.alive ⟨unwritten.1, held⟩
    rcases which with ⟨_, _, rfl⟩ | ⟨_, _, rfl⟩ | ⟨_, same, _⟩
    · rfl
    · rfl
    · simp [SyncProcess.alive, same, ParentCall.alive] at before
  · intro held c atChild readable
    obtain ⟨unwritten, held⟩ := held
    rw [Bool.or_eq_false_iff] at unwritten
    have before : o.OnHold := ⟨unwritten.1, held⟩
    have other := holding.op_of_hold h next (holding.alive before) unwritten.1 (by simpa using unwritten.2)
    exact keeps other (holding.writable before c atChild readable)

theorem Holding.step {a : Action} (holding : Holding v.index o) (h : o.Handshake)
    (copied : ∀ {d}, d ∈ v.fds → d.object = v.index → d ∈ o.fds)
    (orderly : a = .destroy → ¬ o.OnHold) (taken : o.step v a = some o') : Holding v.index o' := by
  have kept : ∀ {c'}, o.child = some c' → ∃ c, o.child = some c ∧ c'.fds ⊆ c.fds :=
    fun atChild => ⟨_, atChild, List.Subset.refl _⟩
  have notHeld : ∀ {c' : Child}, o'.child = some c' → (∀ todo, c'.phase ≠ .waitForParent todo) → ¬ o'.OnHold := by
    intro c' atChild not held
    obtain ⟨_, c, todo, atChild', phase, _⟩ := held
    cases Option.some.inj (atChild.symm.trans atChild')
    exact not todo phase
  cases change_of_step taken with
  | refused => exact holding
  | @forked pid idle unstarted may =>
    have gone : o.child = none := by simpa using h.forked.symm.trans unstarted
    have alive : o.alive = true := by rw [SyncProcess.alive, idle, ParentCall.alive]
    refine ⟨holding.own, by simp, by simp, fun _ => rfl, ?_⟩
    rintro _ _ ⟨⟩ readable
    exact holding.fresh gone alive (copied readable rfl)
  | starts idle =>
    refine holding.goes (by rw [SyncProcess.alive, idle, ParentCall.alive]) rfl rfl rfl rfl ?_
    intro todo starting
    cases starting
    exact .inl rfl
  | destroys =>
    have free := orderly rfl
    exact holding.quiet rfl (by simp) (fun none => ⟨none, by simp [SyncProcess.alive, ParentCall.alive]⟩)
      (fun held => absurd held free)
  | parentDoes next done => exact holding.parentDoes h next done
  | parentFails next failed => exact holding.goes (alive_of_failed h next failed) rfl rfl rfl rfl (by simp)
  | parentThrows alive => exact holding.goes alive rfl rfl rfl rfl (by simp)
  | swallows call =>
    have gone : o.alive = false := by rw [SyncProcess.alive, call, ParentCall.alive]
    exact holding.quiet rfl (by simp) (fun none => ⟨none, by simp [SyncProcess.alive, ParentCall.alive]⟩)
      (fun held => absurd (holding.alive held) (by simp [gone]))
  | prepared call | started call =>
    exact holding.goes (by rw [SyncProcess.alive, call, ParentCall.alive]) rfl rfl rfl rfl (by simp)
  | pipesDestroyed call =>
    have gone : o.alive = false := by rw [SyncProcess.alive, call, ParentCall.alive]
    refine holding.quiet rfl ?_ (fun none => ⟨none, fun alive => ?_⟩)
      (fun held => absurd (holding.alive held) (by simp [gone]))
    · dsimp only
      split <;> simp
    · by_cases running : (o.started && !o.terminated) = true <;> simp [SyncProcess.alive, running, ParentCall.alive] at alive
  | killed call =>
    refine holding.quiet rfl (by simp) (by simp [SyncProcess.alive, ParentCall.alive]) ?_
    intro held
    obtain ⟨_, c', _, died, phase, _⟩ := held
    exact absurd phase (map_dies_not_waiting died)
  | reaped => exact holding.quiet rfl (by simp) (by simp) (fun held => absurd held (notHeld rfl (by simp)))
  | collects => exact holding.quiet rfl holding.starting (by simp) (fun held => absurd held (notHeld rfl (by simp)))
  | executes => exact holding.quiet rfl holding.starting (by simp) (fun held => absurd held (notHeld rfl (by simp)))
  | childFails => exact holding.quiet rfl holding.starting (by simp) (fun held => absurd held (notHeld rfl (by simp)))
  | escapes => exact holding.quiet rfl holding.starting (by simp) (fun held => absurd held (notHeld rfl (by simp)))
  | waits | waitFails | waited =>
    exact holding.quiet rfl holding.starting (fun none => ⟨none, id⟩) (fun held => ⟨held, id, fun _ => kept⟩)
  | childDoes atChild phase done =>
    have less := perform_fds done
    obtain ⟨ready, pgid, rfl⟩ := perform_child done atChild
    refine holding.quiet rfl holding.starting (by simp) ?_
    intro held
    obtain ⟨unwritten, _⟩ := held
    refine ⟨⟨unwritten, _, _, atChild, phase, by simp⟩, id, ?_⟩
    rintro _ ⟨⟩
    exact ⟨_, atChild, less⟩
  | dies =>
    refine holding.quiet rfl holding.starting (fun none => ⟨by simpa using none, id⟩) ?_
    intro held
    obtain ⟨_, c', _, died, phase, _⟩ := held
    exact absurd phase (map_dies_not_waiting died)

end SyncProcess

namespace SyncWorld

variable {w w' : SyncWorld} {a : Action}

/-- A child is at `execvp`, or past it, only if `start` was called on its object. -/
def ExecOnlyAfterStart (w : SyncWorld) : Prop :=
  w.Each fun _ o => o.AtExecvp → o.goWritten = true

/-- The step is a read of a go pipe at end-of-file by the child that waits there. -/
def ReadsGoAtEof (w : SyncWorld) (a : Action) : Prop :=
  ∃ i o, a = .object i .child ∧ w.objects[i]? = some o ∧ o.ReadsGoAtEof (w.view i)

/-- The parent neither destroys an object while its child is on hold nor ends then. -/
def Orderly (w : SyncWorld) (a : Action) : Prop :=
  match a with
  | .object i .destroy => ∀ o : SyncProcess, w.objects[i]? = some o → ¬ o.OnHold
  | .parentEnds => w.Each fun _ o => ¬ o.OnHold
  | _ => True

theorem mayFork_neg (w : SyncWorld) : w.mayFork (-1) = false := by
  simp [mayFork]

theorem handshake_step (each : w.Each fun _ o => o.Handshake) (taken : w.step a = some w') :
    w'.Each fun _ o => o.Handshake :=
  each.step taken
    (fun _ _ => ⟨rfl, fun _ => rfl, by simp [SyncProcess.make], trivial, by simp [SyncProcess.make],
      by simp [SyncProcess.make]⟩)
    (fun _ _ _ _ _ _ h moved => h.step w.mayFork_neg moved)
    (fun _ _ _ _ h => ⟨h.forked, h.unwritten, h.written, h.calls, h.todo, h.waits⟩)

theorem execOnlyAfterStart_step (each : w.Each fun _ o => o.Handshake) (only : w.ExecOnlyAfterStart)
    (taken : w.step a = some w') : w'.ExecOnlyAfterStart ↔ ¬ w.ReadsGoAtEof a := by
  constructor
  · intro only' eof
    obtain ⟨i, o, rfl, atI, reads⟩ := eof
    rcases step_cases taken with ⟨_, _, ⟨⟩, _⟩ | ⟨_, ⟨⟩, _⟩ | ⟨_, _, o₀, o', ⟨⟩, atI', _, moved, rfl⟩ | ⟨⟨⟩, _⟩
    cases Option.some.inj (atI.symm.trans atI')
    have within := (List.getElem?_eq_some_iff.mp atI).1
    have after := only' i o' (by simp [within])
    exact ((each i o atI).exec_iff (only i o atI) moved).mp after rfl reads
  · intro notEof
    refine Each.step (I := fun _ o => o.AtExecvp → o.goWritten = true) only taken ?_ ?_ ?_
    · rintro _ _ ⟨_, ⟨⟩, _⟩
    · intro i act o o' same atI held moved
      subst same
      refine ((each i o atI).exec_iff held moved).mpr ?_
      intro same reads
      subst same
      exact notEof ⟨i, o, rfl, atI, reads⟩
    · exact fun _ _ _ _ held => held

theorem held_of_mem {i : Nat} {o : SyncProcess} {pipe : SyncPipe} {ep : EndPoint}
    (atI : w.objects[i]? = some o) (member : ⟨i, pipe, ep⟩ ∈ o.fds) : w.held i pipe ep = true := by
  rw [held, List.any_eq_true]
  exact ⟨o, List.mem_of_getElem? atI, by simp [member]⟩

theorem holding_step (each : w.Each fun _ o => o.Handshake) (holding : w.Each SyncProcess.Holding)
    (orderly : w.Orderly a) (taken : w.step a = some w') : w'.Each SyncProcess.Holding := by
  refine holding.step taken SyncProcess.Holding.make ?_ ?_
  · intro i act o o' same atI held moved
    subst same
    refine SyncProcess.Holding.step (v := w.view i) held (each i o atI) ?_ ?_ moved
    · intro d member mine
      obtain ⟨q, inW, inQ⟩ := List.mem_flatMap.mp member
      obtain ⟨j, atJ⟩ := List.mem_iff_getElem?.mp inW
      have same : j = i := ((holding j q atJ).own inQ).symm.trans mine
      subst same
      cases Option.some.inj (atI.symm.trans atJ)
      exact inQ
    · intro same
      subst same
      exact orderly o atI
  · intro same i o atI held
    subst same
    have free := orderly i o atI
    exact ⟨by simp, held.starting, by simp, fun hold => absurd hold free, fun hold => absurd hold free⟩

theorem not_readsGoAtEof (each : w.Each fun _ o => o.Handshake) (holding : w.Each SyncProcess.Holding) :
    ¬ w.ReadsGoAtEof a := by
  intro eof
  obtain ⟨i, o, _, atI, reads⟩ := eof
  exact (holding i o atI).not_eof (v := w.view i) (each i o atI) (held_of_mem atI) reads

/-- The children of a run come to `execvp` only after `start` if and only if none of them reads its
go pipe at end-of-file; and none does as long as the parent neither destroys an object whose child
is on hold nor ends before it has started all of them. -/
theorem exec_only_after_start_iff {pgid : Pid} {ts : List (Transition SyncWorld Action)}
    (run : Run step (init pgid) ts w) :
    ((∀ t ∈ ts, t.after.ExecOnlyAfterStart) ↔ ∀ t ∈ ts, ¬ t.before.ReadsGoAtEof t.action) ∧
      ((∀ t ∈ ts, t.before.Orderly t.action) → ∀ t ∈ ts, t.after.ExecOnlyAfterStart) := by
  have handshake : ∀ {ts w}, Run step (init pgid) ts w → w.Each fun _ o => o.Handshake :=
    fun run => run.invariant (I := fun w => w.Each fun _ o => o.Handshake) (each_init pgid) handshake_step
  have exact := Run.property_iff_guard handshake (P := ExecOnlyAfterStart)
    (G := fun w a => ¬ w.ReadsGoAtEof a) (each_init pgid) execOnlyAfterStart_step run
  refine ⟨exact, fun orderly => exact.mpr fun t member => ?_⟩
  obtain ⟨_, earlier, later, split, reached⟩ := run.transition member
  have holding : t.before.Each SyncProcess.Holding := by
    have both := reached.invariant_of_guard (G := Orderly)
      (I := fun w => (w.Each fun _ o => o.Handshake) ∧ w.Each SyncProcess.Holding)
      ⟨each_init pgid, each_init pgid⟩
      (fun both orderly taken => ⟨handshake_step both.1 taken, holding_step both.1 both.2 orderly taken⟩)
      (fun t' member' => orderly t' (by simp [split, member']))
    exact both.2
  exact not_readsGoAtEof (handshake reached) holding

/-- One object is made and prepared: parent and child go through the handshake until the child waits
for the go byte. -/
def prepareOne : List Action :=
  [.construct ["sleep"] true, .object 0 (.prepare true (.child 5))] ++
    List.replicate 5 (.object 0 .child) ++ List.replicate 5 (.object 0 .parent)

/-- The parent calls `start`, the child reads the byte and executes the command. -/
theorem exec_only_after_start_iff_started : ∃ ts w, Run step (init 1) ts w ∧
    (∀ t ∈ ts, t.after.ExecOnlyAfterStart) ∧
    w.objects.any (fun o => o.child.any (·.phase = .program)) = true := by
  obtain ⟨ts, w, run, labels, executes⟩ := run_of_exec_any step (init 1)
    (prepareOne ++ [.object 0 .start, .object 0 .parent, .object 0 .child, .object 0 .parent,
      .object 0 (.execvp none)])
    (fun w => w.objects.any fun o => o.child.any (·.phase = .program)) rfl
  refine ⟨ts, w, run, (exec_only_after_start_iff run).2 fun t member => ?_, executes⟩
  have action := List.mem_map_of_mem (f := Transition.action) member
  rw [labels] at action
  simp only [prepareOne, List.replicate, List.cons_append, List.nil_append, List.mem_cons, List.not_mem_nil,
    or_false] at action
  rcases action with h | h | h | h | h | h | h | h | h | h | h | h | h | h | h | h | h <;> simp [Orderly, h]

/-- An object is destroyed after `prepare`: its pipes are closed before its child is killed, the child
reads end-of-file and executes the command that nobody started. -/
theorem exec_without_start : ∃ ts w, Run step (init 1) ts w ∧
    ts.map Transition.action = prepareOne ++ [.object 0 .destroy, .object 0 .parent, .object 0 .parent,
      .object 0 .parent, .object 0 .parent, .object 0 .child, .object 0 (.execvp none)] ∧
    ¬ w.ExecOnlyAfterStart := by
  obtain ⟨ts, w, run, labels, executes⟩ := run_of_exec_any step (init 1)
    (prepareOne ++ [.object 0 .destroy, .object 0 .parent, .object 0 .parent,
      .object 0 .parent, .object 0 .parent, .object 0 .child, .object 0 (.execvp none)])
    (fun w => w.objects[0]?.any fun o => !o.goWritten && o.child.any (·.phase = .program)) rfl
  refine ⟨ts, w, run, labels, fun only => ?_⟩
  obtain ⟨o, atZero, both⟩ := (Option.any_eq_true _ _).mp executes
  obtain ⟨unwritten, executing⟩ := Bool.and_eq_true_iff.mp both
  obtain ⟨c, atChild, phase⟩ := (Option.any_eq_true _ _).mp executing
  have isWritten := only 0 o atZero ⟨c, atChild, .inr (by simpa using phase)⟩
  simp [isWritten] at unwritten

end SyncWorld

end Aser
