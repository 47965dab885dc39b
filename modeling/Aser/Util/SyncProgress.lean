import Aser.Util.SyncGroups
import Mathlib.Data.Finset.Dedup
import Mathlib.Data.Finset.Order

namespace Aser

open Library

namespace SyncProcess

/-- The child has still to write that it is ready. -/
def BeforeReady (o : SyncProcess) : Prop :=
  ∃ c todo, o.child = some c ∧ c.phase = .waitForParent todo ∧ .write .childReadyPipe ∈ todo

/-- And the parent has still to read it. -/
def AwaitsReady (o : SyncProcess) : Prop :=
  ∃ todo, o.call = .prepare todo ∧ .read .childReadyPipe ∈ todo

/-- What each side of the handshake waits for is on its way from the other, which has what it needs to
send it. -/
structure InStep (i : Nat) (o : SyncProcess) : Prop where
  opened : o.child = none → o.alive = true → o.childReadyBytes = 0 ∧ ∀ pipe ep, ⟨i, pipe, ep⟩ ∈ o.fds
  early : ∀ todo, o.call = .prepare todo → o.goWritten = false ∧ todo <:+ SyncOp.waitForChild
  sends : o.BeforeReady → o.AwaitsReady ∧ o.childReadyBytes = 0 ∧
    ∀ c, o.child = some c → ⟨i, .childReadyPipe, .writeEnd⟩ ∈ c.fds
  hears : o.AwaitsReady → ⟨i, .childReadyPipe, .readEnd⟩ ∈ o.fds ∧ (0 < o.childReadyBytes ∨ o.BeforeReady)
  waits : o.goWritten = false → ∀ c, o.child = some c →
    ⟨i, .goPipe, .readEnd⟩ ∈ c.fds ∧ ∃ todo, c.phase = .waitForParent todo ∧ todo ≠ []

/-- No system call fails in the parent, and nothing happens to the child before it was told to go. -/
def Patient (o : SyncProcess) (a : Action) : Prop :=
  a ≠ .parentThrows ∧ (a.fails = true ∨ a = .kill ∨ (∃ status, a = .childEnds status) → o.goWritten = true)

variable {v : View} {o o' : SyncProcess} {a : Action} {i : Nat}

theorem InStep.make (i : Nat) (args : List String) : InStep i (.make i args) where
  opened _ _ := ⟨rfl, fun pipe ep => by cases pipe <;> cases ep <;> simp [SyncProcess.make, openEnds]⟩
  early := by simp [SyncProcess.make]
  sends before := by
    obtain ⟨c, todo, ⟨⟩, _⟩ := before
  hears awaits := by
    obtain ⟨todo, ⟨⟩, _⟩ := awaits
  waits _ c none := by cases none

/-- The parent is in `prepare` after a step because that forked the child, or because it was before. -/
theorem prepare_of_step {todo : List SyncOp} (call : o'.call = .prepare todo) (taken : o.step v a = some o') :
    (∃ pid, a = .prepare true (.child pid) ∧ o.started = false) ∨ o.call = .prepare todo ∨
      ∃ op, o.call = .prepare (op :: todo) := by
  cases change_of_step taken with
  | forked idle unstarted => exact .inl ⟨_, rfl, unstarted⟩
  | parentDoes next done =>
    rcases ParentCall.cases_of_next next with ⟨rest, before, after⟩ | ⟨_, _, after⟩ | ⟨_, _, after⟩
    · cases call.symm.trans after
      exact .inr (.inr ⟨_, before⟩)
    · cases call.symm.trans after
    · cases call.symm.trans after
  | childDoes atChild phase done =>
    obtain ⟨ready, pgid, rfl⟩ := perform_child done atChild
    exact .inr (.inl call)
  | pipesDestroyed =>
    dsimp only at call
    split at call
    · cases call
    · cases call
  | starts | destroys | parentFails | parentThrows | swallows | prepared | started | killed | reaped => cases call
  | _ => exact .inr (.inl call)

theorem written_kept (written : o.goWritten = true) (taken : o.step v a = some o') : o'.goWritten = true := by
  cases change_of_step taken with
  | parentDoes next done =>
    obtain ⟨ready, rfl⟩ := perform_frame done
    simp [written]
  | childDoes atChild phase done =>
    obtain ⟨ready, rfl⟩ := perform_frame done
    exact written
  | _ => exact written

theorem child_kept (there : o.child ≠ none) (taken : o.step v a = some o') : o'.child ≠ none := by
  cases change_of_step taken with
  | parentDoes next done =>
    obtain ⟨ready, rfl⟩ := perform_frame done
    simpa using there
  | childDoes atChild phase done =>
    obtain ⟨ready, pgid, rfl⟩ := perform_child done atChild
    simp
  | killed | dies => simpa using there
  | forked | reaped | collects | executes | childFails | escapes => simp
  | _ => exact there

/-- A child that was told to go is past the exchange about its being ready. -/
theorem InStep.released (inStep : InStep i o) (h : o.Handshake) (written : o.goWritten = true)
    (taken : o.step v a = some o') : InStep i o' := by
  have there : o.child ≠ none := by
    intro none
    simp [h.unwritten none] at written
  have started : o.started = true := by
    rw [h.forked]
    exact Option.isSome_iff_ne_none.mpr there
  have notPrepare : ∀ todo, o.call ≠ .prepare todo := by
    intro todo call
    simp [(inStep.early todo call).1] at written
  have notPrepare' : ∀ todo, o'.call ≠ .prepare todo := by
    intro todo call
    rcases prepare_of_step call taken with ⟨_, _, unstarted⟩ | before | ⟨op, before⟩
    · simp [started] at unstarted
    · exact notPrepare _ before
    · exact notPrepare _ before
  have notBefore : ¬ o.BeforeReady := by
    intro before
    obtain ⟨todo, call, _⟩ := (inStep.sends before).1
    exact notPrepare todo call
  have notBefore' : ¬ o'.BeforeReady := by
    intro before
    obtain ⟨c', todo, atChild', phase', member⟩ := before
    rcases waiting_of_step atChild' phase' taken with ⟨_, _, _, _, unstarted⟩ | ⟨⟨c, atChild, phase, _⟩, _⟩ |
      ⟨c, op, _, _, atChild, phase, _⟩
    · simp [started] at unstarted
    · exact notBefore ⟨c, todo, atChild, phase.trans phase', member⟩
    · exact notBefore ⟨c, op :: todo, atChild, phase, List.mem_cons_of_mem _ member⟩
  refine ⟨fun none => absurd none (child_kept there taken), fun todo call => absurd call (notPrepare' todo),
    fun before => absurd before notBefore', ?_, fun unwritten => ?_⟩
  · rintro ⟨todo, call, _⟩
    exact absurd call (notPrepare' todo)
  · simp [written_kept written taken] at unwritten

/-- The parent has heard the child, or is not in `prepare`, and goes on. -/
theorem InStep.beyond (inStep : InStep i o) (notAwaits : ¬ o.AwaitsReady)
    (notPrepare : ∀ todo, o'.call ≠ .prepare todo) (child : o'.child = o.child) (there : o.child = none → o'.alive = false)
    (written : o'.goWritten = false → o.goWritten = false) : InStep i o' := by
  have notBefore : ¬ o'.BeforeReady := by
    rw [BeforeReady, child]
    exact fun before => notAwaits (inStep.sends before).1
  refine ⟨fun none alive => ?_, fun todo call => absurd call (notPrepare todo), fun before => absurd before notBefore,
    ?_, fun unwritten => ?_⟩
  · simp [there (child ▸ none)] at alive
  · rintro ⟨todo, call, _⟩
    exact absurd call (notPrepare todo)
  · rw [child]
    exact inStep.waits (written unwritten)

/-- A write or a read fails only for an end that is closed. -/
theorem perform_error {fds : List Descriptor} {op : SyncOp} {e : Exception}
    (failed : o.perform v fds op = some (.error e)) : (∃ pipe, op = .write pipe ∧ ⟨v.index, pipe, .writeEnd⟩ ∉ fds) ∨
      ∃ pipe, op = .read pipe ∧ ⟨v.index, pipe, .readEnd⟩ ∉ fds := by
  cases op with
  | setpgid | close => simp [perform] at failed
  | write pipe =>
    refine .inl ⟨pipe, rfl, fun here => ?_⟩
    simp only [perform, here, not_true_eq_false, if_false] at failed
    split at failed <;> simp at failed
  | read pipe =>
    refine .inr ⟨pipe, rfl, fun here => ?_⟩
    simp only [perform, here, not_true_eq_false, if_false] at failed
    split at failed
    · simp at failed
    · split at failed <;> simp at failed

theorem waitForChild_suffix {op : SyncOp} {todo : List SyncOp} (suffix : op :: todo <:+ SyncOp.waitForChild) :
    op = .read .childReadyPipe ∧ .read .childReadyPipe ∉ todo ∨ ∃ pipe ep, op = .close pipe ep ∧
      (.read .childReadyPipe ∈ todo → op ≠ .close .childReadyPipe .readEnd) := by
  simp only [SyncOp.waitForChild, List.suffix_cons_iff, List.cons.injEq, List.suffix_nil] at suffix
  rcases suffix with ⟨rfl, rfl⟩ | ⟨rfl, rfl⟩ | ⟨rfl, rfl⟩ | ⟨rfl, rfl⟩ | h
  all_goals simp_all

/-- Before it reads the go pipe the child closes what it does not need any more. -/
theorem waitForParent_ready {op : SyncOp} {todo : List SyncOp} (suffix : op :: todo <:+ SyncOp.waitForParent)
    (noRead : op ≠ .read .goPipe) : op = .write .childReadyPipe ∧ .write .childReadyPipe ∉ todo ∨
      (op = .setpgid ∨ ∃ pipe ep, op = .close pipe ep) ∧ op ≠ .close .goPipe .readEnd ∧
        (.write .childReadyPipe ∈ todo → op ≠ .close .childReadyPipe .writeEnd) := by
  simp only [SyncOp.waitForParent, List.suffix_cons_iff, List.cons.injEq, List.suffix_nil] at suffix
  rcases suffix with ⟨rfl, rfl⟩ | ⟨rfl, rfl⟩ | ⟨rfl, rfl⟩ | ⟨rfl, rfl⟩ | ⟨rfl, rfl⟩ | ⟨rfl, rfl⟩ | h
  all_goals simp_all

/-- The parent goes on in `prepare`. -/
theorem InStep.prepares (inStep : InStep v.index o) {op : SyncOp} {todo : List SyncOp} {fds : List Descriptor}
    {o₁ : SyncProcess} (call : o.call = .prepare (op :: todo))
    (seen : ∀ c pipe ep, o.child = some c → ⟨v.index, pipe, ep⟩ ∈ c.fds → v.held pipe ep = true)
    (there : o.child ≠ none) (done : o.perform v o.fds op = some (.ok (fds, o₁))) :
    InStep v.index { o₁ with fds, call := .prepare todo, goWritten := o₁.goWritten || op == .write .goPipe } := by
  obtain ⟨unwritten, suffix⟩ := inStep.early _ call
  have later := (List.suffix_cons op todo).trans suffix
  rcases waitForChild_suffix suffix with ⟨rfl, heard⟩ | ⟨pipe, ep, rfl, keeps⟩
  · -- the byte was there: the child holds the other end open until it has written it
    obtain ⟨_, rfl, rfl, eof⟩ := perform_ok done
    have notBefore : ¬ o.BeforeReady := by
      intro before
      obtain ⟨_, empty, holds⟩ := inStep.sends before
      obtain ⟨c, _, atChild, _⟩ := before
      have open_ := seen c _ _ atChild (holds c atChild)
      simp [eof empty] at open_
    refine ⟨fun none => absurd none there, ?_, fun before => absurd before notBefore, ?_,
      fun _ => inStep.waits unwritten⟩
    · rintro _ ⟨⟩
      exact ⟨by simpa [setBytes] using unwritten, later⟩
    · rintro ⟨_, ⟨⟩, member⟩
      exact absurd member heard
  · obtain ⟨rfl, rfl⟩ := perform_ok done
    have awaits : ∀ {q : SyncProcess}, q.call = .prepare todo → (q.AwaitsReady ↔ o₁.AwaitsReady) := by
      intro q next
      constructor
      · rintro ⟨_, before, member⟩
        cases next.symm.trans before
        exact ⟨_, call, List.mem_cons_of_mem _ member⟩
      · rintro ⟨_, before, member⟩
        cases call.symm.trans before
        exact ⟨todo, next, by simpa using member⟩
    refine ⟨fun none => absurd none there, ?_, ?_, ?_, fun _ => inStep.waits unwritten⟩
    · rintro _ ⟨⟩
      exact ⟨by simpa using unwritten, later⟩
    · rw [awaits rfl]
      exact inStep.sends
    · intro still
      obtain ⟨here, reaches⟩ := inStep.hears ((awaits rfl).mp still)
      obtain ⟨_, ⟨⟩, member⟩ := still
      refine ⟨?_, reaches⟩
      simp only [List.mem_filter, here, ne_eq, decide_eq_true_eq, true_and]
      rintro ⟨⟩
      exact keeps member rfl

/-- The child goes on to the read of the go pipe. -/
theorem InStep.childDoes (inStep : InStep v.index o) (h : o.Handshake) {c : Child} {op : SyncOp} {todo : List SyncOp}
    {fds : List Descriptor} {o₁ : SyncProcess} (unwritten : o.goWritten = false) (atChild : o.child = some c)
    (phase : c.phase = .waitForParent (op :: todo)) (noRead : op ≠ .read .goPipe)
    (done : o.perform v c.fds op = some (.ok (fds, o₁))) :
    InStep v.index { o₁ with child := o₁.child.map fun c => { c with phase := .waitForParent todo, fds } } := by
  have suffix := h.todo atChild phase
  have left : todo ≠ [] := by
    rcases (waitForParent_suffix suffix).2 with ⟨read, _⟩ | ⟨_, _, left⟩
    · exact absurd read noRead
    · exact left
  have readable := (inStep.waits unwritten c atChild).1
  have performed := perform_ok done
  obtain ⟨ready, pgid, rfl⟩ := perform_child done atChild
  rcases waitForParent_ready suffix noRead with ⟨rfl, silent⟩ | ⟨other, keepsGo, keepsReady⟩
  · obtain ⟨_, rfl, same⟩ := performed
    have byte : ready = o.childReadyBytes + 1 := congrArg childReadyBytes same
    have awaits : o.AwaitsReady := (inStep.sends ⟨c, _, atChild, phase, List.mem_cons_self⟩).1
    refine ⟨by simp, inStep.early, ?_, fun _ => ⟨(inStep.hears awaits).1, .inl (byte ▸ Nat.succ_pos _)⟩, ?_⟩
    · rintro ⟨_, _, ⟨⟩, ⟨⟩, member⟩
      exact absurd member silent
    · rintro _ _ ⟨⟩
      exact ⟨readable, todo, rfl, left⟩
  · have kept : ready = o.childReadyBytes ∧
        ∀ pipe ep, op ≠ .close pipe ep → ⟨v.index, pipe, ep⟩ ∈ c.fds → ⟨v.index, pipe, ep⟩ ∈ fds := by
      refine ⟨?_, fun pipe ep notThis => perform_keeps done notThis⟩
      rcases other with rfl | ⟨pipe, ep, rfl⟩
      · exact congrArg childReadyBytes performed.2
      · exact congrArg childReadyBytes performed.2
    obtain ⟨rfl, keeps⟩ := kept
    have before : .write .childReadyPipe ∈ todo → o.BeforeReady := fun member =>
      ⟨c, _, atChild, phase, List.mem_cons_of_mem _ member⟩
    refine ⟨by simp, inStep.early, ?_, ?_, ?_⟩
    · rintro ⟨_, _, ⟨⟩, ⟨⟩, member⟩
      obtain ⟨awaits, empty, holds⟩ := inStep.sends (before member)
      refine ⟨awaits, empty, ?_⟩
      rintro _ ⟨⟩
      exact keeps _ _ (keepsReady member) (holds c atChild)
    · intro awaits
      obtain ⟨here, reaches⟩ := inStep.hears awaits
      refine ⟨here, reaches.imp_right fun still => ?_⟩
      obtain ⟨c₀, todo₀, atChild₀, phase₀, member⟩ := still
      cases Option.some.inj (atChild.symm.trans atChild₀)
      cases phase.symm.trans phase₀
      refine ⟨_, todo, rfl, rfl, ?_⟩
      rcases other with rfl | ⟨pipe, ep, rfl⟩
      · simpa using member
      · simpa using member
    · rintro _ _ ⟨⟩
      exact ⟨keeps _ _ keepsGo readable, todo, rfl, left⟩

/-- The only call of `prepare` that could fail is the read, and the end for it is open. -/
theorem InStep.prepare_ok (inStep : InStep v.index o) {op : SyncOp} {todo : List SyncOp} {e : Exception}
    (call : o.call = .prepare (op :: todo)) : o.perform v o.fds op ≠ some (.error e) := by
  intro failed
  rcases waitForChild_suffix (inStep.early _ call).2 with ⟨rfl, _⟩ | ⟨pipe, ep, rfl, _⟩
  · rcases perform_error failed with ⟨pipe, ⟨⟩, _⟩ | ⟨pipe, ⟨⟩, closed⟩
    exact closed (inStep.hears ⟨_, call, List.mem_cons_self⟩).1
  · simp [perform] at failed

/-- As long as nothing fails, each side of the handshake gets what it waits for. -/
theorem InStep.step (inStep : InStep v.index o) (h : o.Handshake) (spares : o.SparesChild)
    (only : o'.AtExecvp → o'.goWritten = true) (shown : ∀ d ∈ o.fds, d ∈ v.fds)
    (seen : ∀ c pipe ep, o.child = some c → ⟨v.index, pipe, ep⟩ ∈ c.fds → v.held pipe ep = true)
    (patient : o.Patient a) (taken : o.step v a = some o') : InStep v.index o' := by
  by_cases written : o.goWritten = true
  · exact inStep.released h written taken
  have unwritten : o.goWritten = false := by simpa using written
  obtain ⟨noThrow, later⟩ := patient
  have waits := inStep.waits unwritten
  have outside : (∀ todo, o.call ≠ .prepare todo) → ¬ o.AwaitsReady := by
    rintro not ⟨todo, call, _⟩
    exact not todo call
  have forked : ∀ {call : ParentCall}, o.call = call → (∀ forked, call.Fits forked → forked = true) →
      o.child ≠ none := by
    intro call here needs none
    have fits := needs _ (here ▸ h.calls)
    simp [none] at fits
  cases change_of_step taken with
  | refused => exact inStep
  | forked idle unstarted may =>
    have fresh : o.child = none := by simpa using h.forked.symm.trans unstarted
    obtain ⟨empty, ends⟩ := inStep.opened fresh (by rw [alive, idle, ParentCall.alive])
    refine ⟨by simp, ?_, fun _ => ⟨⟨_, rfl, by decide⟩, empty, ?_⟩, fun _ => ⟨ends _ _, .inr ?_⟩, fun _ => ?_⟩
    · rintro _ ⟨⟩
      exact ⟨unwritten, List.suffix_refl _⟩
    · rintro _ ⟨⟩
      exact shown _ (ends _ _)
    · exact ⟨_, _, rfl, rfl, by decide⟩
    · rintro _ ⟨⟩
      exact ⟨shown _ (ends _ _), _, rfl, by decide⟩
  | starts idle started =>
    refine inStep.beyond (outside (by simp [idle])) (by simp) rfl (fun none => ?_) id
    simp [h.forked, none] at started
  | destroys idle => exact inStep.beyond (outside (by simp [idle])) (by simp) rfl (fun _ => rfl) id
  | started call =>
    exact inStep.beyond (outside (by simp [call])) (by simp) rfl
      (fun none => absurd none (forked call fun _ fits => fits.1)) id
  | pipesDestroyed call =>
    have gone : ∀ todo, (if o.started && !o.terminated then ParentCall.destroyProcess false else .destroyed) ≠
        .prepare todo := by
      intro todo
      split <;> simp
    refine inStep.beyond (outside (by simp [call])) gone rfl (fun _ => ?_) id
    rw [alive]
    dsimp only
    split <;> rfl
  | prepared call =>
    refine inStep.beyond ?_ (by simp) rfl (fun none => absurd none (forked call fun _ fits => fits.1)) id
    rintro ⟨todo, call', member⟩
    cases call.symm.trans call'
    simp at member
  | waits | waitFails | waited => exact ⟨inStep.opened, inStep.early, inStep.sends, inStep.hears, inStep.waits⟩
  | parentDoes next done =>
    rcases ParentCall.cases_of_next next with ⟨todo, call, rfl⟩ | ⟨todo, call, rfl⟩ | ⟨todo, call, rfl⟩
    · exact inStep.prepares call seen (forked call fun _ fits => fits.1) done
    · have notSetpgid := (h.calls.next next).2.1
      obtain ⟨ready, rfl⟩ := perform_parent done notSetpgid
      exact inStep.beyond (outside (by simp [call])) (by simp) rfl
        (fun none => absurd none (forked call fun _ fits => fits.1)) (fun _ => unwritten)
    · have notSetpgid := (h.calls.next next).2.1
      obtain ⟨ready, rfl⟩ := perform_parent done notSetpgid
      exact inStep.beyond (outside (by simp [call])) (by simp) rfl (fun _ => rfl) (fun _ => unwritten)
  | parentFails next failed =>
    rcases ParentCall.cases_of_next next with ⟨todo, call, _⟩ | ⟨todo, call, _⟩ | ⟨todo, call, _⟩
    · exact absurd failed (inStep.prepare_ok call)
    · exact inStep.beyond (outside (by simp [call])) (by simp) rfl
        (fun none => absurd none (forked call fun _ fits => fits.1)) id
    · have there := alive_of_failed h next failed
      simp [alive, call, ParentCall.alive] at there
  | parentThrows | swallows => contradiction
  | killed call => exact absurd call (spares false)
  | reaped call => exact absurd call (spares true)
  | collects _ atChild ended =>
    obtain ⟨_, todo, phase, _⟩ := waits _ atChild
    cases ended.symm.trans phase
  | executes atChild phase =>
    obtain ⟨_, todo, phase', left⟩ := waits _ atChild
    cases phase.symm.trans phase'
    contradiction
  | @childDoes c op todo fds o₁ atChild phase done =>
    by_cases read : op = .read .goPipe
    · rcases (waitForParent_suffix (h.todo atChild phase)).2 with ⟨_, rfl⟩ | ⟨_, noRead, _⟩
      · obtain ⟨ready, pgid, rfl⟩ := perform_child done atChild
        exact absurd (only ⟨_, rfl, .inl rfl⟩) written
      · exact absurd read noRead
    · exact inStep.childDoes h unwritten atChild phase read done
  | @childFails c op todo e atChild phase failed =>
    have suffix := h.todo atChild phase
    by_cases read : op = .read .goPipe
    · subst read
      rcases perform_error failed with ⟨pipe, ⟨⟩, _⟩ | ⟨pipe, ⟨⟩, closed⟩
      exact absurd (waits c atChild).1 closed
    · rcases waitForParent_ready suffix read with ⟨rfl, _⟩ | ⟨rfl | ⟨pipe, ep, rfl⟩, _⟩
      · rcases perform_error failed with ⟨pipe, ⟨⟩, closed⟩ | ⟨pipe, ⟨⟩, _⟩
        exact absurd ((inStep.sends ⟨c, _, atChild, phase, List.mem_cons_self⟩).2.2 c atChild) closed
      · simp [perform] at failed
      · simp [perform] at failed
  | escapes fails => exact absurd (later (.inl fails)) written
  | dies signal =>
    rcases signal with rfl | rfl
    · exact absurd (later (.inr (.inl rfl))) written
    · exact absurd (later (.inr (.inr ⟨_, rfl⟩))) written

/-- A write goes through as long as somebody can read. -/
theorem write_enabled {fds : List Descriptor} {pipe : SyncPipe} (readable : v.held pipe .readEnd = true) :
    (o.perform v fds (.write pipe)).isSome = true := by
  simp only [perform, readable, if_true]
  split <;> rfl

/-- And a read if there is something to read. -/
theorem read_enabled {fds : List Descriptor} {pipe : SyncPipe} (byte : 0 < o.bytes pipe) :
    (o.perform v fds (.read pipe)).isSome = true := by
  simp only [perform, byte, if_true]
  split <;> rfl

theorem parent_enabled {op : SyncOp} {call : ParentCall} (next : o.call.next = some (op, call))
    (can : (o.perform v o.fds op).isSome = true) : (o.step v .parent).isSome = true := by
  simp only [step, parentStep, next, Option.isSome_map]
  exact can

theorem child_enabled {c : Child} {op : SyncOp} {todo : List SyncOp} (atChild : o.child = some c)
    (phase : c.phase = .waitForParent (op :: todo)) (can : (o.perform v c.fds op).isSome = true) :
    (o.step v .child).isSome = true := by
  obtain ⟨pid, pgid, _, fds⟩ := c
  cases phase
  simp only [step, childStep, atChild, Option.isSome_map]
  exact can

/-- A child on its way to its command goes on, unless it waits to be told to go. -/
theorem InStep.child_goes (inStep : InStep v.index o) (h : o.Handshake)
    (own : ∀ pipe ep, ⟨v.index, pipe, ep⟩ ∈ o.fds → v.held pipe ep = true) {c : Child} {op : SyncOp}
    {todo : List SyncOp} (atChild : o.child = some c) (phase : c.phase = .waitForParent (op :: todo))
    (told : op = .read .goPipe → o.goWritten = true) : (o.step v .child).isSome = true := by
  refine child_enabled atChild phase ?_
  by_cases read : op = .read .goPipe
  · subst read
    exact read_enabled (h.waits atChild phase (by simp) (told rfl))
  · rcases waitForParent_ready (h.todo atChild phase) read with ⟨rfl, _⟩ | ⟨rfl | ⟨pipe, ep, rfl⟩, _⟩
    · obtain ⟨awaits, _⟩ := inStep.sends ⟨c, _, atChild, phase, List.mem_cons_self⟩
      exact write_enabled (own _ _ (inStep.hears awaits).1)
    · rfl
    · rfl

/-- `prepare` does not block, or its child is on the way to the write that it waits for. -/
theorem InStep.prepare_goes (inStep : InStep v.index o) (h : o.Handshake)
    (own : ∀ pipe ep, ⟨v.index, pipe, ep⟩ ∈ o.fds → v.held pipe ep = true) {todo : List SyncOp}
    (call : o.call = .prepare todo) : (o.step v .parent).isSome = true ∨ (o.step v .child).isSome = true := by
  cases todo with
  | nil => exact .inl (by simp [SyncProcess.step, parentStep, call, ParentCall.next])
  | cons op todo =>
    have next : o.call.next = some (op, .prepare todo) := by rw [call, ParentCall.next]
    rcases waitForChild_suffix (inStep.early _ call).2 with ⟨rfl, _⟩ | ⟨pipe, ep, rfl, _⟩
    · rcases (inStep.hears ⟨_, call, List.mem_cons_self⟩).2 with byte | before
      · exact .inl (parent_enabled next (read_enabled byte))
      · obtain ⟨c, left, atChild, phase, member⟩ := before
        cases left with
        | nil => simp at member
        | cons op rest =>
          refine .inr (inStep.child_goes h own atChild phase fun read => ?_)
          subst read
          rcases (waitForParent_suffix (h.todo atChild phase)).2 with ⟨_, rfl⟩ | ⟨_, noRead, _⟩
          · simp at member
          · exact absurd rfl noRead
    · exact .inl (parent_enabled next rfl)

/-- `start` does not block, and the write in it meets a child that reads. -/
theorem InStep.start_goes (inStep : InStep v.index o)
    (seen : ∀ c pipe ep, o.child = some c → ⟨v.index, pipe, ep⟩ ∈ c.fds → v.held pipe ep = true)
    {todo : List SyncOp} (call : o.call = .start todo) (suffix : todo <:+ SyncOp.start) (there : o.child ≠ none)
    (first : .write .goPipe ∈ todo → o.goWritten = false) : (o.step v .parent).isSome = true := by
  simp only [SyncOp.start, List.suffix_cons_iff, List.suffix_nil] at suffix
  rcases suffix with rfl | rfl | rfl
  · obtain ⟨c, atChild⟩ := Option.ne_none_iff_exists'.mp there
    have readable := (inStep.waits (first List.mem_cons_self) c atChild).1
    exact parent_enabled (by rw [call, ParentCall.next]) (write_enabled (seen c _ _ atChild readable))
  · exact parent_enabled (by rw [call, ParentCall.next]) rfl
  · simp [SyncProcess.step, parentStep, call, ParentCall.next]

/-- The destructors of the pipes only close. -/
theorem destroyPipes_goes {todo : List SyncOp} (call : o.call = .destroyPipes todo)
    (only : todo ⊆ SyncOp.destroyPipes) : (o.step v .parent).isSome = true := by
  cases todo with
  | nil => simp [SyncProcess.step, parentStep, call, ParentCall.next]
  | cons op todo =>
    have close := only List.mem_cons_self
    refine parent_enabled (by rw [call, ParentCall.next]) ?_
    simp only [SyncOp.destroyPipes, List.mem_cons, List.not_mem_nil, or_false] at close
    rcases close with rfl | rfl | rfl | rfl
    all_goals rfl

/-- The child has come to its end. -/
def Dead (o : SyncProcess) : Prop := ∃ c, o.child = some c ∧ c.running = false

theorem Dead.step (dead : o.Dead) (h : o.Handshake) (taken : o.step v a = some o') : o'.Dead := by
  obtain ⟨c, atChild, ended⟩ := dead
  have same : ∀ {c' : Child}, o.child = some c' → c'.running = true → False := by
    intro c' atChild' running
    cases Option.some.inj (atChild.symm.trans atChild')
    simp [ended] at running
  have died : ∀ status, o.child.map (·.dies status) = some c := by
    intro status
    rw [atChild, Option.map_some, c.dies_of_dead ended]
  cases change_of_step taken with
  | forked idle unstarted => simp [h.forked, atChild] at unstarted
  | parentDoes next done =>
    obtain ⟨ready, rfl⟩ := perform_frame done
    refine ⟨_, by rw [atChild, Option.map_some], ?_⟩
    obtain ⟨pgid, same⟩ := SyncOp.onChild_eq _ c
    rw [same]
    exact ended
  | killed | dies => exact ⟨c, died _, ended⟩
  | reaped | collects => exact ⟨_, rfl, rfl⟩
  | childDoes atChild' phase => exact (same atChild' (by simp [Child.running, phase])).elim
  | executes atChild' phase => exact (same atChild' (by simp [Child.running, phase])).elim
  | childFails atChild' phase => exact (same atChild' (by simp [Child.running, phase])).elim
  | escapes _ atChild' running => exact (same atChild' running).elim
  | _ => exact ⟨c, atChild, ended⟩

/-- The object knows the pid of its child. -/
def KnowsChild (o : SyncProcess) : Prop := ∀ c, o.child = some c → c.pid = o.pid

theorem KnowsChild.step (knows : o.KnowsChild) (taken : o.step v a = some o') : o'.KnowsChild := by
  have other : (∀ pathExists fork, a ≠ .prepare pathExists fork) → o'.KnowsChild := by
    intro notPrepare c' atChild'
    rcases child_of_step atChild' taken with ⟨rfl, _⟩ | ⟨c, atChild, pid, _⟩
    · exact absurd rfl (notPrepare _ _)
    · rw [pid, pid_kept notPrepare taken]
      exact knows c atChild
  cases a with
  | prepare pathExists fork =>
    cases change_of_step taken with
    | refused => exact knows
    | forked =>
      rintro _ ⟨⟩
      rfl
    | escapes fails => simp [Action.fails] at fails
    | dies signal => simp at signal
  | _ => exact other (by simp)

/-- Neither the thread that works on the object nor its destructor is at work. -/
def Action.sparesCall : Action → Bool
  | .prepare _ _ | .start | .destroy | .parent | .parentThrows => false
  | _ => true

/-- And so the calls on it stay where they are. -/
theorem call_frame (spares : a.sparesCall = true) (taken : o.step v a = some o') :
    o'.call = o.call ∧ o'.goWritten = o.goWritten ∧ o'.pid = o.pid := by
  cases change_of_step taken with
  | childDoes atChild phase done =>
    obtain ⟨ready, pgid, rfl⟩ := perform_child done atChild
    exact ⟨rfl, rfl, rfl⟩
  | waits | collects | waitFails | waited | executes | childFails | escapes | dies => exact ⟨rfl, rfl, rfl⟩
  | _ => simp [Action.sparesCall] at spares

end SyncProcess

namespace SyncWorld

variable {w w' : SyncWorld} {a : Action} {i : Nat} {o : SyncProcess}

theorem mem_view {d : Descriptor} (atI : w.objects[i]? = some o) (member : d ∈ o.fds) : d ∈ (w.view i).fds :=
  List.mem_flatMap.mpr ⟨o, List.mem_of_getElem? atI, member⟩

/-- The step is one that no failure is part of. -/
def Patient (w : SyncWorld) : Action → Prop
  | .construct _ pipe2 => pipe2 = true
  | .object i act => ∀ o : SyncProcess, w.objects[i]? = some o → o.Patient act
  | .parentEnds => False

theorem inStep_step (inStep : w.Each SyncProcess.InStep) (each : w.Each fun _ o => o.Handshake)
    (spares : w.Each fun _ o => o.SparesChild) (only : w'.ExecOnlyAfterStart) (patient : w.Patient a)
    (taken : w.step a = some w') : w'.Each SyncProcess.InStep ∧ w'.alive = w.alive := by
  rcases step_cases taken with ⟨_, _, rfl, _, rfl⟩ | ⟨args, rfl, _, rfl⟩ | ⟨i, act, o, o', rfl, atI, _, moved, rfl⟩ |
    ⟨rfl, _⟩
  · exact ⟨inStep, rfl⟩
  · refine ⟨fun j q atJ => ?_, rfl⟩
    rcases getElem?_append_singleton atJ with old | ⟨rfl, rfl⟩
    · exact inStep j q old
    · cases patient
      exact .make _ args
  · refine ⟨fun j q atJ => ?_, rfl⟩
    rcases object_cases taken atJ with ⟨rfl, o₁, atI', moved⟩ | ⟨_, old⟩
    · exact SyncProcess.InStep.step (v := w.view j) (inStep j o₁ atI') (each j o₁ atI') (spares j o₁ atI')
        (only j q atJ) (fun d => mem_view atI') (fun c pipe ep atChild => held_of_child_mem atI' atChild)
        (patient o₁ atI') moved
    · exact inStep j q old
  · exact patient.elim

theorem object_enabled {act : SyncProcess.Action} (alive : w.alive = true) (atI : w.objects[i]? = some o)
    (can : (o.step (w.view i) act).isSome = true) : (w.step (.object i act)).isSome = true := by
  simp only [step, atI, alive, Option.bind_some, Bool.or_true, if_true, Option.isSome_map]
  exact can

/-- There is always a pid for the next child. -/
theorem exists_mayFork (w : SyncWorld) : ∃ pid, w.mayFork pid = true := by
  let used : List Int := [0, w.pgid] ++ w.objects.flatMap fun o => o.child.toList.map Child.pid
  obtain ⟨top, bound⟩ := used.toFinset.exists_le
  simp only [List.mem_toFinset] at bound
  have next : ∀ pid ∈ used, pid < top + 1 := fun pid member => Int.lt_add_one_of_le (bound pid member)
  have other : ∀ o ∈ w.objects, ∀ c : Child, o.child = some c → c.pid ≠ top + 1 := fun o inW c atChild =>
    ne_of_lt (next c.pid (List.mem_append_right _ (List.mem_flatMap.mpr ⟨o, inW, by simp [atChild]⟩)))
  refine ⟨top + 1, ?_⟩
  simp only [mayFork, Bool.and_eq_true, decide_eq_true_eq, bne_iff_ne, List.all_eq_true, Option.all_eq_true,
    Bool.or_eq_true]
  refine ⟨⟨next 0 (by simp [used]), ne_of_gt (next w.pgid (by simp [used]))⟩, ?_⟩
  exact fun o inW c atChild => .inr (other o inW c atChild)

/-- No two processes have the same pid. -/
def Distinct (w : SyncWorld) : Prop :=
  ∀ (i j : Nat) (pid : Pid), (w.objects.map (·.pid))[i]? = some pid → (w.objects.map (·.pid))[j]? = some pid →
    pid ≠ -1 → i = j

/-- A pid that `fork` may return is that of no process whose child is still to be reaped. -/
theorem other_of_mayFork {pid : Pid} {j : Nat} {q : SyncProcess} (may : w.mayFork pid = true)
    (atJ : w.objects[j]? = some q) (knows : q.KnowsChild) (h : q.Handshake) (unreaped : ¬ q.Reaped)
    (known : pid ≠ -1) : q.pid ≠ pid := by
  intro same
  have started : q.started = true := by
    rw [SyncProcess.started, same]
    simpa using known
  obtain ⟨c, atChild⟩ := Option.isSome_iff_exists.mp (h.forked.symm.trans started)
  simp only [mayFork, Bool.and_eq_true, List.all_eq_true, Option.all_eq_true, Bool.or_eq_true, beq_iff_eq, bne_iff_ne]
    at may
  rcases may.2 q (List.mem_of_getElem? atJ) c atChild with reaped | other
  · exact unreaped ⟨c, atChild, reaped⟩
  · exact other ((knows c atChild).trans same)

theorem knows_step (knows : w.Each fun _ o => o.KnowsChild) (taken : w.step a = some w') :
    w'.Each fun _ o => o.KnowsChild :=
  knows.step taken (fun _ _ => by rintro _ ⟨⟩) (fun _ _ _ _ _ _ knows moved => knows.step moved)
    (fun _ _ _ _ knows => knows)

/-- A pid is used again only for a child that was reaped. -/
theorem distinct_step (distinct : w.Distinct) (knows : w.Each fun _ o => o.KnowsChild)
    (each : w.Each fun _ o => o.Handshake)
    (unreaped : ∀ i pid, a = .object i (.prepare true (.child pid)) → w.Each fun _ o => ¬ o.Reaped)
    (taken : w.step a = some w') : w'.Distinct := by
  rcases step_cases taken with ⟨_, _, _, _, rfl⟩ | ⟨args, _, _, rfl⟩ | ⟨i, act, o, o', rfl, atI, _, moved, rfl⟩ |
    ⟨_, _, rfl⟩
  · exact distinct
  · intro i j pid atI atJ known
    rw [List.map_append, List.map_singleton] at atI atJ
    rcases getElem?_append_singleton atI with oldI | ⟨_, rfl⟩
    · rcases getElem?_append_singleton atJ with oldJ | ⟨_, rfl⟩
      · exact distinct i j pid oldI oldJ known
      · exact absurd rfl known
    · exact absurd rfl known
  · have within := (List.getElem?_eq_some_iff.mp atI).1
    have lookup : ∀ {j pid}, ((w.objects.set i o').map (·.pid))[j]? = some pid →
        (j = i ∧ pid = o'.pid) ∨ j ≠ i ∧ (w.objects.map (·.pid))[j]? = some pid := by
      intro j pid atJ
      rw [List.map_set, List.getElem?_set, List.length_map] at atJ
      split at atJ
      · rename_i mine
        exact .inl ⟨mine.symm, (Option.some.inj atJ).symm⟩
      · rename_i other
        exact .inr ⟨Ne.symm other, atJ⟩
    have mine : (w.objects.map (·.pid))[i]? = some o.pid := by rw [List.getElem?_map, atI, Option.map_some]
    -- nobody else has the pid that object `i` has after the step
    have fresh : ∀ j, j ≠ i → (w.objects.map (·.pid))[j]? = some o'.pid → o'.pid = -1 := by
      intro j other atJ
      by_contra known
      by_cases same : o'.pid = o.pid
      · exact other (distinct j i o.pid (same ▸ atJ) mine (same ▸ known))
      · obtain ⟨q, atQ, isPid⟩ := Option.map_eq_some_iff.mp ((List.getElem?_map ..).symm.trans atJ)
        have forks : ∃ pid, act = .prepare true (.child pid) ∧ w.mayFork pid = true ∧ pid = o'.pid := by
          cases act with
          | prepare pathExists fork =>
            cases SyncProcess.change_of_step moved with
            | refused => exact absurd rfl same
            | forked _ _ may => exact ⟨_, rfl, may, rfl⟩
            | escapes fails => simp [SyncProcess.Action.fails] at fails
            | dies signal => simp at signal
          | _ => exact absurd (SyncProcess.pid_kept (by simp) moved) same
        obtain ⟨_, rfl, may, rfl⟩ := forks
        exact other_of_mayFork may atQ (knows j q atQ) (each j q atQ) (unreaped i _ rfl j q atQ) known isPid
    intro j k pid atJ atK known
    rcases lookup atJ with ⟨rfl, rfl⟩ | ⟨otherJ, oldJ⟩
    · rcases lookup atK with ⟨rfl, _⟩ | ⟨otherK, oldK⟩
      · rfl
      · exact absurd (fresh k otherK oldK) known
    · rcases lookup atK with ⟨rfl, rfl⟩ | ⟨otherK, oldK⟩
      · exact absurd (fresh j otherJ oldJ) known
      · exact distinct j k pid oldJ oldK known
  · intro i j pid
    simp only [List.map_map, Function.comp_def]
    exact distinct i j pid

end SyncWorld

end Aser
