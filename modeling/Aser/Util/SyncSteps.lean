import Aser.Library.Slots
import Aser.Util.SyncProcess

namespace Aser

open Library

/-- The bytes in the go pipe after a call that found `n` there. -/
def SyncOp.goBytes : SyncOp → Nat → Nat
  | .write .goPipe, n => n + 1
  | .read .goPipe, n => n - 1
  | _, n => n

theorem SyncOp.goBytes_of_unrelated {op : SyncOp} (noWrite : op ≠ .write .goPipe)
    (noRead : op ≠ .read .goPipe) (n : Nat) : op.goBytes n = n := by
  unfold goBytes
  split <;> simp_all

theorem SyncOp.goBytes_le {op : SyncOp} (noWrite : op ≠ .write .goPipe) (n : Nat) :
    op.goBytes n ≤ n := by
  unfold goBytes
  split
  · contradiction
  · omega
  · exact Nat.le_refl n

theorem SyncOp.le_goBytes {op : SyncOp} (noRead : op ≠ .read .goPipe) (n : Nat) :
    n ≤ op.goBytes n := by
  unfold goBytes
  split
  · omega
  · contradiction
  · exact Nat.le_refl n

/-- What a call does to the child that makes it. -/
def SyncOp.onChild : SyncOp → Child → Child
  | .setpgid, c => { c with pgid := c.pid }
  | _, c => c

theorem SyncOp.onChild_eq (op : SyncOp) (c : Child) : ∃ pgid, op.onChild c = { c with pgid } := by
  cases op with
  | setpgid => exact ⟨c.pid, rfl⟩
  | _ => exact ⟨c.pgid, rfl⟩

@[simp] theorem SyncOp.phase_onChild (op : SyncOp) (c : Child) : (op.onChild c).phase = c.phase := by
  cases op <;> rfl

theorem SyncOp.map_onChild {op : SyncOp} (other : op ≠ .setpgid) (child : Option Child) :
    child.map op.onChild = child := by
  cases op with
  | setpgid => exact absurd rfl other
  | _ => exact Option.map_id'

/-- A child that runs ends; one that does not stays as it is. -/
theorem Child.dies_cases (c : Child) (status : Int) :
    c.dies status = { c with phase := .ended status, fds := [] } ∨ c.running = false ∧ c.dies status = c := by
  unfold Child.dies
  split
  · exact .inl rfl
  · rename_i dead
    exact .inr ⟨by simpa using dead, rfl⟩

@[simp] theorem Child.running_dies (c : Child) (status : Int) : (c.dies status).running = false := by
  rcases c.dies_cases status with ended | ⟨dead, same⟩
  · rw [ended]
    rfl
  · rw [same]
    exact dead

/-- A child that a signal may have met is dead. -/
theorem Child.not_running_of_dies {child : Option Child} {c' : Child} {status : Int}
    (died : child.map (·.dies status) = some c') : c'.running = false := by
  obtain ⟨c, _, rfl⟩ := Option.map_eq_some_iff.mp died
  exact running_dies c status

namespace SyncProcess

variable {v : View} {o o' : SyncProcess} {fds fds' : List Descriptor} {op : SyncOp}

@[simp] theorem setBytes_bytes (o : SyncProcess) (pipe : SyncPipe) :
    o.setBytes (o.bytes pipe) pipe = o := by
  cases pipe <;> rfl

/-- What a completed call leaves behind: `setpgid` changes a group, `close` takes an end away, `write`
and `read` move a byte, and a `read` that moves none has met the end of the file. -/
theorem perform_ok (done : o.perform v fds op = some (.ok (fds', o'))) :
    match op with
    | .setpgid => fds' = fds ∧ o' = o.setpgid
    | .close pipe ep => fds' = fds.filter (· ≠ ⟨v.index, pipe, ep⟩) ∧ o' = o
    | .write pipe => ⟨v.index, pipe, .writeEnd⟩ ∈ fds ∧ fds' = fds ∧ o' = o.setBytes (o.bytes pipe + 1) pipe
    | .read pipe => ⟨v.index, pipe, .readEnd⟩ ∈ fds ∧ fds' = fds ∧ o' = o.setBytes (o.bytes pipe - 1) pipe ∧
        (o.bytes pipe = 0 → v.held pipe .writeEnd = false) := by
  cases op with
  | setpgid =>
    simp only [perform, Option.some.injEq, Except.ok.injEq, Prod.mk.injEq] at done
    exact ⟨done.1.symm, done.2.symm⟩
  | close pipe ep =>
    simp only [perform, Option.some.injEq, Except.ok.injEq, Prod.mk.injEq] at done
    exact ⟨done.1.symm, done.2.symm⟩
  | write pipe =>
    simp only [perform] at done
    split at done
    · simp at done
    · rename_i here
      split at done
      · cases done
        exact ⟨not_not.mp here, rfl, rfl⟩
      · simp at done
  | read pipe =>
    simp only [perform] at done
    split at done
    · simp at done
    · rename_i here
      split at done
      · cases done
        exact ⟨not_not.mp here, rfl, rfl, by omega⟩
      · rename_i empty
        split at done
        · simp at done
        · rename_i unheld
          cases done
          have none : o.bytes pipe - 1 = o.bytes pipe := by omega
          exact ⟨not_not.mp here, rfl, by rw [none, setBytes_bytes], fun _ => by simpa using unheld⟩

theorem perform_fds (done : o.perform v fds op = some (.ok (fds', o'))) : fds' ⊆ fds := by
  have what := perform_ok done
  cases op with
  | setpgid => exact what.1 ▸ List.Subset.refl _
  | close pipe ep => exact what.1 ▸ List.filter_subset_self _
  | write pipe => exact what.2.1 ▸ List.Subset.refl _
  | read pipe => exact what.2.1 ▸ List.Subset.refl _

/-- A completed call touches nothing but the pipes and, if it is `setpgid`, the group of the child. -/
theorem perform_frame (done : o.perform v fds op = some (.ok (fds', o'))) :
    ∃ ready, o' = { o with goBytes := op.goBytes o.goBytes, childReadyBytes := ready, child := o.child.map op.onChild } := by
  have what := perform_ok done
  cases op with
  | setpgid => exact ⟨o.childReadyBytes, what.2⟩
  | close pipe ep => exact ⟨o.childReadyBytes, by simp [what.2, SyncOp.goBytes, SyncOp.map_onChild]⟩
  | write pipe =>
    cases pipe with
    | goPipe => exact ⟨o.childReadyBytes, by simp [what.2.2, SyncOp.goBytes, SyncOp.map_onChild, setBytes, bytes]⟩
    | childReadyPipe => exact ⟨o.childReadyBytes + 1, by simp [what.2.2, SyncOp.goBytes, SyncOp.map_onChild, setBytes, bytes]⟩
  | read pipe =>
    cases pipe with
    | goPipe => exact ⟨o.childReadyBytes, by simp [what.2.2.1, SyncOp.goBytes, SyncOp.map_onChild, setBytes, bytes]⟩
    | childReadyPipe => exact ⟨o.childReadyBytes - 1, by simp [what.2.2.1, SyncOp.goBytes, SyncOp.map_onChild, setBytes, bytes]⟩

/-- Whoever makes the call, the child is the one from before, up to its group. -/
theorem child_before {c' : Child} (done : o.perform v fds op = some (.ok (fds', o'))) (atChild' : o'.child = some c') :
    ∃ c pgid, o.child = some c ∧ c' = { c with pgid } := by
  obtain ⟨ready, rfl⟩ := perform_frame done
  obtain ⟨c, atChild, rfl⟩ := Option.map_eq_some_iff.mp atChild'
  obtain ⟨pgid, same⟩ := op.onChild_eq c
  exact ⟨c, pgid, atChild, same⟩

theorem perform_parent (done : o.perform v fds op = some (.ok (fds', o'))) (other : op ≠ .setpgid) :
    ∃ ready, o' = { o with goBytes := op.goBytes o.goBytes, childReadyBytes := ready } := by
  obtain ⟨ready, rfl⟩ := perform_frame done
  exact ⟨ready, by rw [SyncOp.map_onChild other]⟩

theorem perform_child {c : Child} (done : o.perform v fds op = some (.ok (fds', o')))
    (atChild : o.child = some c) : ∃ ready pgid, o' = { o with
      goBytes := op.goBytes o.goBytes, childReadyBytes := ready, child := some { c with pgid } } := by
  obtain ⟨ready, rfl⟩ := perform_frame done
  obtain ⟨pgid, same⟩ := op.onChild_eq c
  exact ⟨ready, pgid, by rw [atChild, Option.map_some, same]⟩

/-- The changes a step can make to an object, by who makes them. -/
inductive Change (v : View) (o : SyncProcess) : Action → SyncProcess → Prop
  | refused {pathExists fork} (refuses : ∀ pid, pathExists = true → fork ≠ .child pid) :
    Change v o (.prepare pathExists fork) o
  | forked {pid} (idle : o.call = .none) (unstarted : o.started = false) (may : v.mayFork pid = true) :
    Change v o (.prepare true (.child pid))
      { o with
        pid, child := some ⟨pid, v.pgid, .waitForParent SyncOp.waitForParent, v.fds⟩
        call := .prepare SyncOp.waitForChild }
  | starts (idle : o.call = .none) (started : o.started = true) :
    Change v o .start { o with call := .start SyncOp.start }
  | destroys (idle : o.call = .none) (free : o.waiter = .none) :
    Change v o .destroy { o with call := .destroyPipes SyncOp.destroyPipes }
  | parentDoes {op call fds o₁} (next : o.call.next = some (op, call))
    (done : o.perform v o.fds op = some (.ok (fds, o₁))) :
    Change v o .parent { o₁ with fds, call, goWritten := o₁.goWritten || op == .write .goPipe }
  | parentFails {op call e} (next : o.call.next = some (op, call))
    (failed : o.perform v o.fds op = some (.error e)) : Change v o .parent { o with call := .none }
  | parentThrows {op call} (alive : o.alive = true) (next : o.call.next = some (op, call)) :
    Change v o .parentThrows { o with call := .none }
  | swallows {killed} (call : o.call = .destroyProcess killed) :
    Change v o .parentThrows { o with call := .destroyed }
  | prepared (call : o.call = .prepare []) : Change v o .parent { o with call := .none, prepared := true }
  | started (call : o.call = .start []) : Change v o .parent { o with call := .none }
  | pipesDestroyed (call : o.call = .destroyPipes []) : Change v o .parent
      { o with call := if o.started && !o.terminated then .destroyProcess false else .destroyed }
  | killed (call : o.call = .destroyProcess false) : Change v o .parent
      { o with child := o.child.map (·.dies sigkilled), call := .destroyProcess true }
  | reaped {c status} (call : o.call = .destroyProcess true) (child : o.child = some c)
    (ended : c.phase = .ended status) : Change v o .parent
      { o with child := some { c with phase := .reaped }, reaps := o.reaps + 1, call := .destroyed }
  | waits (started : o.started = true) (running : o.terminated = false) (free : o.waiter = .none) :
    Change v o .wait { o with waiter := .waitpid }
  | collects {c status} (waiting : o.waiter = .waitpid) (child : o.child = some c)
    (ended : c.phase = .ended status) : Change v o .waitpid
      { o with
        child := some { c with phase := .reaped }, reaps := o.reaps + 1
        terminationStatus := some status, waiter := .returning }
  | waitFails (waiting : o.waiter = .waitpid) : Change v o .waitThrows { o with waiter := .none }
  | waited (returning : o.waiter = .returning) : Change v o .waitReturns
      { o with terminated := o.terminated || o.terminationStatus.any fun s => wifExited s || wifSignaled s, waiter := .none }
  | childDoes {c op todo fds o₁} (child : o.child = some c) (phase : c.phase = .waitForParent (op :: todo))
    (done : o.perform v c.fds op = some (.ok (fds, o₁))) :
    Change v o .child { o₁ with child := o₁.child.map fun c => { c with phase := .waitForParent todo, fds } }
  | executes {c} (child : o.child = some c) (phase : c.phase = .waitForParent []) :
    Change v o (.execvp none)
      { o with child := some { c with phase := .program, fds := c.fds.filter (·.pipe ≠ .goPipe) } }
  | childFails {c op todo e} (child : o.child = some c) (phase : c.phase = .waitForParent (op :: todo))
    (failed : o.perform v c.fds op = some (.error e)) :
    Change v o .child { o with child := some { c with phase := .escaped e } }
  | escapes {a c e} (fails : a.fails = true) (child : o.child = some c) (running : c.running = true)
    (later : c.phase ≠ .waitForParent SyncOp.waitForParent) :
    Change v o a { o with child := some { c with phase := .escaped e } }
  | dies {a status} (signal : a = .kill ∨ a = .childEnds status)
    (ended : (wifExited status || wifSignaled status) = true) :
    Change v o a { o with child := o.child.map (·.dies status) }

theorem change_of_step {a : Action} (taken : o.step v a = some o') : Change v o a o' := by
  cases a with
  | prepare pathExists fork =>
    simp only [step] at taken
    split at taken
    · rename_i guard
      split at taken
      · split at taken
        · rename_i may
          cases Option.some.inj taken
          exact .forked guard.1 (by simpa using guard.2) may
        · simp at taken
      · rename_i other
        cases Option.some.inj taken
        exact .refused fun pid exists_ forks => other pid exists_ forks
    · simp at taken
  | start =>
    simp only [step, Option.ite_none_right_eq_some, Option.some.injEq] at taken
    obtain ⟨guard, rfl⟩ := taken
    exact .starts guard.1 guard.2
  | destroy =>
    simp only [step, Option.ite_none_right_eq_some, Option.some.injEq] at taken
    obtain ⟨guard, rfl⟩ := taken
    exact .destroys guard.1 guard.2
  | parent =>
    simp only [step, parentStep] at taken
    split at taken
    · rename_i op call _ next
      obtain ⟨result, done, same⟩ := Option.map_eq_some_iff.mp taken
      cases result with
      | error e => exact same ▸ .parentFails next done
      | ok both => exact same ▸ .parentDoes next done
    · rename_i todo none call
      cases todo with
      | nil => exact Option.some.inj taken ▸ .prepared call
      | cons op todo => simp [call, ParentCall.next] at none
    · rename_i todo none call
      cases todo with
      | nil => exact Option.some.inj taken ▸ .started call
      | cons op todo => simp [call, ParentCall.next] at none
    · rename_i todo none call
      cases todo with
      | nil => exact Option.some.inj taken ▸ .pipesDestroyed call
      | cons op todo => simp [call, ParentCall.next] at none
    · rename_i call
      exact Option.some.inj taken ▸ .killed call
    · rename_i call
      split at taken
      · rename_i atChild
        exact Option.some.inj taken ▸ .reaped call atChild rfl
      · simp at taken
    · simp at taken
  | parentThrows =>
    simp only [step] at taken
    split at taken
    · rename_i call
      exact Option.some.inj taken ▸ .swallows call
    · simp only [Option.ite_none_right_eq_some, Option.some.injEq] at taken
      obtain ⟨guard, rfl⟩ := taken
      obtain ⟨both, next⟩ := Option.isSome_iff_exists.mp guard.2
      exact .parentThrows guard.1 next
  | wait =>
    simp only [step, Option.ite_none_right_eq_some, Option.some.injEq] at taken
    obtain ⟨guard, rfl⟩ := taken
    exact .waits guard.2.1 (by simpa using guard.2.2.1) guard.2.2.2
  | waitpid =>
    simp only [step] at taken
    split at taken
    · rename_i waiting atChild
      cases Option.some.inj taken
      exact .collects waiting atChild rfl
    · simp at taken
  | waitThrows =>
    simp only [step, Option.ite_none_right_eq_some, Option.some.injEq] at taken
    obtain ⟨waiting, rfl⟩ := taken
    exact .waitFails waiting
  | waitReturns =>
    simp only [step, Option.ite_none_right_eq_some, Option.some.injEq] at taken
    obtain ⟨returning, rfl⟩ := taken
    exact .waited returning
  | kill =>
    simp only [step, Option.ite_none_right_eq_some, Option.some.injEq] at taken
    obtain ⟨_, rfl⟩ := taken
    exact .dies (.inl rfl) rfl
  | child =>
    simp only [step, childStep] at taken
    split at taken
    · rename_i op todo pid pgid fds atChild
      obtain ⟨result, done, same⟩ := Option.map_eq_some_iff.mp taken
      cases result with
      | error e => exact same ▸ .childFails atChild rfl done
      | ok both => exact same ▸ .childDoes atChild rfl done
    · simp at taken
  | childThrows errno =>
    simp only [step] at taken
    split at taken
    · rename_i op todo pid pgid fds atChild
      obtain ⟨msg, known, rfl⟩ := Option.map_eq_some_iff.mp taken
      refine .escapes rfl atChild rfl ?_
      -- nobody notices that `setpgid` failed
      rintro ⟨⟩
      simp [SyncOp.errorMsg] at known
    · simp at taken
  | execvp errno =>
    simp only [step] at taken
    split at taken
    · rename_i pid pgid fds atChild
      cases Option.some.inj taken
      cases errno with
      | none => exact .executes atChild rfl
      | some errno => exact .escapes rfl atChild rfl (by simp [SyncOp.waitForParent])
    · simp at taken
  | childEnds status =>
    simp only [step] at taken
    split at taken
    · rename_i c atChild
      split at taken
      · rename_i guard
        cases Option.some.inj taken
        have died := Change.dies (v := v) (o := o) (a := .childEnds status) (.inr rfl) guard.2
        simpa only [atChild, Option.map_some] using died
      · simp at taken
    · simp at taken

end SyncProcess

namespace SyncWorld

variable {w w' : SyncWorld} {a : Action}

/-- The things that can happen in the world: a constructor throws, an object is made, something happens to
one of them, or the parent is gone. -/
theorem step_cases (taken : w.step a = some w') :
    (∃ args pipe2, a = .construct args pipe2 ∧ (args = [] ∨ pipe2 = false) ∧ w' = w) ∨
    (∃ args, a = .construct args true ∧ w.alive = true ∧
      w' = { w with objects := w.objects ++ [.make w.objects.length args] }) ∨
    (∃ i act o o', a = .object i act ∧ w.objects[i]? = some o ∧ (act.ofParent → w.alive) ∧
      o.step (w.view i) act = some o' ∧ w' = { w with objects := w.objects.set i o' }) ∨
    (a = .parentEnds ∧ w.alive = true ∧
      w' = { w with alive := false, objects := w.objects.map ({ · with fds := [] }) }) := by
  cases a with
  | construct args pipe2 =>
    simp only [step] at taken
    split at taken
    · rename_i alive
      split at taken
      · rename_i throws
        exact .inl ⟨args, pipe2, rfl, throws, (Option.some.inj taken).symm⟩
      · rename_i succeeds
        simp only [not_or, Bool.not_eq_false] at succeeds
        cases Option.some.inj taken
        exact .inr (.inl ⟨args, by rw [succeeds.2], alive, rfl⟩)
    · simp at taken
  | object i act =>
    obtain ⟨o, atI, taken⟩ := Option.bind_eq_some_iff.mp taken
    split at taken
    · rename_i may
      obtain ⟨o', moved, rfl⟩ := Option.map_eq_some_iff.mp taken
      refine .inr (.inr (.inl ⟨i, act, o, o', rfl, atI, fun parent => ?_, moved, rfl⟩))
      simpa [parent] using may
    · simp at taken
  | parentEnds =>
    simp only [step] at taken
    split at taken
    · rename_i alive
      cases Option.some.inj taken
      exact .inr (.inr (.inr ⟨rfl, alive, rfl⟩))
    · simp at taken

/-- `I` holds of every object, with its number. -/
def Each (w : SyncWorld) (I : Nat → SyncProcess → Prop) : Prop :=
  ∀ i o, w.objects[i]? = some o → I i o

theorem Each.step {I : Nat → SyncProcess → Prop} (each : w.Each I) (taken : w.step a = some w')
    (made : ∀ i args, I i (.make i args))
    (moved : ∀ i act o o', a = .object i act → w.objects[i]? = some o → I i o →
      o.step (w.view i) act = some o' → I i o')
    (ended : a = .parentEnds → ∀ i o, w.objects[i]? = some o → I i o → I i { o with fds := [] }) :
    w'.Each I := by
  rcases step_cases taken with ⟨_, _, _, _, rfl⟩ | ⟨args, _, _, rfl⟩ |
    ⟨i, act, o, o', same, atI, _, change, rfl⟩ | ⟨same, _, rfl⟩
  · exact each
  · intro j q atJ
    rcases getElem?_append_singleton atJ with old | ⟨rfl, rfl⟩
    · exact each j q old
    · exact made _ _
  · intro j q atJ
    rw [List.getElem?_set] at atJ
    split at atJ
    · rename_i here
      subst here
      split at atJ
      · cases Option.some.inj atJ
        exact moved i act o o' same atI (each i o atI) change
      · simp at atJ
    · exact each j q atJ
  · intro j q atJ
    simp only [List.getElem?_map, Option.map_eq_some_iff] at atJ
    obtain ⟨o, atJ, rfl⟩ := atJ
    exact ended same j o atJ (each j o atJ)

theorem each_init {I : Nat → SyncProcess → Prop} (pgid : Pid) : (init pgid).Each I := by
  intro i o atI
  simp [init] at atI

end SyncWorld

end Aser
