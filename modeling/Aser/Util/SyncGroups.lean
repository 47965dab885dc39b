import Aser.Util.KillGroup
import Aser.Util.SyncFrames

namespace Aser

open Library

/-- The child has not come to its first statement, which is `setpgid`. -/
def Child.AtFirst (c : Child) : Prop := c.phase = .waitForParent SyncOp.waitForParent

namespace SyncProcess

/-- How the child of object `i` stands to its group: it is in the group of the parent `pgid`, and `prepare`
will not get past the read of the ready pipe; it leads its own group; or it died in the group of the
parent, and no `prepare` will ever return for it. -/
inductive Standing (alive : Bool) (pgid : Pid) (i : Nat) (o : SyncProcess) (c : Child) : Prop
  | first (here : c.AtFirst) (shared : c.pgid = pgid) (holds : ⟨i, .childReadyPipe, .writeEnd⟩ ∈ c.fds)
    (empty : o.childReadyBytes = 0) (unprepared : o.prepared = false)
    (waits : ∀ todo, o.call = .prepare todo → .read .childReadyPipe ∈ todo)
  | own (own : c.pgid = c.pid)
  | lost (shared : c.pgid = pgid) (dead : c.running = false) (unprepared : o.prepared = false)
    (noPrepare : alive = true → ∀ todo, o.call ≠ .prepare todo)

structure Grouped (alive : Bool) (pgid : Pid) (i : Nat) (o : SyncProcess) : Prop where
  fresh : o.child = none → o.prepared = false ∧ o.childReadyBytes = 0 ∧
    (alive = true → o.call = .none → ⟨i, .childReadyPipe, .writeEnd⟩ ∈ o.fds)
  pid : ∀ {c}, o.child = some c → c.pid = o.pid ∧ c.pid ≠ pgid
  stands : ∀ {c}, o.child = some c → Standing alive pgid i o c

/-- A signal meets the child before its first statement while `prepare` waits for it. -/
def KilledFirst (o : SyncProcess) (a : Action) : Prop :=
  (∃ c todo, o.child = some c ∧ c.AtFirst ∧ o.call = .prepare todo) ∧
    (a = .kill ∨ ∃ status, a = .childEnds status)

variable {v : View} {o o' : SyncProcess} {a : Action} {alive : Bool} {i : Nat} {pgid : Pid}

theorem perform_ready {fds fds' : List Descriptor} {op : SyncOp} {o₁ : SyncProcess}
    (done : o.perform v fds op = some (.ok (fds', o₁))) (other : op ≠ .write .childReadyPipe) :
    o₁.childReadyBytes ≤ o.childReadyBytes := by
  have what := perform_ok done
  cases op with
  | setpgid => rw [what.2]; exact Nat.le_refl _
  | close pipe ep => exact Nat.le_of_eq (by rw [what.2])
  | write pipe =>
    cases pipe with
    | goPipe => rw [what.2.2]; exact Nat.le_refl _
    | childReadyPipe => exact absurd rfl other
  | read pipe =>
    cases pipe with
    | goPipe => rw [what.2.2.1]; exact Nat.le_refl _
    | childReadyPipe =>
      rw [what.2.2.1]
      show o.childReadyBytes - 1 ≤ o.childReadyBytes
      omega

/-- An object whose child was not forked is in no call that could fail. -/
theorem next_of_fresh (h : o.Handshake) (none : o.child = none) (there : o.alive = true) : o.call.next = Option.none := by
  cases next : o.call.next with
  | none => rfl
  | some both =>
    have fits := h.calls
    rw [none] at fits
    rcases ParentCall.cases_of_next next with ⟨_, before, _⟩ | ⟨_, before, _⟩ | ⟨_, before, _⟩
    · simp [before, ParentCall.Fits] at fits
    · simp [before, ParentCall.Fits] at fits
    · simp [SyncProcess.alive, before, ParentCall.alive] at there

/-- What a step does to the child: it forks it, or changes no more than its group to its own and its
phase. -/
theorem child_of_step {c' : Child} (atChild' : o'.child = some c') (taken : o.step v a = some o') :
    (a = .prepare true (.child c'.pid) ∧ v.mayFork c'.pid = true) ∨
    ∃ c, o.child = some c ∧ c'.pid = c.pid ∧ (c.phase = .reaped → c'.phase = .reaped) := by
  have died : ∀ {status : Int}, o.child.map (·.dies status) = some c' →
      ∃ c, o.child = some c ∧ c'.pid = c.pid ∧ (c.phase = .reaped → c'.phase = .reaped) := by
    intro status atChild'
    obtain ⟨c, atChild, rfl⟩ := Option.map_eq_some_iff.mp atChild'
    refine ⟨c, atChild, ?_, fun phase => ?_⟩
    · rcases c.dies_cases status with ended | ⟨_, same⟩
      · rw [ended]
      · rw [same]
    · rw [c.dies_of_dead (by simp [Child.running, phase]), phase]
  cases change_of_step taken with
  | forked idle unstarted may =>
    cases atChild'
    exact .inl ⟨rfl, may⟩
  | parentDoes next done =>
    obtain ⟨c, pgid, atChild, rfl⟩ := child_before done atChild'
    exact .inr ⟨c, atChild, rfl, id⟩
  | childDoes atChild phase done =>
    obtain ⟨ready, pgid, rfl⟩ := perform_child done atChild
    cases atChild'
    exact .inr ⟨_, atChild, rfl, by simp [phase]⟩
  | killed => exact .inr (died atChild')
  | dies => exact .inr (died atChild')
  | reaped _ atChild =>
    cases atChild'
    exact .inr ⟨_, atChild, rfl, fun _ => rfl⟩
  | collects _ atChild =>
    cases atChild'
    exact .inr ⟨_, atChild, rfl, fun _ => rfl⟩
  | executes atChild phase =>
    cases atChild'
    exact .inr ⟨_, atChild, rfl, by simp [phase]⟩
  | childFails atChild phase =>
    cases atChild'
    exact .inr ⟨_, atChild, rfl, by simp [phase]⟩
  | escapes fails atChild running =>
    cases atChild'
    refine .inr ⟨_, atChild, rfl, fun phase => ?_⟩
    simp [Child.running, phase] at running
  | _ => exact .inr ⟨c', atChild', rfl, id⟩

theorem Grouped.make (alive : Bool) (pgid : Pid) (i : Nat) (args : List String) :
    Grouped alive pgid i (.make i args) := by
  refine ⟨fun _ => ⟨rfl, rfl, fun _ _ => ?_⟩, by simp [SyncProcess.make], by simp [SyncProcess.make]⟩
  simp [SyncProcess.make, openEnds]

/-- The parent is in another call, which is not `prepare`, or in none; or it stays where it is. -/
theorem Standing.goes {c : Child} (stands : Standing alive pgid i o c) (prepared : o'.prepared = o.prepared)
    (bytes : o'.childReadyBytes = o.childReadyBytes)
    (call : o'.call = o.call ∨ ∀ todo, o'.call ≠ .prepare todo) : Standing alive pgid i o' c := by
  cases stands with
  | first here shared holds empty unprepared waits =>
    refine .first here shared holds (bytes.trans empty) (prepared.trans unprepared) fun todo at' => ?_
    rcases call with same | other
    · exact waits todo (same ▸ at')
    · exact absurd at' (other todo)
  | own own => exact .own own
  | lost shared dead unprepared noPrepare =>
    refine .lost shared dead (prepared.trans unprepared) fun there todo at' => ?_
    rcases call with same | other
    · exact noPrepare there todo (same ▸ at')
    · exact other todo at'

theorem Grouped.goes (g : Grouped alive pgid i o) (child : o'.child = o.child) (pid : o'.pid = o.pid)
    (prepared : o'.prepared = o.prepared) (bytes : o'.childReadyBytes = o.childReadyBytes) (fds : o'.fds = o.fds)
    (idle : o.child = none → o'.call = .none → o.call = .none)
    (call : o'.call = o.call ∨ ∀ todo, o'.call ≠ .prepare todo) : Grouped alive pgid i o' where
  fresh none := by
    obtain ⟨unprepared, empty, holds⟩ := g.fresh (child ▸ none)
    refine ⟨prepared.trans unprepared, bytes.trans empty, fun there free => ?_⟩
    rw [fds]
    exact holds there (idle (child ▸ none) free)
  pid atChild := pid ▸ g.pid (child ▸ atChild)
  stands atChild := (g.stands (child ▸ atChild)).goes prepared bytes call

/-- The child changes its phase, and its group at most to its own. -/
theorem Grouped.becomes (g : Grouped alive pgid i o) {c c' : Child} (atChild : o.child = some c)
    (child : o'.child = some c') (pid : o'.pid = o.pid) (kept : c'.pid = c.pid)
    (stands : Standing alive pgid i o' c') : Grouped alive pgid i o' where
  fresh none := by simp [child] at none
  pid atChild' := by
    cases Option.some.inj (child.symm.trans atChild')
    obtain ⟨same, other⟩ := g.pid atChild
    rw [kept, pid]
    exact ⟨same, other⟩
  stands atChild' := by
    cases Option.some.inj (child.symm.trans atChild')
    exact stands

theorem pid_dies (c : Child) (status : Int) : (c.dies status).pid = c.pid ∧ (c.dies status).pgid = c.pgid := by
  rcases c.dies_cases status with ended | ⟨_, same⟩
  · rw [ended]
    exact ⟨rfl, rfl⟩
  · rw [same]
    exact ⟨rfl, rfl⟩

/-- A child that dies without a `prepare` under way keeps its standing, or is lost. -/
theorem Standing.dies {c : Child} (stands : Standing alive pgid i o c) (status : Int)
    (prepared : o'.prepared = o.prepared) (call : o'.call = o.call ∨ ∀ todo, o'.call ≠ .prepare todo)
    (noPrepare : c.AtFirst → c.pgid = pgid → alive = true → ∀ todo, o'.call ≠ .prepare todo) :
    Standing alive pgid i o' (c.dies status) := by
  obtain ⟨pid, group⟩ := pid_dies c status
  cases stands with
  | first here shared _ _ unprepared _ =>
    exact .lost (group.trans shared) (c.running_dies status) (prepared.trans unprepared) (noPrepare here shared)
  | own own => exact .own (group.trans (own.trans pid.symm))
  | lost shared _ unprepared noPrepare' =>
    refine .lost (group.trans shared) (c.running_dies status) (prepared.trans unprepared) fun there todo at' => ?_
    rcases call with same | other
    · exact noPrepare' there todo (same ▸ at')
    · exact other todo at'

theorem Grouped.dies (g : Grouped alive pgid i o) (status : Int) (child : o'.child = o.child.map (·.dies status))
    (pid : o'.pid = o.pid) (prepared : o'.prepared = o.prepared) (bytes : o'.childReadyBytes = o.childReadyBytes)
    (fds : o'.fds = o.fds) (idle : o.child = none → o'.call = .none → o.call = .none)
    (call : o'.call = o.call ∨ ∀ todo, o'.call ≠ .prepare todo)
    (noPrepare : ∀ c, o.child = some c → c.AtFirst → c.pgid = pgid → alive = true → ∀ todo, o'.call ≠ .prepare todo) :
    Grouped alive pgid i o' := by
  cases atChild : o.child with
  | none => exact g.goes (by rw [child, atChild]; rfl) pid prepared bytes fds idle call
  | some c =>
    rw [atChild] at child
    exact g.becomes atChild child pid (pid_dies c status).1
      ((g.stands atChild).dies status prepared call (noPrepare c atChild))

theorem waits_of_next {op : SyncOp} {call : ParentCall} (next : o.call.next = some (op, call))
    (waits : ∀ todo, o.call = .prepare todo → .read .childReadyPipe ∈ todo)
    (other : op ≠ .read .childReadyPipe) : ∀ todo, call = .prepare todo → .read .childReadyPipe ∈ todo := by
  intro todo same
  subst same
  rcases ParentCall.cases_of_next next with ⟨_, before, ⟨⟩⟩ | ⟨_, _, ⟨⟩⟩ | ⟨_, _, ⟨⟩⟩
  have member := waits _ before
  rcases List.mem_cons.mp member with rfl | later
  · exact absurd rfl other
  · exact later

theorem not_prepare_of_next {op : SyncOp} {call : ParentCall} (next : o.call.next = some (op, call))
    (other : ∀ todo, o.call ≠ .prepare todo) : ∀ todo, call ≠ .prepare todo := by
  intro todo same
  subst same
  rcases ParentCall.cases_of_next next with ⟨_, before, ⟨⟩⟩ | ⟨_, _, ⟨⟩⟩ | ⟨_, _, ⟨⟩⟩
  exact other _ before

/-- The parent writes nothing to the ready pipe, and goes on past its read of it only when the child has
left its first statement behind. -/
theorem Grouped.parentDoes (g : Grouped alive pgid v.index o) (h : o.Handshake)
    (seen : ∀ c, o.child = some c → ⟨v.index, .childReadyPipe, .writeEnd⟩ ∈ c.fds →
      v.held .childReadyPipe .writeEnd = true) {op : SyncOp} {call : ParentCall} {fds : List Descriptor}
    {o₁ : SyncProcess} (next : o.call.next = some (op, call)) (done : o.perform v o.fds op = some (.ok (fds, o₁))) :
    Grouped alive pgid v.index { o₁ with fds, call, goWritten := o₁.goWritten || op == .write .goPipe } := by
  have noWrite : op ≠ .write .childReadyPipe := by
    have ofParent : ∀ op ∈ SyncOp.waitForChild ++ SyncOp.start ++ SyncOp.destroyPipes, op ≠ .write .childReadyPipe := by
      decide
    have fits := h.calls
    rcases ParentCall.cases_of_next next with ⟨_, before, _⟩ | ⟨_, before, _⟩ | ⟨_, before, _⟩
    · rw [before] at fits
      exact ofParent op (by simp [(List.cons_subset.mp fits.2).1])
    · rw [before] at fits
      exact ofParent op (by simp [(List.cons_subset.mp fits.2).1])
    · rw [before] at fits
      exact ofParent op (by simp [(List.cons_subset.mp fits).1])
  have less := perform_ready done noWrite
  have what := perform_ok done
  obtain ⟨ready, rfl⟩ := perform_parent done (h.calls.next next).2.1
  have fewer : ready ≤ o.childReadyBytes := less
  refine ⟨fun none => ?_, g.pid, fun {c} atChild => ?_⟩
  · have gone : o.child = Option.none := none
    obtain ⟨unprepared, empty, _⟩ := g.fresh gone
    refine ⟨unprepared, by show ready = 0; omega, fun _ free => ?_⟩
    have idle : call = .none := free
    rcases ParentCall.cases_of_next next with ⟨_, _, rfl⟩ | ⟨_, _, rfl⟩ | ⟨_, _, rfl⟩ <;> simp at idle
  · have before : o.child = some c := atChild
    cases g.stands before with
    | first here shared holds empty unprepared waits =>
      have noRead : op ≠ .read .childReadyPipe := by
        intro reads
        subst reads
        have unheld := what.2.2.2 empty
        simp [seen c before holds] at unheld
      exact .first here shared holds (by show ready = 0; omega) unprepared (waits_of_next next waits noRead)
    | own own => exact .own own
    | lost shared dead unprepared noPrepare =>
      exact .lost shared dead unprepared fun there => not_prepare_of_next next (noPrepare there)

/-- The first thing a child does is to lead its own group. -/
theorem Standing.childDoes {c : Child} {op : SyncOp} {todo : List SyncOp} {fds : List Descriptor}
    (stands : Standing alive pgid i o c) (phase : c.phase = .waitForParent (op :: todo)) :
    Standing alive pgid i o' { op.onChild c with phase := .waitForParent todo, fds } := by
  cases stands with
  | first here =>
    cases phase.symm.trans here
    exact .own rfl
  | own own =>
    cases op with
    | setpgid => exact .own rfl
    | _ => exact .own own
  | lost _ dead => simp [Child.running, phase] at dead

/-- Past its first statement a child keeps its standing whatever it does or gets, as it keeps its group. -/
theorem Standing.later {c c' : Child} (stands : Standing alive pgid i o c) (past : ¬ c.AtFirst)
    (pid : c'.pid = c.pid) (group : c'.pgid = c.pgid) (dead : c.running = false → c'.running = false)
    (prepared : o'.prepared = o.prepared) (call : o'.call = o.call ∨ ∀ todo, o'.call ≠ .prepare todo) :
    Standing alive pgid i o' c' := by
  cases stands with
  | first here => exact absurd here past
  | own own => exact .own (group.trans (own.trans pid.symm))
  | lost shared gone unprepared noPrepare =>
    refine .lost (group.trans shared) (dead gone) (prepared.trans unprepared) fun there todo at' => ?_
    rcases call with same | other
    · exact noPrepare there todo (same ▸ at')
    · exact other todo at'

/-- A child that is somewhere else than at its first statement. -/
theorem not_atFirst {c : Child} {phase : ChildPhase} (here : c.phase = phase)
    (other : phase ≠ .waitForParent SyncOp.waitForParent) : ¬ c.AtFirst :=
  fun first => other (here.symm.trans first)

theorem Grouped.step (g : Grouped alive v.pgid v.index o) (h : o.Handshake)
    (parent : a.ofParent = true → alive = true) (noPid : v.mayFork v.pgid = false)
    (copied : ∀ d ∈ o.fds, d ∈ v.fds)
    (seen : ∀ c, o.child = some c → ⟨v.index, .childReadyPipe, .writeEnd⟩ ∈ c.fds →
      v.held .childReadyPipe .writeEnd = true)
    (spared : ¬ o.KilledFirst a) (taken : o.step v a = some o') : Grouped alive v.pgid v.index o' := by
  have forked : ∀ {P : Prop}, o.child = none → o.started = true → P := by
    intro P none started
    rw [h.forked, none] at started
    cases started
  cases change_of_step taken with
  | refused => exact g
  | @forked pid idle unstarted may =>
    have gone : o.child = none := by simpa using h.forked.symm.trans unstarted
    obtain ⟨unprepared, empty, holds⟩ := g.fresh gone
    have other : pid ≠ v.pgid := by
      intro same
      rw [same, noPid] at may
      cases may
    refine ⟨by simp, fun atChild => ?_, fun atChild => ?_⟩
    · cases atChild
      exact ⟨rfl, other⟩
    · cases atChild
      refine .first rfl rfl (copied _ (holds (parent rfl) idle)) empty unprepared fun todo call => ?_
      cases call
      decide
  | starts idle started => exact g.goes rfl rfl rfl rfl rfl (fun none => forked none started) (.inr (by simp))
  | destroys => exact g.goes rfl rfl rfl rfl rfl (by simp) (.inr (by simp))
  | parentDoes next done => exact g.parentDoes h seen next done
  | parentFails next failed =>
    refine g.goes rfl rfl rfl rfl rfl (fun none _ => ?_) (.inr (by simp))
    simp [next_of_fresh h none (alive_of_failed h next failed)] at next
  | parentThrows there next =>
    refine g.goes rfl rfl rfl rfl rfl (fun none _ => ?_) (.inr (by simp))
    simp [next_of_fresh h none there] at next
  | swallows => exact g.goes rfl rfl rfl rfl rfl (by simp) (.inr (by simp))
  | prepared call =>
    have fits := h.calls
    rw [call] at fits
    obtain ⟨c, atChild⟩ := Option.isSome_iff_exists.mp fits.1
    refine g.becomes atChild atChild rfl rfl ?_
    cases g.stands atChild with
    | first _ _ _ _ _ waits =>
      have member := waits [] call
      simp at member
    | own own => exact .own own
    | lost _ _ _ noPrepare => exact absurd call (noPrepare (parent rfl) [])
  | started call =>
    have fits := h.calls
    rw [call] at fits
    exact g.goes rfl rfl rfl rfl rfl (fun none => by simp [none] at fits; simp [ParentCall.Fits] at fits) (.inr (by simp))
  | pipesDestroyed =>
    refine g.goes rfl rfl rfl rfl rfl (fun _ idle => ?_) (.inr fun todo => ?_)
    · dsimp only at idle
      split at idle <;> simp at idle
    · dsimp only
      split <;> simp
  | killed => exact g.dies sigkilled rfl rfl rfl rfl rfl (by simp) (.inr (by simp)) (by simp)
  | reaped call atChild ended =>
    have past := not_atFirst ended (by simp)
    exact g.becomes atChild rfl rfl rfl
      ((g.stands atChild).later past rfl rfl (fun _ => rfl) rfl (.inr (by simp)))
  | waits | waitFails | waited => exact g.goes rfl rfl rfl rfl rfl (fun _ => id) (.inl rfl)
  | collects waiting atChild ended =>
    have past := not_atFirst ended (by simp)
    exact g.becomes atChild rfl rfl rfl ((g.stands atChild).later past rfl rfl (fun _ => rfl) rfl (.inl rfl))
  | @childDoes c op todo fds o₁ atChild phase done =>
    obtain ⟨ready, rfl⟩ := perform_frame done
    refine g.becomes atChild (by rw [atChild]; rfl) rfl ?_ ((g.stands atChild).childDoes phase)
    cases op <;> rfl
  | executes atChild phase =>
    have past := not_atFirst phase (by simp [SyncOp.waitForParent])
    exact g.becomes atChild rfl rfl rfl
      ((g.stands atChild).later past rfl rfl (by simp [Child.running, phase]) rfl (.inl rfl))
  | @childFails c op todo e atChild phase failed =>
    have past : ¬ c.AtFirst := by
      intro here
      -- the first statement does not throw
      cases phase.symm.trans here
      simp [perform] at failed
    exact g.becomes atChild rfl rfl rfl
      ((g.stands atChild).later past rfl rfl (by simp [Child.running, phase]) rfl (.inl rfl))
  | escapes _ atChild running later =>
    exact g.becomes atChild rfl rfl rfl
      ((g.stands atChild).later later rfl rfl (by simp [running]) rfl (.inl rfl))
  | @dies _ status signal =>
    refine g.dies status rfl rfl rfl rfl rfl (fun _ => id) (.inl rfl) ?_
    intro c atChild here _ _ todo call
    exact spared ⟨⟨c, todo, atChild, here, call⟩, signal.imp_right fun ends => ⟨_, ends⟩⟩

/-- The parent is gone. -/
theorem Grouped.orphaned (g : Grouped alive pgid i o) : Grouped false pgid i { o with fds := [] } where
  fresh none := by
    obtain ⟨unprepared, empty, _⟩ := g.fresh none
    exact ⟨unprepared, empty, by simp⟩
  pid := g.pid
  stands atChild := by
    cases g.stands atChild with
    | first here shared holds empty unprepared waits => exact .first here shared holds empty unprepared waits
    | own own => exact .own own
    | lost shared dead unprepared _ => exact .lost shared dead unprepared (by simp)

/-- `prepare` has returned, so the child leads its own group. -/
theorem Grouped.prepared (g : Grouped alive pgid i o) (prepared : o.prepared = true) :
    ∃ c, o.child = some c ∧ c.pid = o.pid ∧ c.pgid = c.pid ∧ c.pid ≠ pgid := by
  cases atChild : o.child with
  | none => simp [(g.fresh atChild).1] at prepared
  | some c =>
    obtain ⟨same, other⟩ := g.pid atChild
    cases g.stands atChild with
    | first _ _ _ _ unprepared => simp [unprepared] at prepared
    | own own => exact ⟨c, rfl, same, own, other⟩
    | lost _ _ unprepared => simp [unprepared] at prepared

theorem Grouped.pgid_cases (g : Grouped alive pgid i o) {c : Child} (atChild : o.child = some c) :
    c.pgid = pgid ∨ c.pgid = c.pid := by
  cases g.stands atChild with
  | first _ shared => exact .inl shared
  | own own => exact .inr own
  | lost shared => exact .inl shared

/-- `wait` says that a child has terminated only when it was reaped. -/
def Accounted (o : SyncProcess) : Prop := o.terminated = true ∨ o.waiter = .returning → o.Reaped

theorem Accounted.step (accounted : o.Accounted) (h : o.Handshake) (taken : o.step v a = some o') : o'.Accounted := by
  intro settled
  by_cases reaped : o.Reaped
  · exact (reaped.step h taken).1
  · have running : ¬ o.terminated = true ∧ o.waiter ≠ .returning := by
      rw [← not_or]
      exact fun settled => reaped (accounted settled)
    cases change_of_step taken with
    | collects => exact ⟨_, rfl, rfl⟩
    | waits => simp [running.1] at settled
    | waitFails => simp [running.1] at settled
    | waited returning => exact absurd returning running.2
    | parentDoes next done =>
      obtain ⟨ready, rfl⟩ := perform_frame done
      exact absurd (accounted settled) reaped
    | childDoes atChild phase done =>
      obtain ⟨ready, rfl⟩ := perform_frame done
      exact absurd (accounted settled) reaped
    | _ => exact absurd (accounted settled) reaped

end SyncProcess

namespace SyncWorld

variable {w w' : SyncWorld} {a : Action} {i : Nat} {pid : Pid}

/-- A signal meets a child before its first statement while the `prepare` of its object waits for it. -/
def KilledFirst (w : SyncWorld) (a : Action) : Prop :=
  ∃ i act o, a = .object i act ∧ w.objects[i]? = some o ∧ o.KilledFirst act

/-- The child of object `i` has the pid and was not reaped. -/
def HasChild (w : SyncWorld) (i : Nat) (pid : Pid) : Prop :=
  ∃ (o : SyncProcess) (c : Child), w.objects[i]? = some o ∧ o.child = some c ∧ c.phase ≠ .reaped ∧ c.pid = pid

/-- Every child stands to its group as it should. -/
def Grouped (w : SyncWorld) : Prop := w.Each (SyncProcess.Grouped w.alive w.pgid)

theorem held_of_child_mem {o : SyncProcess} {c : Child} {pipe : SyncPipe} {ep : EndPoint}
    (atI : w.objects[i]? = some o) (atChild : o.child = some c) (member : ⟨i, pipe, ep⟩ ∈ c.fds) :
    w.held i pipe ep = true := by
  rw [held, List.any_eq_true]
  exact ⟨o, List.mem_of_getElem? atI, by simp [atChild, member]⟩

theorem mayFork_pgid (w : SyncWorld) : w.mayFork w.pgid = false := by
  simp [mayFork]

theorem Grouped.step (g : w.Grouped) (each : w.Each fun _ o => o.Handshake) (spared : ¬ w.KilledFirst a)
    (taken : w.step a = some w') : w'.Grouped := by
  rcases step_cases taken with ⟨_, _, _, _, rfl⟩ | ⟨args, _, _, rfl⟩ | ⟨i, act, o, o', rfl, atI, parent, moved, rfl⟩ |
    ⟨_, _, rfl⟩
  · exact g
  · intro j q atJ
    rcases getElem?_append_singleton atJ with old | ⟨rfl, rfl⟩
    · exact g j q old
    · exact .make _ _ _ _
  · intro j q atJ
    rcases object_cases taken atJ with ⟨rfl, o, atJ, moved⟩ | ⟨_, atJ⟩
    · refine SyncProcess.Grouped.step (v := w.view j) (g j o atJ) (each j o atJ) parent w.mayFork_pgid ?_ ?_ ?_ moved
      · intro d member
        exact List.mem_flatMap.mpr ⟨o, List.mem_of_getElem? atJ, member⟩
      · intro c atChild member
        exact held_of_child_mem atJ atChild member
      · exact fun killed => spared ⟨j, act, o, rfl, atJ, killed⟩
    · exact g j q atJ
  · intro j q atJ
    simp only [List.getElem?_map, Option.map_eq_some_iff] at atJ
    obtain ⟨o, atJ, rfl⟩ := atJ
    exact (g j o atJ).orphaned

/-- A child that is there after a step was there before it, or is forked in it. -/
theorem hasChild_of_step (taken : w.step a = some w') (has : w'.HasChild i pid) :
    w.HasChild i pid ∨ a = .object i (.prepare true (.child pid)) ∧ w.mayFork pid = true := by
  obtain ⟨q, c', atI, atChild', unreaped, rfl⟩ := has
  rcases object_of_step taken atI with ⟨act, o, rfl, before, moved⟩ | ⟨_, ⟨_, _, _, rfl⟩ | ⟨o, before, same⟩⟩
  · rcases SyncProcess.child_of_step atChild' moved with ⟨rfl, may⟩ | ⟨c, atChild, kept, gone⟩
    · exact .inr ⟨rfl, may⟩
    · exact .inl ⟨o, c, before, atChild, fun phase => unreaped (gone phase), kept.symm⟩
  · simp [SyncProcess.make] at atChild'
  · rcases same with rfl | rfl
    · exact .inl ⟨_, c', before, atChild', unreaped, rfl⟩
    · exact .inl ⟨o, c', before, atChild', unreaped, rfl⟩

/-- A fork returns a pid that no child has. -/
theorem not_hasChild (may : w.mayFork pid = true) : ¬ w.HasChild i pid := by
  intro has
  obtain ⟨o, c, atI, atChild, unreaped, rfl⟩ := has
  simp only [mayFork, Bool.and_eq_true, List.all_eq_true] at may
  have clear := may.2 o (List.mem_of_getElem? atI)
  simp [atChild, unreaped] at clear

theorem accounted_step (each : w.Each fun _ o => o.Handshake) (accounted : w.Each fun _ o => o.Accounted)
    (taken : w.step a = some w') : w'.Each fun _ o => o.Accounted :=
  accounted.step taken (fun _ _ => by simp [SyncProcess.Accounted, SyncProcess.make])
    (fun i _ o _ _ atI accounted moved => accounted.step (each i o atI) moved) (fun _ _ _ _ accounted => accounted)

end SyncWorld

end Aser
