import Aser.Util.SyncSteps

namespace Aser

open Library

namespace Process

variable {config : ProcessConfig} {handshake : Except Exception Unit}

/-- The forked child stays within `process::start` exactly if the handshake goes well and `execvp`
succeeds: the callback for a failed `execvp` throws, and the `exit` after it is not reached. -/
theorem startInChild_stays_iff (setup : config.execSetupCallback = some handshake)
    (onError : config.execErrorCallback = some fun errorCode => libcError errorCode "Exec failed")
    (execvp : Option Int) :
    (startInChild config execvp = .program ∨ ∃ status, startInChild config execvp = .exits status) ↔
      handshake = .ok () ∧ execvp = none := by
  have ran : config.execSetup = handshake := by simp [ProcessConfig.execSetup, setup]
  have failed : ∀ errno, config.execError errno = libcError errno "Exec failed" := by
    intro errno
    simp [ProcessConfig.execError, onError]
  cases handshake with
  | error e => simp [startInChild, ran]
  | ok =>
    cases execvp with
    | none => simp [startInChild, ran]
    | some errno => simp [startInChild, ran, afterExecvp, failed, libcError]

theorem startInChild_stays_iff_succeeds :
    startInChild (syncConfig (.ok ()) (.ok ())) none = .program ∨
      ∃ status, startInChild (syncConfig (.ok ()) (.ok ())) none = .exits status :=
  (startInChild_stays_iff rfl rfl none).mpr ⟨rfl, rfl⟩

/-- `execvp` fails with `ENOENT`: the child throws into the code that called `start`. -/
theorem startInChild_leaves :
    startInChild (syncConfig (.ok ()) (.ok ())) (some 2) = .throws (.systemError 2 "Exec failed") ∧
      ¬ (startInChild (syncConfig (.ok ()) (.ok ())) (some 2) = .program ∨
        ∃ status, startInChild (syncConfig (.ok ()) (.ok ())) (some 2) = .exits status) := by
  refine ⟨rfl, ?_⟩
  simp [startInChild, afterExecvp, syncConfig, ProcessConfig.execSetup, ProcessConfig.execError, libcError]

end Process

namespace SyncProcess

/-- The child left `process::start` by an exception. -/
def Escaped (o : SyncProcess) : Prop := ∃ c e, o.child = some c ∧ c.phase = .escaped e

/-- The next call of the handshake throws in the child. -/
def HandshakeFails (o : SyncProcess) (v : View) : Prop :=
  ∃ c op todo e, o.child = some c ∧ c.phase = .waitForParent (op :: todo) ∧
    o.perform v c.fds op = some (.error e)

variable {v : View} {o o' : SyncProcess}

theorem not_escaped_of_dies {status : Int} (died : o'.child = o.child.map (·.dies status)) :
    ¬ o'.Escaped := by
  intro escaped
  obtain ⟨c', e, atChild, phase⟩ := escaped
  have dead := Child.not_running_of_dies (died.symm.trans atChild)
  simp [Child.running, phase] at dead

theorem escaped_iff {a : Action} (stays : ¬ o.Escaped) (taken : o.step v a = some o') :
    ¬ o'.Escaped ↔ ¬ (a.fails = true ∨ a = .child ∧ o.HandshakeFails v) := by
  have other : (o'.Escaped → o.Escaped) → ¬ (a.fails = true ∨ a = .child ∧ o.HandshakeFails v) →
      (¬ o'.Escaped ↔ ¬ (a.fails = true ∨ a = .child ∧ o.HandshakeFails v)) :=
    fun back guard => iff_of_true (fun now => stays (back now)) guard
  cases change_of_step taken with
  | refused => exact other id (by simp [Action.fails])
  | forked => exact other (by rintro ⟨_, _, ⟨⟩, ⟨⟩⟩) (by simp [Action.fails])
  | parentDoes next done =>
    refine other ?_ (by simp [Action.fails])
    intro escaped
    obtain ⟨c', e, atChild, phase⟩ := escaped
    obtain ⟨c, pgid, atChild', rfl⟩ := child_before done atChild
    exact ⟨c, e, atChild', phase⟩
  | killed => exact other (fun now => absurd now (not_escaped_of_dies rfl)) (by simp [Action.fails])
  | dies signal =>
    refine other (fun now => absurd now (not_escaped_of_dies rfl)) ?_
    rcases signal with rfl | rfl
    · simp [Action.fails]
    · simp [Action.fails]
  | reaped => exact other (by rintro ⟨_, _, ⟨⟩, ⟨⟩⟩) (by simp [Action.fails])
  | collects => exact other (by rintro ⟨_, _, ⟨⟩, ⟨⟩⟩) (by simp [Action.fails])
  | executes => exact other (by rintro ⟨_, _, ⟨⟩, ⟨⟩⟩) (by simp [Action.fails])
  | childDoes atChild phase done =>
    obtain ⟨ready, pgid, rfl⟩ := perform_child done atChild
    refine other (by rintro ⟨_, _, ⟨⟩, ⟨⟩⟩) ?_
    intro failure
    rcases failure with fails | ⟨_, c, op, todo, e, atChild', phase', failed⟩
    · simp [Action.fails] at fails
    · cases Option.some.inj (atChild.symm.trans atChild')
      cases phase.symm.trans phase'
      simp [failed] at done
  | childFails atChild phase failed =>
    exact iff_of_false (fun now => now ⟨_, _, rfl, rfl⟩) (fun guard => guard (.inr ⟨rfl, _, _, _, _, atChild, phase, failed⟩))
  | escapes fails => exact iff_of_false (fun now => now ⟨_, _, rfl, rfl⟩) (fun guard => guard (.inl fails))
  | starts | destroys | parentFails | parentThrows | swallows | prepared | started | pipesDestroyed | waits | waitFails |
    waited =>
    exact other id (by simp [Action.fails])

end SyncProcess

namespace SyncWorld

/-- Some child is running the code after `start`. -/
def Escaped (w : SyncWorld) : Prop := ∃ (i : Nat) (o : SyncProcess), w.objects[i]? = some o ∧ o.Escaped

/-- The step is a system call that fails in a child before its command runs. -/
def FailsInChild (w : SyncWorld) (a : Action) : Prop :=
  ∃ (i : Nat) (act : SyncProcess.Action) (o : SyncProcess), a = .object i act ∧ w.objects[i]? = some o ∧
    (act.fails = true ∨ act = .child ∧ o.HandshakeFails (w.view i))

/-- In a run children leave `process::start` exactly through system calls that fail in them. -/
theorem not_escaped_iff {pgid : Pid} {ts : List (Transition SyncWorld Action)} {w : SyncWorld}
    (run : Run step (init pgid) ts w) :
    (∀ t ∈ ts, ¬ t.after.Escaped) ↔ ∀ t ∈ ts, ¬ t.before.FailsInChild t.action := by
  refine Run.property_iff_guard (I := fun _ => True) (P := fun w => ¬ w.Escaped)
    (G := fun w a => ¬ w.FailsInChild a) (fun _ => trivial) (by rintro ⟨i, o, atI, _⟩; simp [init] at atI) ?_ run
  intro w a w' _ stays taken
  have each : w.Each fun _ o => ¬ o.Escaped := fun i o atI escaped => stays ⟨i, o, atI, escaped⟩
  constructor
  · intro stays' failure
    obtain ⟨i, act, o, rfl, atI, fails⟩ := failure
    rcases step_cases taken with ⟨_, _, ⟨⟩, _⟩ | ⟨_, ⟨⟩, _⟩ | ⟨_, _, o₀, o', ⟨⟩, atI', _, moved, rfl⟩ | ⟨⟨⟩, _⟩
    cases Option.some.inj (atI.symm.trans atI')
    have within := (List.getElem?_eq_some_iff.mp atI).1
    refine (SyncProcess.escaped_iff (each i o atI) moved).mp (fun escaped => ?_) fails
    exact stays' ⟨i, o', by simp [within], escaped⟩
  · intro guard
    have each' : w'.Each fun _ o => ¬ o.Escaped := by
      refine each.step taken ?_ ?_ (fun _ _ _ _ held => held)
      · rintro _ _ ⟨_, _, ⟨⟩, _⟩
      · intro i act o o' same atI held moved
        subst same
        exact (SyncProcess.escaped_iff held moved).mpr (fun fails => guard ⟨i, act, o, rfl, atI, fails⟩)
    intro escapes
    obtain ⟨i, o, atI, escaped⟩ := escapes
    exact each' i o atI escaped

end SyncWorld

end Aser
