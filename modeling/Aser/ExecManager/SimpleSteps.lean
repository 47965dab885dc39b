import Aser.Core.ProcessMonitorEnd
import Aser.ExecManager.Simple
import Aser.Util.SyncFrames

namespace Aser

open Library

/-- An exception is on its way out of `start`, or has left it. -/
def Place.unwound : Place → Bool
  | .dropping _ | .unwinding | .threw => true
  | _ => false

namespace SimpleManager

/-- What the thread of the manager can do next, by where it stands. -/
inductive Main (s : SimpleManager) : Effect → Prop
  | unwinds {e} (out : e.place.unwound = true) : Main s e
  | initializes (place : s.place = .initializing) :
    Main s { place := .constructing 0, execMonitor := some .doInitialize }
  | constructs {i args} (place : s.place = .constructing i) (atI : s.benchs[i]? = some args)
    (nonempty : args ≠ []) : Main s { place := .callingPrepare i, world := some (.construct args true) }
  | constructed {i} (place : s.place = .constructing i) (all : s.benchs.length ≤ i) :
    Main s { place := .adding 0 }
  | prepares {i pid} (place : s.place = .callingPrepare i) :
    Main s { place := .inPrepare i, world := some (.object i (.prepare true (.child pid))) }
  | prepareGoes {i o op todo} (place : s.place = .inPrepare i) (atI : s.world.objects[i]? = some o)
    (call : o.call = .prepare (op :: todo)) :
    Main s { place := .inPrepare i, world := some (.object i .parent) }
  | prepareReturns {i o} (place : s.place = .inPrepare i) (atI : s.world.objects[i]? = some o)
    (call : o.call = .prepare []) : Main s { place := .notifying i, world := some (.object i .parent) }
  | notifies {i event} (place : s.place = .notifying i) :
    Main s { place := .constructing (i + 1), execMonitor := some (.enqueueEvent event) }
  | adds {i o} (place : s.place = .adding i) (atI : s.world.objects[i]? = some o)
    (new : s.monitor.checkDuplicatedPid o.pid = .ok ()) :
    Main s { place := .adding (i + 1), monitor := some (.add .process o.pid) }
  | added {i} (place : s.place = .adding i) (all : s.world.objects.length ≤ i) :
    Main s { place := .preparingMonitor }
  | preparesMonitor (place : s.place = .preparingMonitor) :
    Main s { place := .callingStart 0, execMonitor := some .prepare }
  | callsStart {i} (place : s.place = .callingStart i) :
    Main s { place := .inStart i, world := some (.object i .start) }
  | startedAll {i} (place : s.place = .callingStart i) : Main s { place := .startingMonitor }
  | startGoes {i o op todo} (place : s.place = .inStart i) (atI : s.world.objects[i]? = some o)
    (call : o.call = .start (op :: todo)) :
    Main s { place := .inStart i, world := some (.object i .parent) }
  | startReturns {i o} (place : s.place = .inStart i) (atI : s.world.objects[i]? = some o)
    (call : o.call = .start []) :
    Main s { place := .callingStart (i + 1), world := some (.object i .parent) }
  | startsMonitor (place : s.place = .startingMonitor) :
    Main s { place := .callingWaitForAny, execMonitor := some .start }
  | callsWaitForAny (place : s.place = .callingWaitForAny) :
    Main s { place := .inWaitForAny, monitor := some .waitForAny }
  | pops (place : s.place = .inWaitForAny) (popping : s.monitor.owner = .popping) :
    Main s { place := .inWaitForAny, monitor := some .pop }
  | gets {pid k status} (place : s.place = .inWaitForAny) (getting : s.monitor.owner = .getting pid k)
    (ready : (s.monitor.workers[k]?).map Worker.phase = some (.ready (.ok status))) :
    Main s { place := .ending, monitor := some .get }
  | ends (place : s.place = .ending) : Main s { place := .joining, executionEnds := true }
  | joins (place : s.place = .joining) : Main s { place := .finalizing, execMonitor := some .join }
  | finalizes (place : s.place = .finalizing) :
    Main s { place := .cleaningUp 0, execMonitor := some .finalize }
  | skips {i o} (place : s.place = .cleaningUp i) (atI : s.world.objects[i]? = some o)
    (terminated : o.terminated = true) : Main s { place := .cleaningUp (i + 1) }
  | aims {i o} (place : s.place = .cleaningUp i) (atI : s.world.objects[i]? = some o)
    (running : o.terminated = false) : Main s { place := .killing i }
  | cleaned {i} (place : s.place = .cleaningUp i) : Main s { place := .leaving }
  | kills {i pid} (place : s.place = .killing i) :
    Main s { place := .cleaningUp (i + 1), world := some (.object i .kill), signal := some pid }
  | destroysMonitor {a} (place : s.place = .leaving) (gone : a = .destroy ∨ a = .destroyNext) :
    Main s { place := .leaving, monitor := some a }
  | left (place : s.place = .leaving) (destroyed : s.monitor.owner = .destroyed) : Main s { place := .returned }
  | returns (place : s.place = .returned) : Main s { place := .destroying 0 }
  | destroys {i} (place : s.place = .destroying i) :
    Main s { place := .destroying i, world := some (.object i .destroy) }
  | destroyGoes {i} (place : s.place = .destroying i) :
    Main s { place := .destroying i, world := some (.object i .parent) }
  | objectDestroyed {i} (place : s.place = .destroying i) : Main s { place := .destroying (i + 1) }
  | allDestroyed {i} (place : s.place = .destroying i) : Main s { place := .destroyed }

variable {answers : Nat → WaitResult} {s s' : SimpleManager} {e : Effect}

theorem main_cases {pipe2 : Bool} {pid : Pid} (effect : s.main pipe2 pid = some e) : Main s e := by
  cases place : s.place with
  | initializing =>
    simp only [main, place, Option.some.injEq] at effect
    exact effect ▸ .initializes place
  | constructing i =>
    simp only [main, place] at effect
    split at effect
    · rename_i args atI
      cases effect
      by_cases throws : args = [] ∨ pipe2 = false
      · exact .unwinds (by simp [throws, Place.unwound])
      · rw [if_neg throws]
        simp only [not_or, Bool.not_eq_false] at throws
        rw [throws.2]
        exact .constructs place atI throws.1
    · rename_i none
      cases effect
      exact .constructed place (List.getElem?_eq_none_iff.mp none)
  | callingPrepare i =>
    simp only [main, place, Option.some.injEq] at effect
    exact effect ▸ .prepares place
  | inPrepare i =>
    simp only [main, place] at effect
    obtain ⟨o, atI, same⟩ := Option.map_eq_some_iff.mp effect
    split at same
    · rename_i todo call
      cases todo with
      | nil => exact same ▸ .prepareReturns place atI call
      | cons op todo => exact same ▸ .prepareGoes place atI call
    · exact same ▸ .unwinds rfl
  | notifying i =>
    simp only [main, place] at effect
    obtain ⟨o, _, same⟩ := Option.map_eq_some_iff.mp effect
    exact same ▸ .notifies place
  | adding i =>
    simp only [main, place] at effect
    split at effect
    · rename_i o atI
      split at effect
      · rename_i new
        exact Option.some.inj effect ▸ .adds place atI new
      · exact Option.some.inj effect ▸ .unwinds rfl
    · rename_i none
      exact Option.some.inj effect ▸ .added place (List.getElem?_eq_none_iff.mp none)
  | preparingMonitor =>
    simp only [main, place, Option.some.injEq] at effect
    exact effect ▸ .preparesMonitor place
  | callingStart i =>
    simp only [main, place] at effect
    split at effect
    · exact Option.some.inj effect ▸ .callsStart place
    · exact Option.some.inj effect ▸ .startedAll place
  | inStart i =>
    simp only [main, place] at effect
    obtain ⟨o, atI, same⟩ := Option.map_eq_some_iff.mp effect
    split at same
    · rename_i todo call
      cases todo with
      | nil => exact same ▸ .startReturns place atI call
      | cons op todo => exact same ▸ .startGoes place atI call
    · exact same ▸ .unwinds rfl
  | startingMonitor =>
    simp only [main, place, Option.some.injEq] at effect
    exact effect ▸ .startsMonitor place
  | callingWaitForAny =>
    simp only [main, place, Option.some.injEq] at effect
    exact effect ▸ .callsWaitForAny place
  | inWaitForAny =>
    simp only [main, place, waitForAnyNext] at effect
    split at effect
    · rename_i popping
      exact Option.some.inj effect ▸ .pops place popping
    · rename_i getting
      split at effect
      · rename_i ready
        exact Option.some.inj effect ▸ .gets place getting ready
      · exact Option.some.inj effect ▸ .unwinds rfl
      · simp at effect
    · simp at effect
  | ending =>
    simp only [main, place, Option.some.injEq] at effect
    exact effect ▸ .ends place
  | joining =>
    simp only [main, place, Option.some.injEq] at effect
    exact effect ▸ .joins place
  | finalizing =>
    simp only [main, place, Option.some.injEq] at effect
    exact effect ▸ .finalizes place
  | cleaningUp i =>
    simp only [main, place] at effect
    split at effect
    · rename_i o atI
      cases terminated : o.terminated with
      | false =>
        simp only [testTerminated, terminated, Option.some.injEq] at effect
        exact effect ▸ .aims place atI terminated
      | true =>
        simp only [testTerminated, terminated, Option.some.injEq] at effect
        exact effect ▸ .skips place atI terminated
    · exact Option.some.inj effect ▸ .cleaned place
  | killing i =>
    simp only [main, place] at effect
    obtain ⟨o, _, same⟩ := Option.map_eq_some_iff.mp effect
    exact same ▸ .kills place
  | leaving =>
    simp only [main, place, destroyMonitor, Option.some.injEq] at effect
    split at effect
    · exact effect ▸ .destroysMonitor place (.inl rfl)
    · rename_i destroyed
      exact effect ▸ .left place destroyed
    · exact effect ▸ .destroysMonitor place (.inr rfl)
  | returned =>
    simp only [main, place, Option.some.injEq] at effect
    exact effect ▸ .returns place
  | destroying i =>
    simp only [main, place] at effect
    split at effect
    · simp only [destroyObject, Option.some.injEq] at effect
      split at effect
      · exact effect ▸ .destroys place
      · exact effect ▸ .objectDestroyed place
      · exact effect ▸ .destroyGoes place
    · exact Option.some.inj effect ▸ .allDestroyed place
  | destroyed => simp [main, place] at effect
  | dropping i =>
    simp only [main, place] at effect
    obtain ⟨o, _, same⟩ := Option.map_eq_some_iff.mp effect
    simp only [destroyObject] at same
    split at same
    all_goals exact same ▸ .unwinds rfl
  | unwinding =>
    simp only [main, place, destroyMonitor, Option.some.injEq] at effect
    split at effect
    all_goals exact effect ▸ .unwinds rfl
  | threw => simp [main, place] at effect

/-- A call that fails is caught in the clean-up, with nothing done, or in the destructor of a process, which
then is over; or it unwinds. -/
theorem throws_cases (effect : s.throws = some e) :
    e.place.unwound = true ∨ (∃ i, s.place = .killing i ∧ e = { place := .cleaningUp (i + 1) }) ∨
      ∃ i, s.place = .destroying i ∧ e = { place := .destroying i, world := some (.object i .parentThrows) } := by
  cases place : s.place with
  | killing i =>
    simp only [throws, place, Option.some.injEq] at effect
    exact .inr (.inl ⟨i, rfl, effect.symm⟩)
  | destroying i =>
    simp only [throws, place] at effect
    obtain ⟨o, atI, effect⟩ := Option.bind_eq_some_iff.mp effect
    split at effect
    · exact .inr (.inr ⟨i, rfl, (Option.some.inj effect).symm⟩)
    · simp at effect
  | dropping i =>
    simp only [throws, place] at effect
    obtain ⟨o, atI, effect⟩ := Option.bind_eq_some_iff.mp effect
    split at effect
    · exact .inl (Option.some.inj effect ▸ rfl)
    · simp at effect
  | constructing i | adding i =>
    simp only [throws, place, Option.ite_none_right_eq_some, Option.some.injEq] at effect
    exact .inl (effect.2 ▸ rfl)
  | initializing | callingPrepare i | inPrepare i | notifying i | preparingMonitor | inStart i | startingMonitor
  | joining | finalizing =>
    simp only [throws, place, Option.some.injEq] at effect
    exact .inl (effect ▸ rfl)
  | _ => simp [throws, place] at effect

/-- What worker `k` can do next, with its future and its process. -/
inductive Works (answers : Nat → WaitResult) (s : SimpleManager) (k : Nat) (t : Worker) (o : SyncProcess) :
    Effect → Prop
  | waits (phase : t.phase = .waiting) (waiter : o.waiter = .none) :
    Works answers s k t o { place := s.place, world := some (.object k .wait) }
  | collects {pid status} (phase : t.phase = .waiting) (waiter : o.waiter = .waitpid)
    (answer : answers k = .ok (pid, status)) (mine : pid = o.pid)
    (ended : o.child.any (·.phase == .ended status) = true) :
    Works answers s k t o { place := s.place, world := some (.object k .waitpid) }
  | fails {errno} (phase : t.phase = .waiting) (waiter : o.waiter = .waitpid) (answer : answers k = .error errno) :
    Works answers s k t o
      { place := s.place, world := some (.object k .waitThrows), monitor := some (.waitpid k) }
  | returns (phase : t.phase = .waiting) (waiter : o.waiter = .returning) : Works answers s k t o
      { place := s.place, world := some (.object k .waitReturns), monitor := some (.waitpid k) }
  | pushes {status} (phase : t.phase = .collected status) :
    Works answers s k t o { place := s.place, monitor := some (.push k) }
  | finishes {result} (phase : t.phase = .leaving result) :
    Works answers s k t o { place := s.place, monitor := some (.finish k) }

theorem worker_cases {k : Nat} (effect : s.worker answers k = some e) : ∃ t o,
    s.monitor.workers[k]? = some t ∧ s.world.objects[k]? = some o ∧ Works answers s k t o e := by
  obtain ⟨t, atK, effect⟩ := Option.bind_eq_some_iff.mp effect
  obtain ⟨o, atK', effect⟩ := Option.bind_eq_some_iff.mp effect
  refine ⟨t, o, atK, atK', ?_⟩
  split at effect
  · rename_i phase waiter
    exact Option.some.inj effect ▸ .waits phase waiter
  · rename_i phase waiter
    split at effect
    · rename_i answer
      simp only [Option.ite_none_right_eq_some, Option.some.injEq] at effect
      obtain ⟨⟨mine, ended⟩, rfl⟩ := effect
      exact .collects phase waiter answer mine ended
    · rename_i answer
      exact Option.some.inj effect ▸ .fails phase waiter answer
  · rename_i phase waiter
    exact Option.some.inj effect ▸ .returns phase waiter
  · rename_i phase
    exact Option.some.inj effect ▸ .pushes phase
  · rename_i phase
    exact Option.some.inj effect ▸ .finishes phase
  · simp at effect

theorem Works.place {k : Nat} {t : Worker} {o : SyncProcess} (works : Works answers s k t o e) :
    e.place = s.place ∧ e.executionEnds = false ∧ e.signal = none ∧ e.execMonitor = none := by
  cases works <;> exact ⟨rfl, rfl, rfl, rfl⟩

/-- A step of a child happens to a process of the world. -/
theorem child_cases {i : Nat} {act : SyncProcess.Action} (effect : s.effect answers (.child i act) = some e) :
    act.ofParent = false ∧ e = { place := s.place, world := some (.object i act) } := by
  simp only [SimpleManager.effect, Option.ite_none_left_eq_some, Option.some.injEq] at effect
  exact ⟨by simpa using effect.1, effect.2.symm⟩

/-- The steps from the beginning of `start` into `wait_for_any`, for processes with these pids: a child
goes through the handshake up to its read of the go pipe before the thread of the manager goes on. -/
def launch (pids : List Pid) : List Action :=
  let main := fun n => List.replicate n (Action.main true 0)
  main 1 ++ pids.zipIdx.flatMap (fun (pid, i) =>
      [.main true pid, .main true pid] ++ List.replicate 5 (.child i .child) ++ main 6) ++
    main (1 + pids.length + 1 + 1 + 4 * pids.length + 1 + 1 + 1)

/-- The command of child `i` runs and exits with status 0, and its worker reports it. -/
def exits (i : Nat) : List Action :=
  [.child i .child, .child i (.execvp none), .child i (.childEnds 0)] ++ List.replicate 5 (.worker i)

end SimpleManager

end Aser
