import Aser.Core.ExecMonitor
import Aser.Core.ProcessMonitor
import Aser.Util.SyncProcess

namespace Aser

open Library

/-- Where the thread stands that calls `exec_manager::start` and later destroys the manager. A loop
over the benchmarks has come to number `i`; within its body the thread is about to call `prepare`,
`start` or `kill`, or inside that call. The last three are the way of an exception out of `start`. -/
inductive Place
  | initializing
  | constructing (i : Nat)
  | callingPrepare (i : Nat)
  | inPrepare (i : Nat)
  | notifying (i : Nat)
  | adding (i : Nat)
  | preparingMonitor
  | callingStart (i : Nat)
  | inStart (i : Nat)
  | startingMonitor
  | callingWaitForAny
  | inWaitForAny
  | ending
  | joining
  | finalizing
  | cleaningUp (i : Nat)
  | killing (i : Nat)
  | leaving
  | returned
  | destroying (i : Nat)
  | destroyed
  | dropping (i : Nat)
  | unwinding
  | threw
  deriving DecidableEq

/-- A `simple_manager` with what it made: object `i` of the world is the process of benchmark `i`,
worker `k` of the monitor waits for object `k`. `benchs` are the arguments of the benchmarks,
`signals` the pids that the clean-up sent `SIGKILL` to. -/
structure SimpleManager where
  benchs : List (List String)
  world : SyncWorld
  place : Place := .initializing
  monitor : ProcessMonitor := {}
  execMonitor : ExecMonitor := {}
  executionEnded : Bool := false
  signals : List Pid := []

namespace SimpleManager

/-- What one step of a thread comes to: a step of each component or none, and the next place of the
thread of the manager. -/
structure Effect where
  place : Place
  world : Option SyncWorld.Action := none
  monitor : Option ProcessMonitor.Action := none
  execMonitor : Option ExecMonitor.Action := none
  executionEnds : Bool := false
  signal : Option Pid := none

/-- `kill_process` up to its test, for process `i`. -/
def testTerminated (o : SyncProcess) (i : Nat) : Effect :=
  { place := if o.terminated then .cleaningUp (i + 1) else .killing i }

/-- The destructor of process `i`, at `here`, before the thread goes on to `next`. -/
def destroyObject (o : SyncProcess) (i : Nat) (here next : Place) : Effect :=
  match o.call with
  | .none => { place := here, world := some (.object i .destroy) }
  | .destroyed => { place := next }
  | _ => { place := here, world := some (.object i .parent) }

/-- The destructor of the monitor. -/
def destroyMonitor (m : ProcessMonitor) (here next : Place) : Effect :=
  match m.owner with
  | .idle => { place := here, monitor := some .destroy }
  | .destroyed => { place := next }
  | _ => { place := here, monitor := some .destroyNext }

/-- The next thing in `wait_for_any`; its `get` may throw. -/
def waitForAnyNext (m : ProcessMonitor) : Option Effect :=
  match m.owner with
  | .popping => some { place := .inWaitForAny, monitor := some .pop }
  | .getting _ k => match (m.workers[k]?).map Worker.phase with
    | some (.ready (.ok _)) => some { place := .ending, monitor := some .get }
    | some (.ready (.error _)) => some { place := .unwinding, monitor := some .get }
    | _ => none
  | _ => none

/-- The next thing the thread of the manager does. `pipe2` tells whether that call succeeds, `pid` is
what `fork` returns; where a call is over by an exception the thread unwinds. -/
def main (s : SimpleManager) (pipe2 : Bool) (pid : Pid) : Option Effect :=
  match s.place with
  | .initializing => some { place := .constructing 0, execMonitor := some .doInitialize }
  | .constructing i => match s.benchs[i]? with
    | some args => some {
        place := if args = [] ∨ pipe2 = false then .threw else .callingPrepare i
        world := some (.construct args pipe2) }
    | none => some { place := .adding 0 }
  | .callingPrepare i =>
    some { place := .inPrepare i, world := some (.object i (.prepare true (.child pid))) }
  | .inPrepare i => (s.world.objects[i]?).map fun o => match o.call with
    | .prepare todo =>
      { place := if todo = [] then .notifying i else .inPrepare i, world := some (.object i .parent) }
    | _ => { place := .dropping i }
  | .notifying i => (s.world.objects[i]?).map fun o =>
    { place := .constructing (i + 1), execMonitor := some (.enqueueEvent ⟨.processCreated, o.pid⟩) }
  | .adding i => match s.world.objects[i]? with
    | some o => match s.monitor.checkDuplicatedPid o.pid with
      | .ok () => some { place := .adding (i + 1), monitor := some (.add .process o.pid) }
      | .error _ => some { place := .unwinding }
    | none => some { place := .preparingMonitor }
  | .preparingMonitor => some { place := .callingStart 0, execMonitor := some .prepare }
  | .callingStart i => match s.world.objects[i]? with
    | some _ => some { place := .inStart i, world := some (.object i .start) }
    | none => some { place := .startingMonitor }
  | .inStart i => (s.world.objects[i]?).map fun o => match o.call with
    | .start todo =>
      { place := if todo = [] then .callingStart (i + 1) else .inStart i, world := some (.object i .parent) }
    | _ => { place := .unwinding }
  | .startingMonitor => some { place := .callingWaitForAny, execMonitor := some .start }
  | .callingWaitForAny => some { place := .inWaitForAny, monitor := some .waitForAny }
  | .inWaitForAny => waitForAnyNext s.monitor
  | .ending => some { place := .joining, executionEnds := true }
  | .joining => some { place := .finalizing, execMonitor := some .join }
  | .finalizing => some { place := .cleaningUp 0, execMonitor := some .finalize }
  | .cleaningUp i => match s.world.objects[i]? with
    | some o => some (testTerminated o i)
    | none => some { place := .leaving }
  | .killing i => (s.world.objects[i]?).map fun o =>
    { place := .cleaningUp (i + 1), world := some (.object i .kill), signal := some o.pid }
  | .leaving => some (destroyMonitor s.monitor .leaving .returned)
  | .returned => some { place := .destroying 0 }
  | .destroying i => match s.world.objects[i]? with
    | some o => some (destroyObject o i (.destroying i) (.destroying (i + 1)))
    | none => some { place := .destroyed }
  | .dropping i => (s.world.objects[i]?).map fun o => destroyObject o i (.dropping i) .threw
  | .unwinding => some (destroyMonitor s.monitor .unwinding .threw)
  | .destroyed | .threw => none

/-- A call fails in that thread. The clean-up and `~process` catch it, everything else unwinds; the process
that `prepare_bench` holds is destroyed on the way, and so is the monitor once there is one. -/
def throws (s : SimpleManager) : Option Effect :=
  match s.place with
  | .initializing => some { place := .threw }
  | .constructing i => if i < s.benchs.length then some { place := .threw } else none
  | .callingPrepare i | .notifying i => some { place := .dropping i }
  | .inPrepare i => some { place := .dropping i, world := some (.object i .parentThrows) }
  | .adding i => if i < s.benchs.length then some { place := .unwinding } else none
  | .inStart i => some { place := .unwinding, world := some (.object i .parentThrows) }
  | .preparingMonitor | .startingMonitor | .joining | .finalizing => some { place := .unwinding }
  | .killing i => some { place := .cleaningUp (i + 1) }
  | .destroying i | .dropping i => (s.world.objects[i]?).bind fun o => match o.call with
    | .destroyProcess _ => some { place := s.place, world := some (.object i .parentThrows) }
    | _ => none
  | _ => none

/-- The next thing that worker `k` does; its `wait` is over when the step of the monitor is made. The
answer to its `waitpid` is the pid and the status of the child it reaps, or an error. -/
def worker (answers : Nat → WaitResult) (s : SimpleManager) (k : Nat) : Option Effect :=
  (s.monitor.workers[k]?).bind fun t => (s.world.objects[k]?).bind fun o =>
    match t.phase, o.waiter with
    | .waiting, .none => some { place := s.place, world := some (.object k .wait) }
    | .waiting, .waitpid => match answers k with
      | .ok (pid, status) =>
        if pid = o.pid ∧ o.child.any (·.phase == .ended status) then
          some { place := s.place, world := some (.object k .waitpid) }
        else none
      | .error _ =>
        some { place := s.place, world := some (.object k .waitThrows), monitor := some (.waitpid k) }
    | .waiting, .returning =>
      some { place := s.place, world := some (.object k .waitReturns), monitor := some (.waitpid k) }
    | .collected _, _ => some { place := s.place, monitor := some (.push k) }
    | .leaving _, _ => some { place := s.place, monitor := some (.finish k) }
    | .ready _, _ => none

/-- What can happen next: something in the thread of the manager, be it a call that fails, in the
thread of the exec monitor, in a worker or in a child. -/
inductive Action
  | main (pipe2 : Bool) (pid : Pid)
  | throws
  | execMonitor
  | worker (k : Nat)
  | child (i : Nat) (a : SyncProcess.Action)
  deriving DecidableEq

def effect (answers : Nat → WaitResult) (s : SimpleManager) : Action → Option Effect
  | .main pipe2 pid => s.main pipe2 pid
  | .throws => s.throws
  | .execMonitor => some { place := s.place, execMonitor := some .thread }
  | .worker k => s.worker answers k
  | .child i a => if a.ofParent then none else some { place := s.place, world := some (.object i a) }

def apply (answers : Nat → WaitResult) (s : SimpleManager) (e : Effect) : Option SimpleManager :=
  (optionalStep SyncWorld.step s.world e.world).bind fun world =>
    (optionalStep (ProcessMonitor.step answers) s.monitor e.monitor).bind fun monitor =>
      (optionalStep (ExecMonitor.step s.executionEnded) s.execMonitor e.execMonitor).map fun execMonitor =>
        { s with
          world, monitor, execMonitor
          place := e.place
          executionEnded := s.executionEnded || e.executionEnds
          signals := s.signals ++ e.signal.toList }

def step (answers : Nat → WaitResult) (s : SimpleManager) (a : Action) : Option SimpleManager :=
  (s.effect answers a).bind (s.apply answers)

/-- The manager as its constructor leaves it, in a process of the group `pgid`. -/
def init (benchs : List (List String)) (pgid : Pid) : SimpleManager :=
  { benchs, world := .init pgid }

variable {answers : Nat → WaitResult} {s s' : SimpleManager} {a : Action}

/-- A step of the manager is a step of each of its components, or none. -/
theorem step_cases (taken : s.step answers a = some s') : ∃ e, s.effect answers a = some e ∧
    optionalStep SyncWorld.step s.world e.world = some s'.world ∧
    optionalStep (ProcessMonitor.step answers) s.monitor e.monitor = some s'.monitor ∧
    optionalStep (ExecMonitor.step s.executionEnded) s.execMonitor e.execMonitor = some s'.execMonitor ∧
    s'.benchs = s.benchs ∧ s'.place = e.place ∧
    s'.executionEnded = (s.executionEnded || e.executionEnds) ∧ s'.signals = s.signals ++ e.signal.toList := by
  obtain ⟨e, effect, taken⟩ := Option.bind_eq_some_iff.mp taken
  obtain ⟨world, atWorld, taken⟩ := Option.bind_eq_some_iff.mp taken
  obtain ⟨monitor, atMonitor, taken⟩ := Option.bind_eq_some_iff.mp taken
  obtain ⟨execMonitor, atExecMonitor, rfl⟩ := Option.map_eq_some_iff.mp taken
  exact ⟨e, effect, atWorld, atMonitor, atExecMonitor, rfl, rfl, rfl, rfl⟩

end SimpleManager

end Aser
