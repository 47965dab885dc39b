import Aser.Library.OrderedMap
import Aser.Library.Run
import Aser.Util.Process

namespace Aser

open Library

/-- Which of the two functions a worker runs. -/
inductive WaitKind
  | pid
  | process
  deriving DecidableEq

/-- Where a worker stands: in `waitpid`, about to push its pid, about to set its future, done. -/
inductive WorkerPhase
  | waiting
  | collected (status : Int)
  | leaving (result : Except Exception Int)
  | ready (result : Except Exception Int)

/-- What `std::async` started for an entry of `status_`. -/
structure Worker where
  kind : WaitKind
  pid : Pid
  phase : WorkerPhase := .waiting

/-- `wait_for_pid` up to the push. -/
def waitForPid (pid : Pid) : WaitResult → Except Exception Int
  | .error _ => .error (.runtimeError "Error waiting for process")
  | .ok (res, status) => if res ≠ pid then .error (.runtimeError "Unexpected error") else .ok status

/-- `wait_for_process` up to the push. -/
def waitForProcess : WaitResult → Except Exception Int
  | .error errno => libcError errno "Error waiting for process"
  | .ok (_, status) => .ok status

/-- What waiting comes to for the worker, when `waitpid` answers `answer`. -/
def Worker.outcome (t : Worker) (answer : WaitResult) : Except Exception Int :=
  match t.kind with
  | .pid => waitForPid t.pid answer
  | .process => waitForProcess answer

/-- The thread that owns the monitor: outside of it, in `wait_for_any` before and after the pop, in
the destructor with the futures still to be waited for, past it, or stopped by the assertion. -/
inductive Owner
  | idle
  | popping
  | getting (pid : Pid) (worker : Nat)
  | destroying (left : List Nat)
  | destroyed
  | aborted
  deriving DecidableEq

/-- `status_` maps a pid to the number of the worker whose future it holds. `pushed` and `returned`
record the order of the pushes and what the calls of `wait_for_any` returned. -/
structure ProcessMonitor where
  status : OrderedMap Pid Nat := .empty
  endedProcessQueue : List Pid := []
  workers : List Worker := []
  owner : Owner := .idle
  pushed : List Nat := []
  returned : List (Pid × Int) := []

namespace ProcessMonitor

def checkDuplicatedPid (m : ProcessMonitor) (pid : Pid) : Except Exception Unit :=
  if pid ∈ m.status.keys then .error (.invalidArgument "Duplicated pid") else .ok ()

/-- `add_pid` and `add_process`. -/
def add (m : ProcessMonitor) (kind : WaitKind) (pid : Pid) : Except Exception Unit × ProcessMonitor :=
  match m.checkDuplicatedPid pid with
  | .error e => (.error e, m)
  | .ok () => (.ok (), { m with
      status := m.status.insert pid m.workers.length
      workers := m.workers ++ [{ kind, pid }] })

def setPhase (m : ProcessMonitor) (k : Nat) (phase : WorkerPhase) : ProcessMonitor :=
  { m with workers := m.workers.modify k fun t => { t with phase } }

/-- `wait_for_any` after `pop` returned `pid`. -/
def popped (m : ProcessMonitor) (pid : Pid) : ProcessMonitor :=
  match m.status.find? pid with
  | none => { m with owner := .aborted }
  | some k => { m with owner := .getting pid k }

/-- `wait_for_any` after `get` came back. -/
def got (m : ProcessMonitor) (pid : Pid) : Except Exception Int → ProcessMonitor
  | .error _ => { m with owner := .idle }
  | .ok status => { m with
      owner := .idle
      status := m.status.erase pid
      returned := m.returned ++ [(pid, status)] }

inductive Action
  | add (kind : WaitKind) (pid : Pid)
  | waitForAny
  | pop
  | get
  | destroy
  | destroyNext
  | waitpid (k : Nat)
  | push (k : Nat)
  | finish (k : Nat)
  deriving DecidableEq

/-- One step of the owner or of a worker; `answers` is what `waitpid` says to each worker. `pop` is
not enabled while the queue is empty, nor `get` while the future is not set. -/
def step (answers : Nat → WaitResult) (m : ProcessMonitor) : Action → Option ProcessMonitor
  | .add kind pid => if m.owner = .idle then some (m.add kind pid).2 else none
  | .waitForAny => if m.owner = .idle then some { m with owner := .popping } else none
  | .pop =>
    match m.owner, m.endedProcessQueue with
    | .popping, pid :: rest => some ({ m with endedProcessQueue := rest }.popped pid)
    | _, _ => none
  | .get =>
    match m.owner with
    | .getting pid k => match (m.workers[k]?).map Worker.phase with
      | some (.ready result) => some (m.got pid result)
      | _ => none
    | _ => none
  | .destroy => if m.owner = .idle then some { m with owner := .destroying m.status.values } else none
  | .destroyNext =>
    match m.owner with
    | .destroying [] => some { m with owner := .destroyed }
    | .destroying (k :: left) => match (m.workers[k]?).map Worker.phase with
      | some (.ready _) => some { m with owner := .destroying left }
      | _ => none
    | _ => none
  | .waitpid k =>
    (m.workers[k]?).bind fun t => match t.phase with
      | .waiting => some (m.setPhase k (match t.outcome (answers k) with
        | .error e => .leaving (.error e)
        | .ok status => .collected status))
      | _ => none
  | .push k =>
    (m.workers[k]?).bind fun t => match t.phase with
      | .collected status => some { m.setPhase k (.leaving (.ok status)) with
          endedProcessQueue := m.endedProcessQueue ++ [t.pid]
          pushed := m.pushed ++ [k] }
      | _ => none
  | .finish k =>
    (m.workers[k]?).bind fun t => match t.phase with
      | .leaving result => some (m.setPhase k (.ready result))
      | _ => none

end ProcessMonitor

end Aser
