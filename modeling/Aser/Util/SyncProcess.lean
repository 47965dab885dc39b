import Aser.Library.Run
import Aser.Util.Pipe
import Aser.Util.Process

namespace Aser

open Library

/-- The pipes of a `sync_process`; `go_pipe_` is opened with `O_CLOEXEC`. -/
inductive SyncPipe
  | goPipe
  | childReadyPipe
  deriving DecidableEq

/-- An open end of a pipe of the `sync_process` number `object`. -/
structure Descriptor where
  object : Nat
  pipe : SyncPipe
  endPoint : EndPoint
  deriving DecidableEq

/-- The calls that the handshake between parent and child consists of. -/
inductive SyncOp
  | setpgid
  | close (pipe : SyncPipe) (ep : EndPoint)
  | write (pipe : SyncPipe)
  | read (pipe : SyncPipe)
  deriving DecidableEq

namespace SyncOp

open SyncPipe EndPoint

def waitForParent : List SyncOp :=
  [setpgid, close childReadyPipe readEnd, close goPipe writeEnd, write childReadyPipe,
    close childReadyPipe writeEnd, read goPipe]

def waitForChild : List SyncOp :=
  [close childReadyPipe writeEnd, close goPipe readEnd, read childReadyPipe,
    close childReadyPipe readEnd]

/-- `sync_process::start`. -/
def start : List SyncOp := [write goPipe, close goPipe writeEnd]

/-- The destructors of the two pipes, in the order `~sync_process` runs them. -/
def destroyPipes : List SyncOp :=
  [close childReadyPipe readEnd, close childReadyPipe writeEnd, close goPipe readEnd,
    close goPipe writeEnd]

/-- The text of the error when the call fails; that `setpgid` failed goes unnoticed. -/
def errorMsg : SyncOp → Option String
  | .setpgid => none
  | .close _ _ => some "Error closing pipe"
  | .write _ => some "Error writing to pipe"
  | .read _ => some "Error reading from pipe"

end SyncOp

/-- The callbacks that the constructor of `sync_process` installs, given what the two that do the
handshake come to. -/
def syncConfig (waitForParent waitForChild : Except Exception Unit) : ProcessConfig where
  execSetupCallback := some waitForParent
  forkSuccessCallback := some waitForChild
  forkErrorCallback := some fun errorCode => libcError errorCode "Error forking process"
  execErrorCallback := some fun errorCode => libcError errorCode "Exec failed"

/-- What a forked child is doing: it is in `wait_for_parent`, or past it and about to call `execvp`
when nothing is left to do there; it runs the command; it left `process::start` by an exception; it
is dead. -/
inductive ChildPhase
  | waitForParent (todo : List SyncOp)
  | program
  | escaped (e : Exception)
  | ended (status : Int)
  | reaped
  deriving DecidableEq

structure Child where
  pid : Pid
  pgid : Pid
  phase : ChildPhase
  fds : List Descriptor
  deriving DecidableEq

def Child.running (c : Child) : Bool :=
  match c.phase with
  | .waitForParent _ | .program | .escaped _ => true
  | .ended _ | .reaped => false

/-- The end of a child, with the wait status `status`; nothing happens to one that is dead. -/
def Child.dies (c : Child) (status : Int) : Child :=
  if c.running then { c with phase := .ended status, fds := [] } else c

/-- The call on a `sync_process` that the parent is in. -/
inductive ParentCall
  | none
  | prepare (todo : List SyncOp)
  | start (todo : List SyncOp)
  | destroyPipes (todo : List SyncOp)
  | destroyProcess (killed : Bool)
  | destroyed
  deriving DecidableEq

/-- The system call that comes next in a call, and what is left of the call after it. -/
def ParentCall.next : ParentCall → Option (SyncOp × ParentCall)
  | .prepare (op :: todo) => some (op, .prepare todo)
  | .start (op :: todo) => some (op, .start todo)
  | .destroyPipes (op :: todo) => some (op, .destroyPipes todo)
  | _ => Option.none

/-- The destructor was not called yet. -/
def ParentCall.alive : ParentCall → Bool
  | .none | .prepare _ | .start _ => true
  | .destroyPipes _ | .destroyProcess _ | .destroyed => false

/-- Where the thread that called `sync_process::wait` stands, if there is one. -/
inductive Waiter
  | none
  | waitpid
  | returning
  deriving DecidableEq

/-- A `sync_process` with its child. `fds` are the ends of its pipes that the parent has open;
`prepared`, `goWritten` and `reaps` record that `prepare` returned, that the parent wrote the go
byte and how often a `waitpid` returned the child. -/
structure SyncProcess where
  args : List String
  fds : List Descriptor
  pid : Pid := -1
  terminationStatus : Option Int := none
  terminated : Bool := false
  call : ParentCall := .none
  waiter : Waiter := .none
  child : Option Child := none
  goBytes : Nat := 0
  childReadyBytes : Nat := 0
  prepared : Bool := false
  goWritten : Bool := false
  reaps : Nat := 0
  deriving DecidableEq

/-- What the operations on one object see of the rest: its number, which ends of its pipes some
process has open, the descriptors and the group of the parent, and the pids `fork` may return. -/
structure View where
  index : Nat
  held : SyncPipe → EndPoint → Bool
  fds : List Descriptor
  pgid : Pid
  mayFork : Pid → Bool

namespace SyncProcess

/-- The pipes of object `i` after the constructor. -/
def openEnds (i : Nat) : List Descriptor :=
  [⟨i, .goPipe, .readEnd⟩, ⟨i, .goPipe, .writeEnd⟩, ⟨i, .childReadyPipe, .readEnd⟩,
    ⟨i, .childReadyPipe, .writeEnd⟩]

def make (i : Nat) (args : List String) : SyncProcess := { args, fds := openEnds i }

def started (o : SyncProcess) : Bool := o.pid != -1

def alive (o : SyncProcess) : Bool := o.call.alive

def bytes (o : SyncProcess) : SyncPipe → Nat
  | .goPipe => o.goBytes
  | .childReadyPipe => o.childReadyBytes

def setBytes (o : SyncProcess) (n : Nat) : SyncPipe → SyncProcess
  | .goPipe => { o with goBytes := n }
  | .childReadyPipe => { o with childReadyBytes := n }

/-- The group of the child becomes its own. -/
def setpgid (o : SyncProcess) : SyncProcess :=
  { o with child := o.child.map fun c => { c with pgid := c.pid } }

/-- One call of the handshake by a process that has the descriptors `fds`. It does not return when
it blocks, or when the process dies of `SIGPIPE`. A read returns at end-of-file as well, with
nothing read, and nobody looks at the count. -/
def perform (v : View) (fds : List Descriptor) (o : SyncProcess) :
    SyncOp → Option (Except Exception (List Descriptor × SyncProcess))
  | .setpgid => some (.ok (fds, o.setpgid))
  | .close pipe ep => some (.ok (fds.filter (· ≠ ⟨v.index, pipe, ep⟩), o))
  | .write pipe =>
    if ⟨v.index, pipe, .writeEnd⟩ ∉ fds then some (.error (.runtimeError "Cannot write to closed pipe"))
    else if v.held pipe .readEnd then some (.ok (fds, o.setBytes (o.bytes pipe + 1) pipe))
    else none
  | .read pipe =>
    if ⟨v.index, pipe, .readEnd⟩ ∉ fds then some (.error (.runtimeError "Cannot read from closed pipe"))
    else if 0 < o.bytes pipe then some (.ok (fds, o.setBytes (o.bytes pipe - 1) pipe))
    else if v.held pipe .writeEnd then none
    else some (.ok (fds, o))

/-- The next thing the parent does in the call it is in. The call is over when a system call made in
it throws. -/
def parentStep (v : View) (o : SyncProcess) : Option SyncProcess :=
  match o.call.next, o.call with
  | some (op, call), _ =>
    (o.perform v o.fds op).map fun
      | .error _ => { o with call := .none }
      | .ok (fds, o) => { o with fds, call, goWritten := o.goWritten || op == .write .goPipe }
  | none, .prepare _ => some { o with call := .none, prepared := true }
  | none, .start _ => some { o with call := .none }
  | none, .destroyPipes _ =>
    some { o with call := if o.started && !o.terminated then .destroyProcess false else .destroyed }
  | none, .destroyProcess false =>
    some { o with child := o.child.map (·.dies sigkilled), call := .destroyProcess true }
  | none, .destroyProcess true =>
    match o.child with
    | some { phase := .ended _, pid, pgid, fds } =>
      some { o with child := some ⟨pid, pgid, .reaped, fds⟩, reaps := o.reaps + 1, call := .destroyed }
    | _ => none
  | none, _ => none

/-- The next thing the child does before it calls `execvp`. -/
def childStep (v : View) (o : SyncProcess) : Option SyncProcess :=
  match o.child with
  | some { phase := .waitForParent (op :: todo), pid, pgid, fds } =>
    (o.perform v fds op).map fun
      | .error e => { o with child := some ⟨pid, pgid, .escaped e, fds⟩ }
      | .ok (fds, o) =>
        { o with child := o.child.map fun c => { c with phase := .waitForParent todo, fds } }
  | _ => none

/-- What happens to one object. The parent calls `prepare`, `start`, the destructor and, in any of
its threads, `wait`; `parent` and `child` are the next step of either side, and `parentThrows` and
`childThrows` a system call that fails there. In `~process` that is the `kill` or the `waitpid`. -/
inductive Action
  | prepare (pathExists : Bool) (fork : ForkResult)
  | start
  | destroy
  | parent
  | parentThrows
  | wait
  | waitpid
  | waitThrows
  | waitReturns
  | kill
  | child
  | childThrows (errno : Int)
  | execvp (errno : Option Int)
  | childEnds (status : Int)
  deriving DecidableEq

/-- Whether the parent is the one who acts. -/
def Action.ofParent : Action → Bool
  | .child | .childThrows _ | .execvp _ | .childEnds _ => false
  | _ => true

/-- A system call fails in the child. -/
def Action.fails : Action → Bool
  | .childThrows _ | .execvp (some _) => true
  | _ => false

/-- `execvp` drops the descriptors opened with `O_CLOEXEC`. After a failure `process::start` goes on
as it does for every process with these callbacks. -/
def afterExecvp (c : Child) : Option Int → Child
  | none => { c with phase := .program, fds := c.fds.filter (·.pipe ≠ .goPipe) }
  | some errno => match Process.afterExecvp (syncConfig (.ok ()) (.ok ())) errno with
    | .throws e => { c with phase := .escaped e }
    | .exits status => c.dies (status * 256)
    | .program => { c with phase := .program }

/-- Not enabled is what the code rules out by an assertion or what would use an object after its
destructor was called, and a call that blocks. -/
def step (v : View) (o : SyncProcess) : Action → Option SyncProcess
  | .prepare pathExists fork =>
    if o.call = .none ∧ !o.started then
      match pathExists, fork with
      | true, .child pid =>
        if v.mayFork pid then
          some { o with
            pid
            child := some ⟨pid, v.pgid, .waitForParent SyncOp.waitForParent, v.fds⟩
            call := .prepare SyncOp.waitForChild }
        else none
      | _, _ => some o
    else none
  | .start => if o.call = .none ∧ o.started then some { o with call := .start SyncOp.start } else none
  | .destroy =>
    if o.call = .none ∧ o.waiter = .none then
      some { o with call := .destroyPipes SyncOp.destroyPipes }
    else none
  | .parent => o.parentStep v
  | .parentThrows => match o.call with
    | .destroyProcess _ => some { o with call := .destroyed }
    | _ => if o.alive ∧ o.call.next.isSome then some { o with call := .none } else none
  | .wait =>
    if o.alive ∧ o.started ∧ !o.terminated ∧ o.waiter = .none then
      some { o with waiter := .waitpid }
    else none
  | .waitpid =>
    match o.waiter, o.child with
    | .waitpid, some { phase := .ended status, pid, pgid, fds } =>
      some { o with
        child := some ⟨pid, pgid, .reaped, fds⟩
        reaps := o.reaps + 1
        terminationStatus := some status
        waiter := .returning }
    | _, _ => none
  | .waitThrows => if o.waiter = .waitpid then some { o with waiter := .none } else none
  | .waitReturns =>
    if o.waiter = .returning then
      let ended := o.terminationStatus.any fun status => wifExited status || wifSignaled status
      some { o with terminated := o.terminated || ended, waiter := .none }
    else none
  | .kill =>
    if o.alive ∧ o.started then
      some { o with child := o.child.map (·.dies sigkilled) }
    else none
  | .child => o.childStep v
  | .childThrows errno =>
    match o.child with
    | some { phase := .waitForParent (op :: _), pid, pgid, fds } =>
      op.errorMsg.map fun msg =>
        { o with child := some ⟨pid, pgid, .escaped (.systemError errno msg), fds⟩ }
    | _ => none
  | .execvp errno =>
    match o.child with
    | some { phase := .waitForParent [], pid, pgid, fds } =>
      some { o with child := some (afterExecvp ⟨pid, pgid, .waitForParent [], fds⟩ errno) }
    | _ => none
  | .childEnds status =>
    match o.child with
    | some c =>
      if c.running ∧ (wifExited status || wifSignaled status) then
        some { o with child := some (c.dies status) }
      else none
    | none => none

end SyncProcess

/-- A process with its `sync_process` objects and their children. -/
structure SyncWorld where
  alive : Bool := true
  pgid : Pid
  objects : List SyncProcess := []
  deriving DecidableEq

namespace SyncWorld

/-- Whether some process has the end open. -/
def held (w : SyncWorld) (i : Nat) (pipe : SyncPipe) (ep : EndPoint) : Bool :=
  w.objects.any fun o =>
    o.fds.contains ⟨i, pipe, ep⟩ || o.child.any fun c => c.fds.contains ⟨i, pipe, ep⟩

/-- A pid that no child still to be reaped has, nor a group that is in use. -/
def mayFork (w : SyncWorld) (pid : Pid) : Bool :=
  0 < pid && pid != w.pgid && w.objects.all fun o => o.child.all fun c => c.phase == .reaped || c.pid != pid

def view (w : SyncWorld) (i : Nat) : View where
  index := i
  held := w.held i
  fds := w.objects.flatMap (·.fds)
  pgid := w.pgid
  mayFork := w.mayFork

inductive Action
  | construct (args : List String) (pipe2 : Bool)
  | object (i : Nat) (a : SyncProcess.Action)
  | parentEnds
  deriving DecidableEq

/-- One step of the parent or of a child. The constructor throws, and there is no object, when there are
no arguments or a pipe cannot be opened. The parent may end at any time, be it by a signal such as
`SIGPIPE`; its descriptors are closed then, and nothing else is undone. -/
def step (w : SyncWorld) : Action → Option SyncWorld
  | .construct args pipe2 =>
    if w.alive then
      if args = [] ∨ pipe2 = false then some w
      else some { w with objects := w.objects ++ [.make w.objects.length args] }
    else none
  | .object i a =>
    (w.objects[i]?).bind fun o =>
      if !a.ofParent || w.alive then
        (o.step (w.view i) a).map fun o => { w with objects := w.objects.set i o }
      else none
  | .parentEnds =>
    if w.alive then some { w with alive := false, objects := w.objects.map ({ · with fds := [] }) }
    else none

def init (pgid : Pid) : SyncWorld := { pgid }

end SyncWorld

end Aser
