import Aser.Library.Ownership
import Aser.Library.Run
import Aser.Library.Slots
import Aser.Util.ProcessTable

namespace Aser

open Library

/-- `~process`: whatever is thrown on the way is swallowed. `kill` and `waitpid` are the errors of the
calls that fail. -/
def Process.destroy (p : Process) (kill waitpid : Option Int) (k : ProcessTable) : ProcessTable :=
  if p.holdsChild then
    match k.kill kill p.pid with
    | (.error _, k) => k
    | (.ok (), k) => match k.waitpid waitpid p.pid with
      | some (_, k) => k
      | none => k
  else k

/-- The child the object owns, as far as the object can tell. -/
def Process.held (p : Process) : Option Pid := if p.holdsChild then some p.pid else none

/-- `kill_process` in mode `PROC`, on an object that is started. -/
def Process.killProcess (p : Process) (kill : Option Int) (k : ProcessTable) : ProcessTable :=
  if p.terminated then k else (k.kill kill p.pid).2

/-- Any number of `process` objects, numbered in the order they were constructed; `none` once
destroyed. -/
structure ProcessObjects where
  objects : List (Option Process)
  kernel : ProcessTable

namespace ProcessObjects

def init : ProcessObjects := ⟨[], .init⟩

def object (s : ProcessObjects) (o : Nat) : Option Process := slot s.objects o

def put (s : ProcessObjects) (o : Nat) (p : Option Process) : ProcessObjects :=
  { s with objects := s.objects.set o p }

inductive Action
  | construct (args : List String) (config : ProcessConfig)
  | start (o : Nat) (pathExists : Bool) (fork : ForkResult)
  | wait (o : Nat) (waitpid : Option Int)
  | killProcess (o : Nat) (kill : Option Int)
  | moveConstruct (source : Nat)
  | moveAssign (target source : Nat)
  | destroy (o : Nat) (kill waitpid : Option Int)
  | childEnds (pid : Pid) (status : Int)

/-- One operation on the objects, or the end of a child. Not enabled is what the code rules out:
an object that is not alive, a failing assertion, `args_[0]` of an empty vector; and a `wait` for
as long as it blocks. -/
def step (s : ProcessObjects) : Action → Option ProcessObjects
  | .construct args config =>
    match Process.make args config with
    | .error _ => some s
    | .ok p => some { s with objects := s.objects ++ [some p] }
  | .start o pathExists fork =>
    (s.object o).bind fun p =>
      if !p.started ∧ p.args ≠ [] ∧ s.kernel.mayFork fork then
        let p := (p.start pathExists fork).2
        some { s.put o p with kernel := if p.started then s.kernel.fork p.pid else s.kernel }
      else none
  | .wait o waitpid =>
    (s.object o).bind fun p =>
      if p.holdsChild then
        (s.kernel.waitpid waitpid p.pid).map fun (result, kernel) =>
          { s.put o (p.wait result).2 with kernel }
      else none
  | .killProcess o kill =>
    (s.object o).bind fun p =>
      if p.started then some { s with kernel := p.killProcess kill s.kernel } else none
  | .moveConstruct source =>
    (s.object source).map fun p =>
      { s with objects := s.objects.set source (some p.movedFrom) ++ [some p] }
  | .moveAssign target source =>
    (s.object source).bind fun p =>
      (s.object target).map fun _ => (s.put target p).put source p.movedFrom
  | .destroy o kill waitpid =>
    (s.object o).map fun p => { s.put o none with kernel := p.destroy kill waitpid s.kernel }
  | .childEnds pid status => (s.kernel.childEnds pid status).map fun kernel => { s with kernel }

/-- The live object `o` has a child it started and has not waited for: `pid`. -/
def Holds (s : ProcessObjects) (o : Nat) (pid : Pid) : Prop :=
  (s.object o).bind Process.held = some pid

/-- Each child not yet waited for is owned by exactly one live object. -/
def Owned (s : ProcessObjects) : Prop := ∀ pid ∈ s.kernel.pids, ∃! o, s.Holds o pid

/-- The step killed the child `pid` and reaped it. -/
def KillsAndReaps (s s' : ProcessObjects) (pid : Pid) : Prop :=
  s'.kernel.signals = s.kernel.signals ++ [pid] ∧ pid ∉ s'.kernel.pids

/-- A moved-from object is not started and would be destroyed without touching any child. -/
def Disarmed (s : ProcessObjects) (o : Nat) : Prop :=
  ∀ p, s.object o = some p → p.started = false ∧ ∀ kill waitpid, p.destroy kill waitpid s.kernel = s.kernel

/-- What moving and destroying promise. -/
def Contract (s : ProcessObjects) (a : Action) (s' : ProcessObjects) : Prop :=
  match a with
  | .moveConstruct source => s'.Disarmed source
  | .moveAssign target source =>
    s'.Disarmed source ∧ ∀ pid, s.Holds target pid → KillsAndReaps s s' pid
  | .destroy o _ _ => ∀ pid, s.Holds o pid → KillsAndReaps s s' pid
  | _ => True

/-- No object is moved from once it is started, none that holds a child is assigned to, and when one
that holds a child is destroyed, neither `kill` nor `waitpid` fails. -/
def KeepsOwners (s : ProcessObjects) (a : Action) : Prop :=
  match a with
  | .moveConstruct source => ∀ p, s.object source = some p → p.started = false
  | .moveAssign target source =>
    (∀ p, s.object source = some p → p.started = false) ∧ ∀ pid, ¬ s.Holds target pid
  | .destroy o kill waitpid => ∀ pid, s.Holds o pid → kill = none ∧ waitpid = none
  | _ => True

theorem object_put {s : ProcessObjects} {o : Nat} {q : Process} (alive : s.object o = some q)
    (p : Option Process) (j : Nat) : (s.put o p).object j = if j = o then p else s.object j :=
  slot_set alive p j

theorem object_append (l : List (Option Process)) (k k' : ProcessTable) (p : Process) (j : Nat) :
    (ProcessObjects.mk (l ++ [some p]) k').object j =
      if j = l.length then some p else (ProcessObjects.mk l k).object j :=
  slot_append l (some p) j

@[simp] theorem object_kernel (s : ProcessObjects) (k : ProcessTable) (o : Nat) :
    ({ s with kernel := k } : ProcessObjects).object o = s.object o := rfl

/-- The changes that the operations make, and the end of a child. -/
inductive Change (s : ProcessObjects) : Action → ProcessObjects → Prop
  | refused {args config} : Change s (.construct args config) s
  | constructs {args config p} (made : Process.make args config = .ok p) :
    Change s (.construct args config) { s with objects := s.objects ++ [some p] }
  | starts {o p pathExists fork} (alive : s.object o = some p) (unstarted : p.started = false)
    (may : s.kernel.mayFork fork = true) : Change s (.start o pathExists fork)
      { s.put o (p.start pathExists fork).2 with
        kernel := if (p.start pathExists fork).2.started then s.kernel.fork (p.start pathExists fork).2.pid else s.kernel }
  | waits {o waitpid p result kernel} (alive : s.object o = some p) (holds : p.holdsChild = true)
    (answer : s.kernel.waitpid waitpid p.pid = some (result, kernel)) :
    Change s (.wait o waitpid) { s.put o (p.wait result).2 with kernel }
  | kills {o kill p} (alive : s.object o = some p) :
    Change s (.killProcess o kill) { s with kernel := p.killProcess kill s.kernel }
  | moves {source p} (alive : s.object source = some p) : Change s (.moveConstruct source)
      { s with objects := s.objects.set source (some p.movedFrom) ++ [some p] }
  | assigns {target source p q} (alive : s.object source = some p) (alive' : s.object target = some q) :
    Change s (.moveAssign target source) ((s.put target p).put source p.movedFrom)
  | destroys {o kill waitpid p} (alive : s.object o = some p) :
    Change s (.destroy o kill waitpid) { s.put o none with kernel := p.destroy kill waitpid s.kernel }
  | ends {pid status kernel} (ended : s.kernel.childEnds pid status = some kernel) :
    Change s (.childEnds pid status) { s with kernel }

theorem change_of_step {s s' : ProcessObjects} {a : Action} (taken : s.step a = some s') : Change s a s' := by
  cases a with
  | construct args config =>
    cases made : Process.make args config with
    | error e =>
      simp only [step, made, Option.some.injEq] at taken
      exact taken ▸ .refused
    | ok p =>
      simp only [step, made, Option.some.injEq] at taken
      exact taken ▸ .constructs made
  | start o pathExists fork =>
    obtain ⟨p, alive, taken⟩ := Option.bind_eq_some_iff.mp taken
    split at taken
    · rename_i guard
      exact Option.some.inj taken ▸ .starts alive (by simpa using guard.1) guard.2.2
    · simp at taken
  | wait o waitpid =>
    obtain ⟨p, alive, taken⟩ := Option.bind_eq_some_iff.mp taken
    split at taken
    · rename_i holds
      obtain ⟨⟨result, kernel⟩, answer, rfl⟩ := Option.map_eq_some_iff.mp taken
      exact .waits alive holds answer
    · simp at taken
  | killProcess o kill =>
    obtain ⟨p, alive, taken⟩ := Option.bind_eq_some_iff.mp taken
    split at taken
    · exact Option.some.inj taken ▸ .kills alive
    · simp at taken
  | moveConstruct source =>
    obtain ⟨p, alive, rfl⟩ := Option.map_eq_some_iff.mp taken
    exact .moves alive
  | moveAssign target source =>
    obtain ⟨p, alive, taken⟩ := Option.bind_eq_some_iff.mp taken
    obtain ⟨q, alive', rfl⟩ := Option.map_eq_some_iff.mp taken
    exact .assigns alive alive'
  | destroy o kill waitpid =>
    obtain ⟨p, alive, rfl⟩ := Option.map_eq_some_iff.mp taken
    exact .destroys alive
  | childEnds pid status =>
    obtain ⟨kernel, ended, rfl⟩ := Option.map_eq_some_iff.mp taken
    exact .ends ended

/-- The source of an assignment is what it was until it is moved from, also when it is the target. -/
theorem object_put_source {s : ProcessObjects} {target source : Nat} {p q : Process}
    (alive : s.object source = some p) (alive' : s.object target = some q) :
    (s.put target p).object source = some p := by
  rw [object_put alive']
  split
  · rfl
  · exact alive

theorem held_of_not_started {p : Process} (unstarted : p.started = false) : p.held = none := by
  simp [Process.held, Process.holdsChild, unstarted]

theorem destroy_of_not_held {p : Process} (k : ProcessTable) (free : p.held = none) (kill waitpid : Option Int) :
    p.destroy kill waitpid k = k := by
  unfold Process.held at free
  split at free
  · simp at free
  · rename_i none
    rw [Process.destroy, if_neg none]

/-- Destroying the owner of a child kills the child and reaps it, unless one of the calls fails. -/
theorem destroy_held {p : Process} {k : ProcessTable} {pid : Pid} (held : p.held = some pid)
    (known : pid ∈ k.pids) : (p.destroy none none k).signals = k.signals ++ [pid] ∧
      ∀ x, x ∈ (p.destroy none none k).pids ↔ x ∈ k.pids ∧ x ≠ pid := by
  unfold Process.held at held
  split at held
  · rename_i holds
    cases Option.some.inj held
    obtain ⟨killed, result, k', waited⟩ := ProcessTable.waitpid_kill known
    have known' := (ProcessTable.mem_pids_kill k none p.pid p.pid).mpr known
    rcases ProcessTable.waitpid_child known' waited with ⟨_, ⟨⟩, _⟩ | ⟨_, _, _, _, signals, left⟩
    have after : p.destroy none none k = k' := by
      rw [Process.destroy, if_pos holds, killed]
      simp only [waited]
    rw [after]
    refine ⟨signals.trans (ProcessTable.signals_kill k p.pid), fun x => ?_⟩
    rw [left, ProcessTable.mem_pids_kill]
  · simp at held

/-- When `kill` fails nothing is sent, and when `waitpid` fails nobody is reaped. -/
theorem destroy_fails {p : Process} {k : ProcessTable} {pid : Pid} {kill waitpid : Option Int}
    (held : p.held = some pid) (known : pid ∈ k.pids)
    (both : (p.destroy kill waitpid k).signals = k.signals ++ [pid] ∧ pid ∉ (p.destroy kill waitpid k).pids) :
    kill = none ∧ waitpid = none := by
  unfold Process.held at held
  split at held
  · rename_i holds
    cases Option.some.inj held
    obtain ⟨signalled, gone⟩ := both
    simp only [Process.destroy, holds, if_true] at signalled gone
    cases kill with
    | some errno => simp [ProcessTable.kill, libcError] at signalled
    | none =>
      have killed := (ProcessTable.waitpid_kill known).1
      cases waitpid with
      | some errno =>
        rw [killed] at gone
        exact absurd ((ProcessTable.mem_pids_kill k none p.pid p.pid).mpr known) gone
      | none => exact ⟨rfl, rfl⟩
  · simp at held

end ProcessObjects

end Aser
