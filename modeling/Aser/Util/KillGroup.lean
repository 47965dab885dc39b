import Aser.Util.SyncProcess

namespace Aser

open Library

/-- The errno of a call that finds no process. -/
def esrch : Int := 3

/-- A process that the command of object `object` started, or one that such a process started. -/
structure Descendant where
  object : Nat
  pgid : Pid
  deriving DecidableEq

/-- Where a call of `kill_process` with `kill_mode::TREE` stands: it is about to test `terminated`, or to
make one of the two calls of `kill_group`; or it is over. -/
inductive TreePlace
  | testing
  | gettingGroup
  | killing (gid : Pid)
  | returned
  | threw (e : Exception)
  deriving DecidableEq

def TreePlace.underWay : TreePlace → Bool
  | .testing | .gettingGroup | .killing _ => true
  | .returned | .threw _ => false

/-- A call of `kill_process` with `kill_mode::TREE`, in any thread, for the object `object`. `inTime`
records that `prepare` had returned when the call was made and the child was not reaped. -/
structure TreeCall where
  object : Nat
  inTime : Bool
  place : TreePlace := .testing
  deriving DecidableEq

/-- The `sync_process` objects with their children, what the commands of these start, and the calls of
`kill_process` made so far. -/
structure GroupWorld where
  world : SyncWorld
  descendants : List Descendant := []
  calls : List TreeCall := []
  deriving DecidableEq

/-- `SIGKILL` for a group. -/
def Child.signalled (gid : Pid) (c : Child) : Child := if c.pgid = gid then c.dies sigkilled else c

namespace GroupWorld

/-- Who may be in a group. -/
inductive Member
  | manager
  | child (i : Nat)
  | descendant (k : Nat)

/-- A child is in its group until it is reaped. -/
def InGroup (g : GroupWorld) (gid : Pid) : Member → Prop
  | .manager => g.world.alive = true ∧ g.world.pgid = gid
  | .child i => ∃ (o : SyncProcess) (c : Child), g.world.objects[i]? = some o ∧ o.child = some c ∧
      c.phase ≠ .reaped ∧ c.pgid = gid
  | .descendant k => ∃ d : Descendant, g.descendants[k]? = some d ∧ d.pgid = gid

def children (g : GroupWorld) : List Child :=
  (g.world.objects.filterMap (·.child)).filter (·.phase ≠ .reaped)

/-- Everybody in the group dies. -/
def signal (g : GroupWorld) (gid : Pid) : GroupWorld :=
  let world := if g.world.pgid = gid then (g.world.step .parentEnds).getD g.world else g.world
  { g with
    world := { world with
      objects := world.objects.map fun o => { o with child := o.child.map (·.signalled gid) } }
    descendants := g.descendants.filter (·.pgid ≠ gid) }

/-- The group of the process with the pid, or `-1`. `elsewhere` lists pid and group of the processes
that are no children of the program. -/
def getpgid (g : GroupWorld) (elsewhere : List (Pid × Pid)) (pid : Pid) : Pid :=
  match g.children.find? (·.pid = pid) with
  | some c => c.pgid
  | none => (elsewhere.lookup pid).getD (-1)

/-- `kill` with a negative pid; `fails` is the error of a call that the kernel refuses, such as `EPERM`. -/
def kill (g : GroupWorld) (elsewhere : List (Pid × Pid)) (fails : Option Int) (gid : Pid) : Except Int GroupWorld :=
  match fails with
  | some errno => .error errno
  | none =>
    if (g.world.alive ∧ g.world.pgid = gid) ∨ gid ∈ g.children.map (·.pgid) ∨ gid ∈ g.descendants.map (·.pgid) ∨
        gid ∈ elsewhere.map (·.2) then
      .ok (g.signal gid)
    else .error esrch

/-- The next thing that a call for object `o` does: the test in `kill_process`, then `getpgid` and `kill`
in `kill_group`. -/
def callStep (g : GroupWorld) (elsewhere : List (Pid × Pid)) (fails : Option Int) (o : SyncProcess) :
    TreePlace → Option (TreePlace × GroupWorld)
  | .testing => some (if o.terminated then .returned else .gettingGroup, g)
  | .gettingGroup =>
    match errorIfEqual esrch (g.getpgid elsewhere o.pid) (-1) "Error getting the group id" with
    | .error e => some (.threw e, g)
    | .ok gid => some (.killing gid, g)
  | .killing gid => match g.kill elsewhere fails gid with
    | .error errno => some (.threw (.systemError errno "Error killing a process group"), g)
    | .ok g => some (.returned, g)
  | .returned | .threw _ => none

inductive Action
  | world (a : SyncWorld.Action)
  | killTree (i : Nat)
  | tree (k : Nat) (elsewhere : List (Pid × Pid)) (fails : Option Int)
  | spawns (i : Nat)
  | respawns (k : Nat)
  | exits (k : Nat)
  deriving DecidableEq

/-- A fork returns no pid that is the number of a group in use, and no object is destroyed that a call
still works on. -/
def mayStep (g : GroupWorld) : SyncWorld.Action → Bool
  | .object _ (.prepare _ (.child pid)) => g.descendants.all (·.pgid ≠ pid)
  | .object i .destroy => g.calls.all fun call => call.object ≠ i || !call.place.underWay
  | _ => true

/-- Any thread of the manager may call `kill_process`, and the calls go on one step at a time. The commands
start processes, which may start others and end; nobody but a child in `wait_for_parent` leaves the group
it was born into. -/
def step (g : GroupWorld) : Action → Option GroupWorld
  | .world a => if g.mayStep a then (g.world.step a).map ({ g with world := · }) else none
  | .killTree i =>
    (g.world.objects[i]?).bind fun o =>
      if g.world.alive ∧ o.alive ∧ o.started then
        let inTime := o.prepared && o.child.all (·.phase ≠ .reaped)
        some { g with calls := g.calls ++ [{ object := i, inTime }] }
      else none
  | .tree k elsewhere fails =>
    (g.calls[k]?).bind fun call => (g.world.objects[call.object]?).bind fun o =>
      if g.world.alive then
        (g.callStep elsewhere fails o call.place).map fun (place, g) =>
          { g with calls := g.calls.set k { call with place } }
      else none
  | .spawns i =>
    (g.world.objects[i]?).bind fun o => o.child.bind fun c =>
      if c.phase = .program then some { g with descendants := g.descendants ++ [⟨i, c.pgid⟩] } else none
  | .respawns k => (g.descendants[k]?).map fun d => { g with descendants := g.descendants ++ [d] }
  | .exits k => (g.descendants[k]?).map fun _ => { g with descendants := g.descendants.eraseIdx k }

def init (pgid : Pid) : GroupWorld := { world := .init pgid }

end GroupWorld

end Aser
