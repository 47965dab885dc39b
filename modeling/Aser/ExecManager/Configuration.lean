import Aser.Core.Benchmark
import Aser.ExecMonitor.CpuHopper
import Aser.ExecMonitor.PmcSampler
import Aser.Util.Factory
import Aser.Util.SyncProcess

namespace Aser

open Perf

/-- A monitor as its constructor leaves it. The handler that the constructor registers is that of the class. -/
inductive CreatedMonitor
  | simple (samplingInterval : UInt32)
  | cpuHopper (samplingInterval : UInt32) (members : CpuHopper)
  | pmcSamplerLinux (samplingInterval : UInt32) (members : PmcSampler)
  | pmcSamplerDummy (samplingInterval : UInt32) (events : List EventInfo)

/-- A `simple_manager` as its constructor leaves it. -/
structure CreatedManager where
  execMonitor : CreatedMonitor
  benchs : List Benchmark
  processes : List (Option SyncProcess)

namespace Startup

variable {τ : Type} [PropertyTree τ]

def samplingLength : String := "exec_monitor.sampling_length"

def newSimpleMonitor (properties : τ) : Except Exception CreatedMonitor := do
  let samplingInterval ← PropertyTree.getUnsigned properties samplingLength
  return .simple samplingInterval

def newCpuHopper (hardwareConcurrency : Nat) (properties : τ) : Except Exception CreatedMonitor := do
  let samplingInterval ← PropertyTree.getUnsigned properties samplingLength
  return .cpuHopper samplingInterval (.init hardwareConcurrency)

/-- The constructor of `pmc_sampler` for both of its event implementations. -/
def newPmcSampler (make : UInt32 → GenericEvents → CreatedMonitor) (properties : τ) :
    Except Exception CreatedMonitor := do
  let samplingInterval ← PropertyTree.getUnsigned properties samplingLength
  let event ← PropertyTree.getString properties "exec_monitor.event"
  let defaultEvents ← createGenericEvents event
  return make samplingInterval defaultEvents

def newPmcSamplerLinux : τ → Except Exception CreatedMonitor :=
  newPmcSampler fun samplingInterval defaultEvents => .pmcSamplerLinux samplingInterval (.init defaultEvents)

def newPmcSamplerDummy : τ → Except Exception CreatedMonitor :=
  newPmcSampler fun samplingInterval defaultEvents =>
    .pmcSamplerDummy samplingInterval (PmcSampler.init defaultEvents).events

/-- The registars of the monitors, on Linux. -/
def monitorRegistars (hardwareConcurrency : Nat) : List (String × (τ → Except Exception CreatedMonitor)) :=
  [("cpu-hopper", newCpuHopper hardwareConcurrency), ("pmc-sampler[linux]", newPmcSamplerLinux),
    ("pmc-sampler[dummy]", newPmcSamplerDummy), ("simple", newSimpleMonitor)]

/-- The ids are those of an `unsigned` counter. -/
def assignIds (benchs : List Benchmark) : List Benchmark :=
  benchs.mapIdx fun i b => { b with id := i % 2 ^ 32 }

/-- The constructor of `exec_manager`, and then the rest of that of `simple_manager`. -/
def newSimpleManager (monitors : Factory τ CreatedMonitor) (properties : τ) :
    Except Exception CreatedManager := do
  let type ← PropertyTree.getString properties "exec_monitor.type"
  let execMonitor ← monitors.create type properties
  let benchmarks ← PropertyTree.getChild properties "exec_manager.benchmarks"
  let benchs ← Util.parseVector benchmarks
  return { execMonitor, benchs := assignIds benchs, processes := List.replicate benchs.length none }

def managerRegistars (monitors : Factory τ CreatedMonitor) : List (String × (τ → Except Exception CreatedManager)) :=
  [("simple", newSimpleManager monitors)]

/-- `main`, from where it has read the configuration to where it calls `start`. -/
def newExecManager (managers : Factory τ CreatedManager) (properties : τ) : Except Exception CreatedManager := do
  let type ← PropertyTree.getString properties "exec_manager.type"
  managers.create type properties

/-- The factory of the managers as `main` finds it; the registars ran in some order. -/
def Registered (hardwareConcurrency : Nat) (managers : Factory τ CreatedManager) : Prop :=
  ∃ monitors : Factory τ CreatedMonitor, ∃ order order', order.Perm (monitorRegistars hardwareConcurrency) ∧
    Factory.registerAll {} order = some monitors ∧ order'.Perm (managerRegistars monitors) ∧
      Factory.registerAll {} order' = some managers

variable {α β : Type} {f g : Option Exception} {v : α} {w : β}

/-- A value that is there unless a check found a fault. -/
def checked (fault : Option Exception) (value : α) : Except Exception α :=
  match fault with
  | some e => .error e
  | none => .ok value

theorem checked_bind {x : Except Exception α} {k : α → Except Exception β} (first : x = checked f v)
    (second : k v = checked g w) : x >>= k = checked (f.or g) w := by
  subst first
  cases f with
  | some e => rfl
  | none => exact second

theorem checked_pure {x : Except Exception α} (first : x = checked f v) (k : α → β) :
    (x >>= fun a => pure (k a)) = checked f (k v) := by
  subst first
  cases f <;> rfl

/-- The first of several faults. -/
def firstFault (faults : List (Option Exception)) : Option Exception := faults.findSome? id

theorem firstFault_cons (fault : Option Exception) (rest : List (Option Exception)) :
    firstFault (fault :: rest) = fault.or (firstFault rest) := by
  cases fault <;> rfl

theorem firstFault_append (faults rest : List (Option Exception)) :
    firstFault (faults ++ rest) = (firstFault faults).or (firstFault rest) := by
  rw [firstFault, List.findSome?_append]
  rfl

/-- What is thrown instead of an answer. -/
def refused : Except Exception α → Option Exception
  | .error e => some e
  | .ok _ => none

/-- The answer, if there is one. -/
def given [Inhabited α] (answer : Except Exception α) : α := answer.toOption.getD default

theorem checked_given [Inhabited α] (answer : Except Exception α) :
    answer = checked (refused answer) (given answer) := by
  cases answer <;> rfl

def unknownId (ids : List String) (id : String) : Option Exception :=
  if id ∈ ids then none else some (.invalidArgument ("Invalid id: " ++ id))

def unknownEvents (name : String) : Option Exception :=
  if name ∈ ["linux", "dummy"] then none else some (.invalidArgument "Invalid event type")

theorem createGenericEvents_eq (name : String) :
    createGenericEvents name = checked (unknownEvents name) (if name = "linux" then ⟨0, 1⟩ else ⟨0, 0⟩) := by
  unfold createGenericEvents unknownEvents
  by_cases linux : name = "linux"
  · simp [linux, checked]
  · by_cases dummy : name = "dummy"
    · simp [dummy, checked]
    · simp [linux, dummy, checked]

/-- A benchmark as it stands in the configuration. -/
def benchmarkAt (t : τ) : Benchmark where
  id := 0
  name := given (PropertyTree.getString t "name")
  args := parseCmd (given (PropertyTree.getString t "cmd"))

def benchmarkFaults (elem : String × τ) : List (Option Exception) :=
  [refused (PropertyTree.getString elem.2 "name"), refused (PropertyTree.getString elem.2 "cmd")]

theorem parse_eq (elem : String × τ) :
    Util.parse elem.2 = checked (firstFault (benchmarkFaults elem)) (benchmarkAt elem.2) := by
  rw [benchmarkFaults, firstFault_cons, firstFault_cons]
  exact checked_bind (checked_given _) (checked_bind (checked_given _) rfl)

theorem parseVector_eq (t : τ) : Util.parseVector t =
    checked (firstFault ((PropertyTree.children t).flatMap benchmarkFaults))
      ((PropertyTree.children t).map fun elem => benchmarkAt elem.2) := by
  rw [Util.parseVector]
  induction PropertyTree.children t with
  | nil => rfl
  | cons elem rest ih =>
    rw [List.mapM_cons, List.flatMap_cons, firstFault_append, List.map_cons]
    refine checked_bind (parse_eq elem) ?_
    rw [ih]
    cases firstFault (rest.flatMap benchmarkFaults) <;> rfl

def managerType (t : τ) : Except Exception String := PropertyTree.getString t "exec_manager.type"

def monitorType (t : τ) : Except Exception String := PropertyTree.getString t "exec_monitor.type"

def samplingInterval (t : τ) : Except Exception UInt32 := PropertyTree.getUnsigned t samplingLength

def pmcEvent (t : τ) : Except Exception String := PropertyTree.getString t "exec_monitor.event"

/-- The subtrees of the benchmarks. -/
def benchmarks (t : τ) : Except Exception (List (String × τ)) :=
  (PropertyTree.getChild t "exec_manager.benchmarks").map PropertyTree.children

def pmcIds : List String := ["pmc-sampler[linux]", "pmc-sampler[dummy]"]

def monitorIds : List String := "cpu-hopper" :: "simple" :: pmcIds

/-- What the constructors of the monitors check, in this order. -/
def monitorFaults (t : τ) : List (Option Exception) :=
  refused (samplingInterval t) ::
    if given (monitorType t) ∈ pmcIds then [refused (pmcEvent t), unknownEvents (given (pmcEvent t))] else []

/-- What the constructors of the managers check. -/
def managerFaults (t : τ) : List (Option Exception) :=
  [refused (monitorType t), unknownId monitorIds (given (monitorType t))] ++ monitorFaults t ++
    refused (benchmarks t) :: (given (benchmarks t)).flatMap benchmarkFaults

/-- All that can be wrong with a configuration, in the order in which it is found. -/
def faults (t : τ) : List (Option Exception) :=
  refused (managerType t) :: unknownId ["simple"] (given (managerType t)) :: managerFaults t

/-- The monitor of a configuration with nothing wrong in it. -/
def builtMonitor (hardwareConcurrency : Nat) (t : τ) : CreatedMonitor :=
  let interval := given (samplingInterval t)
  let sampler : PmcSampler := .init (if given (pmcEvent t) = "linux" then ⟨0, 1⟩ else ⟨0, 0⟩)
  if given (monitorType t) = "cpu-hopper" then .cpuHopper interval (.init hardwareConcurrency)
  else if given (monitorType t) = "pmc-sampler[linux]" then .pmcSamplerLinux interval sampler
  else if given (monitorType t) = "pmc-sampler[dummy]" then .pmcSamplerDummy interval sampler.events
  else .simple interval

def built (hardwareConcurrency : Nat) (t : τ) : CreatedManager where
  execMonitor := builtMonitor hardwareConcurrency t
  benchs := assignIds ((given (benchmarks t)).map fun elem => benchmarkAt elem.2)
  processes := List.replicate (given (benchmarks t)).length none

variable {hardwareConcurrency : Nat} {monitors : Factory τ CreatedMonitor} {managers : Factory τ CreatedManager}

theorem newPmcSampler_eq (make : UInt32 → GenericEvents → CreatedMonitor) (t : τ) :
    newPmcSampler make t =
      checked (firstFault [refused (samplingInterval t), refused (pmcEvent t), unknownEvents (given (pmcEvent t))])
        (make (given (samplingInterval t)) (if given (pmcEvent t) = "linux" then ⟨0, 1⟩ else ⟨0, 0⟩)) := by
  rw [firstFault_cons, firstFault_cons, firstFault_cons]
  exact checked_bind (checked_given _) (checked_bind (checked_given _) (checked_bind (createGenericEvents_eq _) rfl))

/-- A monitor whose constructor reads nothing but the sampling length. -/
theorem checked_interval (make : UInt32 → CreatedMonitor) (t : τ) :
    (samplingInterval t >>= fun interval => pure (make interval)) =
      checked (firstFault [refused (samplingInterval t)]) (make (given (samplingInterval t))) := by
  rw [firstFault_cons]
  exact checked_bind (checked_given _) rfl

theorem createMonitor_eq {order : List (String × (τ → Except Exception CreatedMonitor))}
    (registered : Factory.registerAll {} order = some monitors)
    (perm : order.Perm (monitorRegistars hardwareConcurrency)) (t : τ) : monitors.create (given (monitorType t)) t =
      checked (firstFault (unknownId monitorIds (given (monitorType t)) :: monitorFaults t))
        (builtMonitor hardwareConcurrency t) := by
  have creates {id : String} {creator : τ → Except Exception CreatedMonitor}
      (member : (id, creator) ∈ monitorRegistars hardwareConcurrency) : monitors.create id = creator :=
    Factory.create_of_mem registered perm member
  by_cases known : given (monitorType t) ∈ monitorIds
  · have isKnown : unknownId monitorIds (given (monitorType t)) = none := if_pos known
    rw [firstFault_cons, isKnown, Option.none_or]
    simp only [monitorIds, pmcIds, List.mem_cons, List.not_mem_nil, or_false] at known
    unfold monitorFaults builtMonitor
    rcases known with type | type | type | type
    · have cpuHopper : monitors.create "cpu-hopper" = newCpuHopper hardwareConcurrency :=
        creates (by simp [monitorRegistars])
      rw [type, cpuHopper]
      exact checked_interval _ t
    · have simple : monitors.create "simple" = newSimpleMonitor := creates (by simp [monitorRegistars])
      rw [type, simple]
      exact checked_interval _ t
    · have linux : monitors.create "pmc-sampler[linux]" = newPmcSamplerLinux := creates (by simp [monitorRegistars])
      rw [type, linux]
      exact newPmcSampler_eq _ t
    · have dummy : monitors.create "pmc-sampler[dummy]" = newPmcSamplerDummy := creates (by simp [monitorRegistars])
      rw [type, dummy]
      exact newPmcSampler_eq _ t
  · have isUnknown : unknownId monitorIds (given (monitorType t)) =
        some (.invalidArgument ("Invalid id: " ++ given (monitorType t))) := if_neg known
    rw [firstFault_cons, isUnknown, Factory.create_of_notMem registered perm]
    · rfl
    · intro member
      refine known ?_
      simp only [monitorRegistars, List.map_cons, List.map_nil, List.mem_cons, List.not_mem_nil, or_false] at member
      simp only [monitorIds, pmcIds, List.mem_cons, List.not_mem_nil, or_false]
      tauto

/-- The benchmarks are looked for and then parsed, and nothing comes between the two. -/
theorem parseBenchmarks_eq (t : τ) : (PropertyTree.getChild t "exec_manager.benchmarks" >>= Util.parseVector) =
    checked ((refused (benchmarks t)).or (firstFault ((given (benchmarks t)).flatMap benchmarkFaults)))
      ((given (benchmarks t)).map fun elem => benchmarkAt elem.2) := by
  unfold benchmarks
  cases PropertyTree.getChild t "exec_manager.benchmarks" with
  | error e => rfl
  | ok subtree => exact parseVector_eq subtree

theorem newSimpleManager_eq {order : List (String × (τ → Except Exception CreatedMonitor))}
    (registered : Factory.registerAll {} order = some monitors)
    (perm : order.Perm (monitorRegistars hardwareConcurrency)) (t : τ) :
    newSimpleManager monitors t = checked (firstFault (managerFaults t)) (built hardwareConcurrency t) := by
  have faults : firstFault (managerFaults t) =
      (refused (monitorType t)).or ((firstFault (unknownId monitorIds (given (monitorType t)) :: monitorFaults t)).or
        ((refused (benchmarks t)).or (firstFault ((given (benchmarks t)).flatMap benchmarkFaults)))) := by
    simp only [managerFaults, firstFault_append, firstFault_cons, Option.or_assoc]
    rfl
  rw [faults]
  refine checked_bind (checked_given _) (checked_bind (createMonitor_eq registered perm t) ?_)
  let make (benchs : List Benchmark) : CreatedManager :=
    { execMonitor := builtMonitor hardwareConcurrency t, benchs := assignIds benchs
      processes := List.replicate benchs.length none }
  have parsed := checked_pure (parseBenchmarks_eq t) make
  have isBuilt : make ((given (benchmarks t)).map fun elem => benchmarkAt elem.2) = built hardwareConcurrency t := by
    simp only [make, built, List.length_map]
  rw [← isBuilt, ← parsed, bind_assoc]

theorem newExecManager_eq (registered : Registered hardwareConcurrency managers) (t : τ) :
    newExecManager managers t = checked (firstFault (faults t)) (built hardwareConcurrency t) := by
  obtain ⟨monitors, order, order', perm, known, perm', known'⟩ := registered
  have created : managers.create (given (managerType t)) t =
      checked ((unknownId ["simple"] (given (managerType t))).or (firstFault (managerFaults t)))
        (built hardwareConcurrency t) := by
    by_cases simple : given (managerType t) = "simple"
    · have creates : managers.create "simple" = newSimpleManager monitors :=
        Factory.create_of_mem known' perm' (by simp [managerRegistars])
      rw [simple, creates, newSimpleManager_eq known perm]
      rfl
    · rw [Factory.create_of_notMem known' perm' (by simpa [managerRegistars] using simple)]
      simp [unknownId, simple, checked]
  rw [faults, firstFault_cons, firstFault_cons]
  exact checked_bind (checked_given _) created

theorem firstFault_eq_none_iff (faults : List (Option Exception)) :
    firstFault faults = none ↔ ∀ fault ∈ faults, fault = none := by
  simp [firstFault]

/-- Starting up amounts to checking the whole configuration and then building from it: the first thing that
is wrong with it is what is reported, and if nothing is, the manager is the one described. -/
theorem checked_then_built (registered : Registered hardwareConcurrency managers) (t : τ) :
    (∀ e, newExecManager managers t = .error e ↔ firstFault (faults t) = some e) ∧
    ∀ m, newExecManager managers t = .ok m ↔
      (∀ fault ∈ faults t, fault = none) ∧ m = built hardwareConcurrency t := by
  rw [newExecManager_eq registered, ← firstFault_eq_none_iff]
  cases firstFault (faults t) with
  | some e => simp [checked]
  | none => simp [checked, eq_comm]

/-- Before `main` all registars find their ids free. -/
theorem exists_registered (τ : Type) [PropertyTree τ] (hardwareConcurrency : Nat) :
    ∃ managers : Factory τ CreatedManager, Registered hardwareConcurrency managers := by
  obtain ⟨monitors, known⟩ : ∃ monitors : Factory τ CreatedMonitor,
      Factory.registerAll {} (monitorRegistars hardwareConcurrency) = some monitors := by
    refine Option.isSome_iff_exists.mp (Factory.registerAll_isSome_iff.mpr ⟨?_, by simp⟩)
    simp [monitorRegistars]
  obtain ⟨managers, known'⟩ : ∃ managers, Factory.registerAll {} (managerRegistars monitors) = some managers := by
    refine Option.isSome_iff_exists.mp (Factory.registerAll_isSome_iff.mpr ⟨?_, by simp⟩)
    simp [managerRegistars]
  exact ⟨managers, monitors, _, _, .refl _, known, .refl _, known'⟩

/-- A configuration with these benchmarks under a monitor that samples twice a second. -/
def configurationTree (monitor : String) (benchs : List (String × String)) : WrittenTree :=
  .node [("exec_manager.type", "simple"), ("exec_monitor.type", monitor)] [("exec_monitor.sampling_length", 500)]
    [("exec_manager.benchmarks", .node [] [] (benchs.map fun bench => ("", Util.benchmarkTree bench.1 bench.2)))]

/-- Two benchmarks under a `cpu-hopper`. -/
def hopping : WrittenTree := configurationTree "cpu-hopper" [("a", "/usr/bin/env sleep 5"), ("b", "ls -l")]

/-- On four CPUs. Where the monitor is a `pmc-sampler[linux]`, it looks for its event before the benchmarks are
looked at. -/
theorem checked_then_built_twice : ∃ managers, Registered 4 managers ∧
    newExecManager managers hopping = .ok {
      execMonitor := .cpuHopper 500 (.init 4)
      benchs := [⟨0, "a", ["/usr/bin/env", "sleep", "5"]⟩, ⟨1, "b", ["ls", "-l"]⟩]
      processes := [none, none] } ∧
    newExecManager managers (configurationTree "pmc-sampler[linux]" []) =
      .error (.runtimeError "No such node (exec_monitor.event)") := by
  obtain ⟨managers, registered⟩ := exists_registered WrittenTree 4
  have noFault : ∀ fault ∈ faults hopping, fault = none := by
    rw [← firstFault_eq_none_iff]
    rfl
  have accepted := ((checked_then_built registered hopping).2 (built 4 hopping)).mpr ⟨noFault, rfl⟩
  exact ⟨managers, registered, accepted, ((checked_then_built registered _).1 _).mpr rfl⟩

end Startup

end Aser
