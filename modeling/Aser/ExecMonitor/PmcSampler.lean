import Aser.Core.DerivedMonitor
import Aser.Library.OrderedMap
import Aser.Perf.EventManagerOpen

namespace Aser

open Library MonitorClass Perf

/-- `generic_events`. -/
structure GenericEvents where
  cycles : UInt64
  instructions : UInt64
  deriving DecidableEq

/-- `create_generic_events` with the map of a Linux build, where `PERF_COUNT_HW_CPU_CYCLES` is 0 and
`PERF_COUNT_HW_INSTRUCTIONS` is 1. -/
def createGenericEvents (implName : String) : Except Exception GenericEvents :=
  if implName = "linux" then .ok ⟨0, 1⟩
  else if implName = "dummy" then .ok ⟨0, 0⟩
  else .error (.invalidArgument "Invalid event type")

/-- A `pmc_sampler` over `event_linux_impl`. `opened` are the descriptors of its events that the kernel has
open, `logged` records what each round wrote to the log for each process. -/
structure PmcSampler where
  events : List EventInfo
  eventManagers : OrderedMap Pid EventManager := .empty
  opened : List Int := []
  logged : List (Pid × List EventSample) := []

namespace PmcSampler

def init (defaultEvents : GenericEvents) : PmcSampler where
  events := [⟨.hardware, defaultEvents.cycles, 0⟩, ⟨.hardware, defaultEvents.instructions, 0⟩]

/-- What the kernel answers during one call: to each `perf_event_open` of `add_process`, and to each `read`
of the events of a process. -/
structure KernelAnswers where
  perfEventOpen : Nat → Except Int Int
  read : Pid → Nat → Except Int Counts

/-- The new manager is moved into the map as a whole, its events stay where they are. When its constructor
throws, the events there are destroyed. -/
def addProcess (s : PmcSampler) (pid : Pid) (answer : KernelAnswers) : Option (Except Exception Unit × PmcSampler) :=
  let (result, slots) := EventManager.openAll pid true (EventManager.make s.events).slots answer.perfEventOpen
  let opened := EventManager.granted s.events.length answer.perfEventOpen ++ s.opened
  match result with
  | .error e => some (.error e, { s with opened := opened.filter (· ∉ EventManager.destroy ⟨slots⟩) })
  | .ok () => match s.eventManagers.find? pid with
    | some _ => none
    | none => some (.ok (), { s with eventManagers := s.eventManagers.insert pid ⟨slots⟩, opened })

/-- The loop of `loop_impl` from the process `pid` on. -/
def readManagers (answer : KernelAnswers) : List Pid → PmcSampler → Option (Except Exception Unit × PmcSampler)
  | [], s => some (.ok (), s)
  | pid :: rest, s => match s.eventManagers.find? pid with
    | none => readManagers answer rest s
    | some mgr => (mgr.readEvents .relative (answer.read pid)).bind fun (result, mgr) =>
      let s := { s with eventManagers := s.eventManagers.insert pid mgr }
      match result with
      | .error e => some (.error e, s)
      | .ok samples => readManagers answer rest { s with logged := s.logged ++ [(pid, samples)] }

def loopImpl (answer : KernelAnswers) (s : PmcSampler) : Option (Except Exception Unit × PmcSampler) :=
  readManagers answer s.eventManagers.keys s

/-- `pmc_sampler` as the thread of its monitor runs it. -/
def monitor : MonitorClass KernelAnswers PmcSampler where
  loopImpl := loopImpl
  eventHandlers
    | .processCreated => some fun answer event s => s.addProcess event.pid answer

/-- What the destructor closes, manager by manager. -/
def destroy (s : PmcSampler) : List Int := s.eventManagers.entries.flatMap fun e => e.2.destroy

/-- The kernel returns numbers that are not in use, and 0 is in use elsewhere. -/
def Fresh (s : PmcSampler) (answer : KernelAnswers) : Prop :=
  0 ∉ EventManager.granted s.events.length answer.perfEventOpen ∧
    (EventManager.granted s.events.length answer.perfEventOpen ++ s.opened).Nodup

/-- The managers hold what is open, and each descriptor once. -/
structure Owned (s : PmcSampler) : Prop where
  held : s.destroy.Perm s.opened
  once : s.opened.Nodup

variable {s s' : PmcSampler} {pid : Pid} {answer : KernelAnswers} {result : Except Exception Unit}

theorem make_closed (events : List EventInfo) :
    ∀ slot ∈ (EventManager.make events).slots, slot.event.impl.fd = 0 := by
  intro slot member
  obtain ⟨info, _, rfl⟩ := List.mem_map.mp member
  rfl

/-- What a call of `add_process` that comes back has done. -/
theorem addProcess_cases (added : s.addProcess pid answer = some (result, s')) :
    ∃ slots, EventManager.openAll pid true (EventManager.make s.events).slots answer.perfEventOpen = (result, slots) ∧
      ((∃ e, result = .error e ∧ s' = { s with
          opened := (EventManager.granted s.events.length answer.perfEventOpen ++ s.opened).filter
            (· ∉ EventManager.destroy ⟨slots⟩) }) ∨
        result = .ok () ∧ pid ∉ s.eventManagers.keys ∧ s' = { s with
          eventManagers := s.eventManagers.insert pid ⟨slots⟩
          opened := EventManager.granted s.events.length answer.perfEventOpen ++ s.opened }) := by
  unfold addProcess at added
  rcases opens : EventManager.openAll pid true (EventManager.make s.events).slots answer.perfEventOpen with ⟨opened, slots⟩
  rw [opens] at added
  refine ⟨slots, ?_⟩
  cases opened with
  | error e =>
    cases Option.some.inj added
    exact ⟨rfl, .inl ⟨e, rfl, rfl⟩⟩
  | ok opened =>
    simp only at added
    split at added
    · simp at added
    · rename_i new
      cases Option.some.inj added
      exact ⟨rfl, .inr ⟨rfl, OrderedMap.find?_eq_none.mp new, rfl⟩⟩

theorem destroys_granted {slots : List EventSlot}
    (notZero : 0 ∉ EventManager.granted s.events.length answer.perfEventOpen)
    (opens : EventManager.openAll pid true (EventManager.make s.events).slots answer.perfEventOpen = (result, slots)) :
    EventManager.destroy ⟨slots⟩ = EventManager.granted s.events.length answer.perfEventOpen := by
  have length : (EventManager.make s.events).slots.length = s.events.length := List.length_map _
  rw [← length] at notZero ⊢
  rw [← EventManager.destroy_openAll (make_closed s.events) notZero, opens]

theorem init_owned (defaultEvents : GenericEvents) : (init defaultEvents).Owned where
  held := .refl _
  once := .nil

/-- A process that could not be added leaves nothing open. -/
theorem Owned.addProcess (owned : s.Owned) (fresh : s.Fresh answer)
    (added : s.addProcess pid answer = some (result, s')) : s'.Owned := by
  obtain ⟨slots, opens, ⟨e, _, rfl⟩ | ⟨_, new, rfl⟩⟩ := addProcess_cases added
  · have distinct := List.nodup_append.mp fresh.2
    have same : (EventManager.granted s.events.length answer.perfEventOpen ++ s.opened).filter
        (· ∉ EventManager.destroy ⟨slots⟩) = s.opened := by
      rw [destroys_granted fresh.1 opens, List.filter_append, List.filter_eq_nil_iff.mpr (by simp), List.nil_append,
        List.filter_eq_self]
      intro fd there
      simpa using fun held => distinct.2.2 fd held fd there rfl
    exact ⟨by simpa only [same] using owned.held, by simpa only [same] using owned.once⟩
  · have grown : (s.eventManagers.insert pid ⟨slots⟩).entries.Perm ((pid, ⟨slots⟩) :: s.eventManagers.entries) :=
      insertEntry_perm_of_new new
    refine ⟨(grown.flatMap_right _).trans ?_, fresh.2⟩
    rw [List.flatMap_cons, destroys_granted fresh.1 opens]
    exact owned.held.append_left _

/-- A manager may be replaced by one with the same descriptors. -/
theorem destroy_insert {mgr mgr' : EventManager} (found : s.eventManagers.find? pid = some mgr)
    (same : mgr'.destroy = mgr.destroy) (logged : List (Pid × List EventSample)) :
    destroy { s with eventManagers := s.eventManagers.insert pid mgr', logged } = s.destroy := by
  obtain ⟨before, after, split⟩ := List.append_of_mem (OrderedMap.find?_eq_some.mp found)
  have sorted := s.eventManagers.sorted
  rw [split] at sorted
  have entries : (s.eventManagers.insert pid mgr').entries = before ++ (pid, mgr') :: after := by
    simp only [OrderedMap.insert, split, insertEntry_overwrite sorted]
  simp only [destroy, entries, split, List.flatMap_append, List.flatMap_cons, same]

theorem Owned.readManagers {pids : List Pid} (owned : s.Owned)
    (called : PmcSampler.readManagers answer pids s = some (result, s')) : s'.Owned := by
  induction pids generalizing s with
  | nil =>
    cases Option.some.inj called
    exact owned
  | cons pid rest ih =>
    rw [PmcSampler.readManagers] at called
    split at called
    · exact ih owned called
    · rename_i mgr found
      obtain ⟨⟨read, mgr'⟩, reads, called⟩ := Option.bind_eq_some_iff.mp called
      have same := EventManager.destroy_readEvents reads
      have kept (logged : List (Pid × List EventSample)) :
          Owned { s with eventManagers := s.eventManagers.insert pid mgr', logged } := by
        refine ⟨?_, owned.once⟩
        rw [destroy_insert found same]
        exact owned.held
      cases read with
      | error e =>
        cases Option.some.inj called
        exact kept s.logged
      | ok samples => exact ih (kept _) called

/-- What the kernel promises of the descriptors that it hands out. -/
def OpensFresh (s : PmcSampler) : MonitorClass.Call KernelAnswers → Prop
  | .eventHandler answer _ => s.Fresh answer
  | .loopImpl _ => True

instance (s : PmcSampler) : (a : MonitorClass.Call KernelAnswers) → Decidable (s.OpensFresh a)
  | .eventHandler _ _ => inferInstanceAs (Decidable (_ ∧ _))
  | .loopImpl _ => isTrue trivial

open MonitoredExecution

/-- At every moment, also after a process that could not be added, exactly the descriptors that the
managers hold are open, each of them held once: the destructor closes every one of them, and none twice. -/
theorem descriptors_owned {defaultEvents : GenericEvents} {s : MonitoredExecution PmcSampler}
    {ts : List (Transition (MonitoredExecution PmcSampler) (Action KernelAnswers))}
    (run : Run (step monitor) { derived := { members := init defaultEvents } } ts s)
    (fresh : ∀ t ∈ callsPart ts, t.before.members.OpensFresh t.action) :
    s.derived.members.destroy.Perm s.derived.members.opened ∧ s.derived.members.opened.Nodup := by
  have owned : s.derived.members.Owned := by
    refine (calls_run run).invariant_of_guard (I := fun m => m.members.Owned)
      (G := fun m a => m.members.OpensFresh a) (init_owned defaultEvents) ?_ fresh
    intro m a m' owned fresh called
    obtain ⟨_, result, outcome, _⟩ := call_cases called
    cases a with
    | loopImpl answer => exact owned.readManagers outcome
    | eventHandler answer event => exact owned.addProcess fresh outcome
  exact ⟨owned.held, owned.once⟩

/-- The kernel that answers with the descriptors of a list, and with an error after them. -/
def opensOf (fds : List Int) : KernelAnswers where
  perfEventOpen k := (fds[k]?).elim (.error 24) .ok
  read _ _ := .error 5

/-- The second event of the second process cannot be opened: its first one is closed again. -/
theorem descriptors_owned_two : ∃ ts s, Run (step monitor) { derived := { members := init ⟨0, 1⟩ } } ts s ∧
    s.manager.monitor.handled.map ExecEvent.pid = [7, 8] ∧ s.derived.terminated = true ∧
      s.derived.members.destroy.Perm [3, 4] := by
  obtain ⟨ts, s, run, test⟩ := run_of_trace_any (step monitor) { derived := { members := init ⟨0, 1⟩ } }
    [.outside (.monitor .doInitialize), .outside (.monitor (.enqueueEvent ⟨.processCreated, 7⟩)),
      .outside (.monitor (.enqueueEvent ⟨.processCreated, 8⟩)), .outside (.monitor .start),
      .thread (opensOf []), .thread (opensOf []), .thread (opensOf [3, 4]), .thread (opensOf [5])]
    (fun ts => (callsPart ts).all (fun t => t.before.members.OpensFresh t.action) && ts.getLast?.any fun t =>
      t.after.manager.monitor.handled.map ExecEvent.pid = [7, 8] ∧ t.after.derived.terminated = true ∧
        t.after.derived.members.opened = [3, 4]) rfl
  obtain ⟨fresh, last⟩ := Bool.and_eq_true_iff.mp test
  obtain ⟨t, atLast, known⟩ := (Option.any_eq_true _ _).mp last
  obtain ⟨handled, terminated, opened⟩ := of_decide_eq_true known
  rw [run.after_getLast atLast] at handled terminated opened
  have owned := descriptors_owned run fun t member => of_decide_eq_true (List.all_eq_true.mp fresh t member)
  exact ⟨ts, s, run, handled, terminated, opened ▸ owned.1⟩

end PmcSampler

end Aser
