import Aser.Core.DerivedMonitor
import Aser.ExecMonitor.CpuHopperOverflow

namespace Aser

open Library MonitorClass

namespace CpuHopper

/-- `cpu_hopper` as the thread of its monitor runs it. -/
def monitor (osBind : Nat → Option String) : MonitorClass Unit CpuHopper where
  loopImpl _ h := some (h.hopProcesses osBind)
  eventHandlers
    | .processCreated => some fun _ event h => some (h.addProcess osBind event.pid)

/-- The CPU that a process was last bound to. -/
def lastBound (calls : List (Pid × Nat)) (pid : Pid) : Option Nat := calls.reverse.lookup pid

/-- No two processes were on one CPU after any of the calls. -/
def Apart (calls : List (Pid × Nat)) : Prop :=
  ∀ earlier, earlier <+: calls → ∀ p q cpu, lastBound earlier p = some cpu → lastBound earlier q = some cpu → p = q

/-- The mapping says where the processes were bound to, and they were apart all the time. -/
structure Tracked (h : CpuHopper) : Prop where
  known : ∀ pid, lastBound h.bindCalls pid = h.cpuMapping.find? pid
  apart : Apart h.bindCalls

/-- How a `cpu_hopper` on `n` CPUs can stand to the processes `pids` it was told of: the carousel turns,
or there is no CPU and no process, or one process too many has ended the program. -/
inductive Stands (n : Nat) (pids : List Pid) : DerivedMonitor CpuHopper → Prop
  | turning {h hole} (carousel : Carousel n h hole) (keys : h.cpuMapping.keys.Perm pids) :
      Stands n pids { members := h }
  | empty (noCpu : n = 0) (nothing : pids = []) : Stands n pids { members := init 0 }
  | exceeded {h} (count : pids.length = max n 1) : Stands n pids { members := h, terminated := true }

variable {n : Nat} {osBind : Nat → Option String} {h h' : CpuHopper} {hole : Nat} {pid : Pid} {pids : List Pid}
  {m m' : DerivedMonitor CpuHopper} {a : MonitorClass.Call Unit}

theorem lastBound_concat (calls : List (Pid × Nat)) (pid : Pid) (cpu : Nat) (p : Pid) :
    lastBound (calls ++ [(pid, cpu)]) p = if p = pid then some cpu else lastBound calls p := by
  rw [lastBound, List.reverse_append]
  exact OrderedMap.lookup_cons_ite ..

theorem init_tracked (n : Nat) : Tracked (init n) where
  known _ := rfl
  apart := by
    intro earlier within p q cpu atP
    rw [List.prefix_nil.mp within] at atP
    simp [lastBound] at atP

/-- A process may go where no process is. -/
theorem Tracked.bindProcess (t : Tracked h) {cpu : Nat} (free : cpu ∉ h.cpuMapping.values) :
    Tracked (h.bindProcess osBind pid cpu) := by
  have elsewhere (p : Pid) : lastBound h.bindCalls p ≠ some cpu := by
    rw [t.known]
    exact fun found => free (OrderedMap.mem_values_of_find? found)
  refine ⟨fun p => ?_, ?_⟩
  · simp [CpuHopper.bindProcess, lastBound_concat, t.known]
  · intro earlier within p q there atP atQ
    rcases List.prefix_concat_iff.mp within with rfl | before
    · rw [lastBound_concat] at atP atQ
      split at atP <;> split at atQ
      · simp_all
      · cases atP
        exact absurd atQ (elsewhere q)
      · cases atQ
        exact absurd atP (elsewhere p)
      · exact t.apart h.bindCalls List.prefix_rfl p q there atP atQ
    · exact t.apart earlier before p q there atP atQ

theorem Tracked.hopProcess (t : Tracked h) (c : Carousel n h hole) (cpu : Nat) :
    Tracked (h.hopProcess osBind pid cpu).2 := by
  have bound : Tracked (h.bindProcess osBind pid hole) := t.bindProcess (List.nodup_cons.mp c.nodup).1
  simp only [CpuHopper.hopProcess, c.findAvailableCpu]
  exact ⟨bound.known, bound.apart⟩

theorem Tracked.hopFrom {visited todo : List (Pid × Nat)} (t : Tracked h) (c : Carousel n h hole)
    (split : h.cpuMapping.entries = visited ++ todo) : Tracked (h.hopFrom osBind (todo.map Prod.fst)).2 := by
  induction todo generalizing h hole visited with
  | nil => exact t
  | cons e rest ih =>
    obtain ⟨pid, cpu⟩ := e
    obtain ⟨h₁, hopped, c₁, entries⟩ := c.hopProcess osBind split
    have found : h.cpuMapping.find? pid = some cpu := by
      rw [OrderedMap.find?_eq_some, split]
      simp
    have t₁ : Tracked h₁ := by
      have moved : Tracked (h.hopProcess osBind pid cpu).2 := t.hopProcess c cpu
      rwa [hopped] at moved
    have split₁ : h₁.cpuMapping.entries = (visited ++ [(pid, hole)]) ++ rest := by simp [entries]
    simpa only [List.map_cons, CpuHopper.hopFrom, found, hopped] using ih t₁ c₁ split₁

theorem Stands.loopImpl (stands : Stands n pids m) (tracked : Tracked m.members)
    (taken : (monitor osBind).call m (.loopImpl ()) = some m') : Stands n pids m' ∧ Tracked m'.members := by
  cases stands with
  | @turning h hole c keys =>
    obtain ⟨h', hole', hopped, c', same, _⟩ := c.hopProcesses osBind
    have tracked' : Tracked (h.hopProcesses osBind).2 :=
      tracked.hopFrom c (List.nil_append h.cpuMapping.entries).symm
    rw [hopped] at tracked'
    obtain rfl := call_returned taken (congrArg some hopped)
    exact ⟨.turning c' (same ▸ keys), tracked'⟩
  | empty noCpu nothing =>
    have idle : (init 0).hopProcesses osBind = (.ok (), init 0) := init_full.hopProcesses
    obtain rfl := call_returned taken (congrArg some idle)
    exact ⟨.empty noCpu nothing, tracked⟩
  | exceeded count => cases (call_cases taken).1

theorem Stands.addProcess {event : ExecEvent} (stands : Stands n pids m) (tracked : Tracked m.members)
    (new : event.pid ∉ pids) (taken : (monitor osBind).call m (.eventHandler () event) = some m') :
    Stands n (pids ++ [event.pid]) m' ∧ Tracked m'.members := by
  cases stands with
  | @turning h hole c keys =>
    have fresh : event.pid ∉ h.cpuMapping.keys := fun member => new (keys.mem_iff.mp member)
    have size : h.cpuMapping.size = pids.length := by rw [← OrderedMap.size_keys, keys.length_eq]
    have bound : Tracked (h.bindProcess osBind event.pid hole) :=
      tracked.bindProcess (List.nodup_cons.mp c.nodup).1
    have added : h.addProcess osBind event.pid = _ := c.addProcess_eq fresh
    by_cases last : h.cpuMapping.size + 1 = n
    · rw [if_pos last] at added
      obtain rfl := call_thrown taken (congrArg some added)
      refine ⟨.exceeded ?_, bound⟩
      rw [List.length_append, List.length_singleton]
      omega
    · rw [if_neg last] at added
      obtain rfl := call_returned taken (congrArg some added)
      refine ⟨.turning (c.addProcess osBind fresh added).1 ?_, bound⟩
      have grown : (h.cpuMapping.insert event.pid hole).keys.Perm (event.pid :: h.cpuMapping.keys) :=
        (insertEntry_perm_of_new fresh).map Prod.fst
      exact grown.trans ((keys.cons _).trans (List.perm_append_singleton _ _).symm)
  | empty noCpu nothing =>
    have full : (init 0).addProcess osBind event.pid = _ := init_full.addProcess event.pid
    obtain rfl := call_thrown taken (congrArg some full)
    exact ⟨.exceeded (by simp [noCpu, nothing]), tracked⟩
  | exceeded count => cases (call_cases taken).1

theorem Stands.terminated_iff (stands : Stands n pids m) :
    pids.length ≤ max n 1 ∧ (m.terminated = true ↔ pids.length = max n 1) := by
  cases stands with
  | turning c keys =>
    have size := keys.length_eq
    have spare := c.spare
    rw [OrderedMap.size_keys] at size
    simp only [Bool.false_eq_true, false_iff]
    omega
  | empty noCpu nothing => simp [noCpu, nothing]
  | exceeded count => simp [count]

theorem Stands.placed (stands : Stands n pids m) (tracked : Tracked m.members) (goesOn : m.terminated = false)
    (positive : 0 < n) : false ∈ m.members.allocatedCpus ∧ ∀ pid ∈ pids, ∃ cpu < n,
      m.members.allocatedCpus[cpu]? = some true ∧ lastBound m.members.bindCalls pid = some cpu := by
  cases stands with
  | turning c keys =>
    refine ⟨List.mem_of_getElem? ((c.free_iff c.hole_le).mpr rfl), fun pid told => ?_⟩
    obtain ⟨cpu, found⟩ := OrderedMap.mem_keys.mp (keys.mem_iff.mpr told)
    have member := OrderedMap.mem_values_of_find? found
    have upper := c.value_le member
    have spare := c.spare
    exact ⟨cpu, by omega, (c.allocated_iff cpu).mpr member, (tracked.known pid).trans found⟩
  | empty noCpu => omega
  | exceeded => cases goesOn

/-- The processes that the calls of a run were made for. -/
theorem stands_of_calls {cs : List (Transition (DerivedMonitor CpuHopper) (MonitorClass.Call Unit))}
    (run : Run (monitor osBind).call { members := init n } cs m)
    (distinct : ((handledBy cs).map ExecEvent.pid).Nodup) :
    Stands n ((handledBy cs).map ExecEvent.pid) m ∧ Tracked m.members := by
  induction run with
  | start =>
    refine ⟨?_, init_tracked n⟩
    rcases Nat.eq_zero_or_pos n with rfl | positive
    · exact .empty rfl rfl
    · exact .turning (init_carousel positive) (.refl _)
  | @next cs m a m' previous taken ih =>
    have more : (handledBy (cs ++ [⟨m, a, m'⟩])).map ExecEvent.pid =
        (handledBy cs).map ExecEvent.pid ++ (a.event.map ExecEvent.pid).toList := by
      cases a <;> simp [handledBy, MonitorClass.Call.event]
    rw [more, List.nodup_append] at distinct
    obtain ⟨stands, tracked⟩ := ih distinct.1
    rw [more]
    cases a with
    | loopImpl answer => simpa [MonitorClass.Call.event] using stands.loopImpl tracked taken
    | eventHandler answer event =>
      refine stands.addProcess tracked (fun old => ?_) taken
      exact distinct.2.2 event.pid old event.pid (by simp [MonitorClass.Call.event]) rfl

open MonitoredExecution

variable {s : MonitoredExecution CpuHopper} {ts : List (Transition (MonitoredExecution CpuHopper) (Action Unit))}

theorem stands_of_run (run : Run (step (monitor osBind)) { derived := { members := init n } } ts s)
    (distinct : (s.manager.enqueued.map ExecEvent.pid).Nodup) :
    Stands n (s.manager.monitor.handled.map ExecEvent.pid) s.derived ∧ Tracked s.derived.members := by
  rw [← handledBy_calls run]
  refine stands_of_calls (calls_run run) (distinct.sublist (List.Sublist.map _ ?_))
  rw [handledBy_calls run, ← (accounted run).events]
  exact List.sublist_append_left _ _

/-- On `n` CPUs the monitor ends the program exactly when it is told of the `n`-th process, on none or one
exactly when it is told of the first; no round of hops does. As long as it goes on, every process that it
was told of is on a CPU of its own, where it was last bound to, and a CPU is left. -/
theorem terminates_iff (run : Run (step (monitor osBind)) { derived := { members := init n } } ts s)
    (distinct : (s.manager.enqueued.map ExecEvent.pid).Nodup) :
    s.manager.monitor.handled.length ≤ max n 1 ∧
    (s.derived.terminated = true ↔ s.manager.monitor.handled.length = max n 1) ∧
    (s.derived.terminated = false → 0 < n → false ∈ s.derived.members.allocatedCpus ∧
      ∀ event ∈ s.manager.monitor.handled, ∃ cpu < n, s.derived.members.allocatedCpus[cpu]? = some true ∧
        lastBound s.derived.members.bindCalls event.pid = some cpu) := by
  obtain ⟨stands, tracked⟩ := stands_of_run run distinct
  obtain ⟨bound, exact⟩ := stands.terminated_iff
  rw [List.length_map] at bound exact
  refine ⟨bound, exact, fun goesOn positive => ?_⟩
  obtain ⟨free, placed⟩ := stands.placed tracked goesOn positive
  exact ⟨free, fun event told => placed event.pid (List.mem_map_of_mem told)⟩

/-- Two processes on two CPUs: the second one is bound to the last CPU, and the program is over. -/
theorem terminates_iff_two : ∃ ts s, Run (step (monitor fun _ => none)) { derived := { members := init 2 } } ts s ∧
    s.manager.monitor.handled.map ExecEvent.pid = [7, 4] ∧ s.derived.members.bindCalls = [(7, 0), (4, 1)] ∧
      s.derived.terminated = true := by
  obtain ⟨ts, s, run, _, test⟩ := run_of_exec_any (step (monitor fun _ => none)) { derived := { members := init 2 } }
    [.outside (.monitor .doInitialize), .outside (.monitor (.enqueueEvent ⟨.processCreated, 7⟩)),
      .outside (.monitor (.enqueueEvent ⟨.processCreated, 4⟩)), .outside (.monitor .prepare),
      .outside (.monitor .start), .thread (), .thread (), .thread (), .thread ()]
    (fun s => s.manager.enqueued.map ExecEvent.pid = [7, 4] ∧ s.manager.monitor.handled.map ExecEvent.pid = [7, 4] ∧
      s.derived.members.bindCalls = [(7, 0), (4, 1)]) rfl
  obtain ⟨enqueued, handled, calls⟩ := of_decide_eq_true test
  have two := congrArg List.length handled
  rw [List.length_map] at two
  exact ⟨ts, s, run, handled, calls, (terminates_iff run (by rw [enqueued]; decide)).2.1.mpr two⟩

/-- Whatever the order of the steps, and also between two hops of one round: no two processes are bound to
one CPU. -/
theorem apart_at_every_moment (run : Run (step (monitor osBind)) { derived := { members := init n } } ts s)
    (distinct : (s.manager.enqueued.map ExecEvent.pid).Nodup) : Apart s.derived.members.bindCalls :=
  (stands_of_run run distinct).2.apart

/-- The second process hops first: its place is taken in the middle of the round. -/
theorem apart_at_every_moment_round : ∃ ts s,
    Run (step (monitor fun _ => none)) { derived := { members := init 3 } } ts s ∧
    s.derived.members.bindCalls = [(7, 0), (4, 1), (4, 2), (7, 1)] ∧ Apart [(7, 0), (4, 1), (4, 2), (7, 1)] := by
  obtain ⟨ts, s, run, _, test⟩ := run_of_exec_any (step (monitor fun _ => none)) { derived := { members := init 3 } }
    [.outside (.monitor .doInitialize), .outside (.monitor (.enqueueEvent ⟨.processCreated, 7⟩)),
      .outside (.monitor (.enqueueEvent ⟨.processCreated, 4⟩)), .outside (.monitor .start),
      .thread (), .thread (), .thread (), .thread (), .thread (), .thread (), .thread ()]
    (fun s => s.manager.enqueued.map ExecEvent.pid = [7, 4] ∧
      s.derived.members.bindCalls = [(7, 0), (4, 1), (4, 2), (7, 1)]) rfl
  obtain ⟨enqueued, calls⟩ := of_decide_eq_true test
  exact ⟨ts, s, run, calls, calls ▸ apart_at_every_moment run (by rw [enqueued]; decide)⟩

/-- When `join` returns after an execution that ended in time, there were processes for all CPUs but one at
most, and each of them was bound. -/
theorem bound_when_joined (run : Run (step (monitor osBind)) { derived := { members := init n } } ts s)
    (distinct : (s.manager.enqueued.map ExecEvent.pid).Nodup) (joined : s.manager.monitor.thread = .joined)
    (inTime : ∀ t ∈ ts, t.before.manager.EndsInTime t.action.manager) :
    s.manager.announced.length < max n 1 ∧ ∀ event ∈ s.manager.announced, ∃ cpu < n,
      lastBound s.derived.members.bindCalls event.pid = some cpu := by
  obtain ⟨stands, tracked⟩ := stands_of_run run distinct
  obtain ⟨bound, exact⟩ := stands.terminated_iff
  have handled := delivered run joined inTime
  have fewer := handled.length_le
  have goesOn : s.derived.terminated = false := by
    by_contra terminated
    have processing := terminated_phase run (by simpa using terminated)
    rw [joined] at processing
    cases processing
  rw [goesOn, List.length_map] at exact
  rw [List.length_map] at bound
  have less : s.manager.monitor.handled.length ≠ max n 1 := fun full => by simp [full] at exact
  refine ⟨by omega, fun event announced => ?_⟩
  have told : event ∈ s.manager.monitor.handled := handled.subset announced
  rcases Nat.eq_zero_or_pos n with rfl | positive
  · have some := List.length_pos_of_mem told
    omega
  · obtain ⟨cpu, within, _, last⟩ := (stands.placed tracked goesOn positive).2 event.pid (List.mem_map_of_mem told)
    exact ⟨cpu, within, last⟩

/-- A process on two CPUs, and an execution that ends while the thread is in its loop. -/
theorem bound_when_joined_one : ∃ ts s, Run (step (monitor fun _ => none)) { derived := { members := init 2 } } ts s ∧
    s.manager.monitor.thread = .joined ∧ s.manager.announced = [⟨.processCreated, 7⟩] ∧
      ∃ cpu < 2, lastBound s.derived.members.bindCalls 7 = some cpu := by
  obtain ⟨ts, s, run, test⟩ := run_of_trace_any (step (monitor fun _ => none)) { derived := { members := init 2 } }
    [.outside (.monitor .doInitialize), .outside (.monitor (.enqueueEvent ⟨.processCreated, 7⟩)),
      .outside (.monitor .start), .thread (), .outside .executionEnd, .thread (), .thread (), .thread (), .thread (),
      .outside (.monitor .join)]
    (fun ts => ts.all (fun t => t.before.manager.EndsInTime t.action.manager) && ts.getLast?.any fun t =>
      t.after.manager.monitor.thread = .joined ∧ t.after.manager.announced = [⟨.processCreated, 7⟩] ∧
        t.after.manager.enqueued = [⟨.processCreated, 7⟩]) rfl
  obtain ⟨inTime, last⟩ := Bool.and_eq_true_iff.mp test
  obtain ⟨t, atLast, known⟩ := (Option.any_eq_true _ _).mp last
  obtain ⟨joined, announced, enqueued⟩ := of_decide_eq_true known
  rw [run.after_getLast atLast] at joined announced enqueued
  have bound := (bound_when_joined run (by rw [enqueued]; decide) joined
    fun t member => of_decide_eq_true (List.all_eq_true.mp inTime t member)).2
  rw [announced] at bound
  exact ⟨ts, s, run, joined, announced, bound _ (List.mem_singleton_self _)⟩

end CpuHopper

end Aser
