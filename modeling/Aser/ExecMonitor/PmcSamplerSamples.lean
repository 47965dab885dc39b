import Aser.ExecMonitor.PmcSampler
import Aser.Perf.EventTelescope

namespace Aser

open Library MonitorClass Perf

namespace PmcSampler

/-- What was logged for event `i` of a process. -/
def reported (s : PmcSampler) (pid : Pid) (i : Nat) : List EventSample :=
  s.logged.filterMap fun e => if e.1 = pid then e.2[i]? else none

/-- The reference counters of an event are those that were read last, and the kernel can have returned
them. -/
structure Settled (slot : EventSlot) : Prop where
  reference : slot.event.count.getD .zero = slot.event.prev
  follows : slot.event.prev.Follows .zero

/-- All reads of the events of a manager succeed, with counters that follow those of the last time. -/
def Answers (mgr : EventManager) (answers : Nat → Except Int Counts) : Prop :=
  ∀ i slot, mgr.slots[i]? = some slot → ∃ count, answers i = .ok count ∧
    count.Follows (slot.event.count.getD .zero)

/-- The kernel's contract for the calls of a round. -/
def ReadsFollow (s : PmcSampler) : MonitorClass.Call KernelAnswers → Prop
  | .loopImpl answer => ∀ pid mgr, s.eventManagers.find? pid = some mgr → Answers mgr (answer.read pid)
  | .eventHandler _ _ => True

/-- The samples of every event add up to its reference counter. -/
structure Sampled (s : PmcSampler) : Prop where
  events : s.events.length = 2
  settled : ∀ {pid mgr}, s.eventManagers.find? pid = some mgr → ∀ slot ∈ mgr.slots, Settled slot
  sum : ∀ {pid mgr}, s.eventManagers.find? pid = some mgr → ∀ {i slot}, mgr.slots[i]? = some slot →
    ((s.reported pid i).map EventSample.scaled).sum = slot.event.prev.rawValue.toNat
  silent : ∀ {pid}, s.eventManagers.find? pid = none → ∀ i, s.reported pid i = []

variable {s s' : PmcSampler} {pid : Pid} {mgr : EventManager} {answer : KernelAnswers}
  {answers : Nat → Except Int Counts} {result : Except Exception Unit}

theorem Answers.answered (known : Answers mgr answers) :
    ∃ counts, EventManager.Answered mgr.slots.length answers counts := by
  rcases EventManager.answered_or_fails mgr.slots.length answers with answered | ⟨i, within, errno, fails⟩
  · exact answered
  · obtain ⟨count, atI, _⟩ := known i _ (List.getElem?_eq_getElem within)
    rw [fails] at atI
    cases atI

/-- Counters that follow the last ones are reported. -/
theorem Settled.reported {r : Reading} (settled : Settled r.1) (follows : r.2.Follows (r.1.event.count.getD .zero)) :
    r.Passes ∧ Settled (r.reported .relative) ∧
      (r.reported .relative).latestSample.scaled = r.2.rawValue.toNat - r.1.event.prev.rawValue.toNat := by
  rw [settled.reference] at follows
  have start := follows.trans settled.follows
  exact ⟨check_of_follows follows start, ⟨rfl, start⟩, (ScaledEvent.represents_span follows).scaled⟩

/-- A call of `read_events` on answers that obey the contract. -/
theorem readEvents_settled (settled : ∀ slot ∈ mgr.slots, Settled slot) (known : Answers mgr answers) :
    ∃ mgr', mgr.readEvents .relative answers = some (.ok mgr'.latestSamples, mgr') ∧
      (∀ slot ∈ mgr'.slots, Settled slot) ∧ ∀ (i : Nat) (slot' : EventSlot), mgr'.slots[i]? = some slot' →
        ∃ slot, mgr.slots[i]? = some slot ∧
          slot'.latestSample.scaled = slot'.event.prev.rawValue.toNat - slot.event.prev.rawValue.toNat := by
  obtain ⟨counts, answered⟩ := known.answered
  have each (i : Nat) (r : Reading) (atI : (mgr.slots.zip counts)[i]? = some r) : mgr.slots[i]? = some r.1 ∧
      Settled r.1 ∧ r.2.Follows (r.1.event.count.getD .zero) := by
    obtain ⟨atSlot, atCount⟩ := List.getElem?_zip_eq_some.mp atI
    obtain ⟨count, answer, follows⟩ := known i _ atSlot
    cases Except.ok.inj (answer.symm.trans (answered.2 i _ atCount))
    exact ⟨atSlot, settled _ (List.mem_of_getElem? atSlot), follows⟩
  have passes (r : Reading) (member : r ∈ mgr.slots.zip counts) : r.Passes := by
    obtain ⟨i, atI⟩ := List.mem_iff_getElem?.mp member
    obtain ⟨_, settled, follows⟩ := each i r atI
    exact (settled.reported follows).1
  rcases EventManager.scaleAll_cases .relative (mgr.slots.zip counts) with ⟨_, scaled⟩ |
    ⟨before, r, after, _, split, _, rejected, _⟩
  · refine ⟨⟨(mgr.slots.zip counts).map (Reading.reported .relative)⟩, ?_, ?_, ?_⟩
    · rw [EventManager.readEvents, EventManager.readAll_answered answered]
      simp only [scaled]
      rfl
    · intro slot' member
      obtain ⟨r, there, rfl⟩ := List.mem_map.mp member
      obtain ⟨i, atI⟩ := List.mem_iff_getElem?.mp there
      obtain ⟨_, settled, follows⟩ := each i r atI
      exact (settled.reported follows).2.1
    · intro i slot' atI
      rw [List.getElem?_map] at atI
      obtain ⟨r, atR, rfl⟩ := Option.map_eq_some_iff.mp atI
      obtain ⟨atSlot, settled, follows⟩ := each i r atR
      exact ⟨r.1, atSlot, (settled.reported follows).2.2⟩
  · exact absurd (passes r (by simp [split])) rejected

theorem reported_append (s : PmcSampler) (managers : OrderedMap Pid EventManager) (pid : Pid)
    (samples : List EventSample) (p : Pid) (i : Nat) :
    reported { s with eventManagers := managers, logged := s.logged ++ [(pid, samples)] } p i =
      s.reported p i ++ if pid = p then samples[i]?.toList else [] := by
  simp only [reported, List.filterMap_append]
  split
  · rename_i same
    cases at_ : samples[i]? <;> simp [same, at_]
  · rename_i other
    simp [other]

/-- One manager of a round. -/
theorem Sampled.read {mgr' : EventManager} (sampled : s.Sampled) (found : s.eventManagers.find? pid = some mgr)
    (settled : ∀ slot ∈ mgr'.slots, Settled slot)
    (samples : ∀ (i : Nat) (slot' : EventSlot), mgr'.slots[i]? = some slot' → ∃ slot, mgr.slots[i]? = some slot ∧
      slot'.latestSample.scaled = slot'.event.prev.rawValue.toNat - slot.event.prev.rawValue.toNat) :
    Sampled { s with
      eventManagers := s.eventManagers.insert pid mgr'
      logged := s.logged ++ [(pid, mgr'.latestSamples)] } := by
  refine ⟨sampled.events, ?_, ?_, ?_⟩
  · intro p m atP
    rw [OrderedMap.find?_insert] at atP
    split at atP
    · cases Option.some.inj atP
      exact settled
    · exact sampled.settled atP
  · intro p m atP i slot' atI
    rw [OrderedMap.find?_insert] at atP
    rw [reported_append]
    split at atP
    · rename_i same
      cases Option.some.inj atP
      obtain ⟨slot, before, difference⟩ := samples i slot' atI
      subst same
      rw [if_pos rfl, List.map_append, List.sum_append, sampled.sum found before]
      simp [EventManager.latestSamples, atI, difference]
    · rename_i other
      rw [if_neg (Ne.symm other), List.append_nil]
      exact sampled.sum atP atI
  · intro p notThere i
    rw [OrderedMap.find?_insert] at notThere
    rw [reported_append]
    split at notThere
    · cases notThere
    · rename_i other
      rw [if_neg (Ne.symm other), List.append_nil]
      exact sampled.silent notThere i

/-- A round on answers that obey the contract. -/
theorem Sampled.readManagers {pids : List Pid} (sampled : s.Sampled) (distinct : pids.Nodup)
    (follow : ∀ pid ∈ pids, ∀ mgr, s.eventManagers.find? pid = some mgr → Answers mgr (answer.read pid)) :
    ∃ s', PmcSampler.readManagers answer pids s = some (.ok (), s') ∧ s'.Sampled ∧
      ∀ pid, pid ∈ s.eventManagers.keys → pid ∈ s'.eventManagers.keys := by
  induction pids generalizing s with
  | nil => exact ⟨s, rfl, sampled, fun _ => id⟩
  | cons pid rest ih =>
    obtain ⟨notLater, distinct⟩ := List.nodup_cons.mp distinct
    rw [List.forall_mem_cons] at follow
    rw [PmcSampler.readManagers]
    cases found : s.eventManagers.find? pid with
    | none => exact ih sampled distinct follow.2
    | some mgr =>
      obtain ⟨mgr', reads, settled, samples⟩ := readEvents_settled (sampled.settled found) (follow.1 mgr found)
      obtain ⟨s', called, sampled', keys⟩ := ih (sampled.read found settled samples) distinct (by
        intro p later m atP
        have other : p ≠ pid := ne_of_mem_of_not_mem later notLater
        rw [OrderedMap.find?_insert, if_neg other] at atP
        exact follow.2 p later m atP)
      refine ⟨s', by simp only [reads, Option.bind_some, called], sampled', fun p member => ?_⟩
      exact keys p (OrderedMap.mem_keys_insert.mpr (.inr member))

theorem Sampled.addProcess (sampled : s.Sampled) (added : s.addProcess pid answer = some (result, s')) :
    s'.Sampled ∧ (result.toBool = true → pid ∈ s'.eventManagers.keys) ∧
      (∀ p, p ∈ s.eventManagers.keys → p ∈ s'.eventManagers.keys) := by
  obtain ⟨slots, opens, ⟨e, rfl, rfl⟩ | ⟨rfl, new, rfl⟩⟩ := addProcess_cases added
  · exact ⟨⟨sampled.events, sampled.settled, sampled.sum, sampled.silent⟩, by simp [Except.toBool], fun _ => id⟩
  · have unread : EventManager.Unread slots := by
      have fresh : EventManager.Unread (EventManager.make s.events).slots := by
        intro slot member
        obtain ⟨info, _, rfl⟩ := List.mem_map.mp member
        exact ⟨rfl, rfl⟩
      have kept : EventManager.Unread (EventManager.openAll pid true _ answer.perfEventOpen).2 :=
        EventManager.unread_openAll fresh
      rwa [opens] at kept
    refine ⟨⟨sampled.events, ?_, ?_, ?_⟩, fun _ => OrderedMap.mem_keys_insert.mpr (.inl rfl),
      fun p member => OrderedMap.mem_keys_insert.mpr (.inr member)⟩
    · intro p m atP slot member
      rw [OrderedMap.find?_insert] at atP
      split at atP
      · cases Option.some.inj atP
        obtain ⟨count, prev⟩ := unread slot member
        exact ⟨by rw [count, prev]; rfl, by rw [prev]; exact .refl _⟩
      · exact sampled.settled atP slot member
    · intro p m atP i slot atI
      rw [OrderedMap.find?_insert] at atP
      split at atP
      · rename_i same
        cases Option.some.inj atP
        have silent : s.reported p i = [] := sampled.silent (same ▸ OrderedMap.find?_eq_none.mpr new) i
        have kept : reported { s with
            eventManagers := s.eventManagers.insert pid ⟨slots⟩
            opened := EventManager.granted s.events.length answer.perfEventOpen ++ s.opened } p i = [] := silent
        rw [kept, (unread slot (List.mem_of_getElem? atI)).2]
        rfl
      · exact sampled.sum atP atI
    · intro p notThere i
      rw [OrderedMap.find?_insert] at notThere
      split at notThere
      · cases notThere
      · exact sampled.silent notThere i

theorem init_sampled (defaultEvents : GenericEvents) : (init defaultEvents).Sampled where
  events := rfl
  settled found := by simp [init] at found
  sum found := by simp [init] at found
  silent _ _ := rfl

/-- The kernel turns down an event of a new process. -/
def FailsToOpen : MonitorClass.Call KernelAnswers → Prop
  | .eventHandler answer _ => ∃ k < 2, ∃ errno, answer.perfEventOpen k = .error errno
  | .loopImpl _ => False

theorem addProcess_throws_iff (events : s.events.length = 2)
    (added : s.addProcess pid answer = some (result, s')) (event : ExecEvent) :
    result.toBool = false ↔ FailsToOpen (.eventHandler answer event) := by
  obtain ⟨slots, opens, _⟩ := addProcess_cases added
  have length : (EventManager.make s.events).slots.length = 2 := (List.length_map _).trans events
  have throws : (∃ thrown, result = .error thrown) ↔ _ := opens ▸ EventManager.openAll_throws_iff
  rw [FailsToOpen, ← length, ← throws]
  cases result <;> simp [Except.toBool]

open MonitoredExecution

theorem sampled_of_calls {defaultEvents : GenericEvents} {m : DerivedMonitor PmcSampler}
    {cs : List (Transition (DerivedMonitor PmcSampler) (MonitorClass.Call KernelAnswers))}
    (run : Run monitor.call { members := init defaultEvents } cs m)
    (follow : ∀ t ∈ cs, t.before.members.ReadsFollow t.action) :
    m.members.Sampled ∧ (m.terminated = true ↔ ∃ t ∈ cs, FailsToOpen t.action) ∧
      (m.terminated = false → ∀ event ∈ handledBy cs, event.pid ∈ m.members.eventManagers.keys) := by
  induction run with
  | start => exact ⟨init_sampled defaultEvents, by simp, fun _ event member => by simp [handledBy] at member⟩
  | @next cs m a m' previous taken ih =>
    rw [List.forall_mem_append, List.forall_mem_singleton] at follow
    obtain ⟨sampled, exact, told⟩ := ih follow.1
    obtain ⟨goesOn, result, outcome, terminated⟩ := call_cases taken
    have opened : ¬ ∃ t ∈ cs, FailsToOpen t.action := by
      rw [← exact, goesOn]
      exact Bool.false_ne_true
    have last : (∃ t ∈ cs ++ [⟨m, a, m'⟩], FailsToOpen t.action) ↔ FailsToOpen a := by
      simp only [List.mem_append, List.mem_singleton]
      constructor
      · rintro ⟨t, old | rfl, fails⟩
        · exact absurd ⟨t, old, fails⟩ opened
        · exact fails
      · intro fails
        exact ⟨_, .inr rfl, fails⟩
    rw [last]
    cases a with
    | loopImpl answer =>
      obtain ⟨s', called, sampled', keys⟩ := sampled.readManagers m.members.eventManagers.nodup_keys
        fun pid _ mgr found => follow.2 pid mgr found
      have same : some (result, m'.members) = some (.ok (), s') := outcome.symm.trans called
      cases same
      refine ⟨sampled', by simp [terminated, Except.toBool, FailsToOpen], fun _ event member => ?_⟩
      refine keys _ (told goesOn event ?_)
      simpa [handledBy, MonitorClass.Call.event] using member
    | eventHandler answer event =>
      obtain ⟨sampled', added, keys⟩ := sampled.addProcess outcome
      refine ⟨sampled', ?_, fun goesOn' other member => ?_⟩
      · rw [← addProcess_throws_iff sampled.events outcome, terminated]
        simp
      · rw [terminated] at goesOn'
        have member : other ∈ handledBy cs ∨ other = event := by
          simpa [handledBy, MonitorClass.Call.event] using member
        rcases member with old | rfl
        · exact keys _ (told goesOn other old)
        · exact added (by simpa using goesOn')

/-- As long as the kernel keeps its contract on the counters, nothing but an event that it does not open
ends the program. Every process that was handled is sampled then, and what the rounds reported of its
events adds up to what the kernel had counted by the last of them. The arithmetic is exact: the `double`s of
the code are rounded. -/
theorem samples_complete {defaultEvents : GenericEvents} {s : MonitoredExecution PmcSampler}
    {ts : List (Transition (MonitoredExecution PmcSampler) (Action KernelAnswers))}
    (run : Run (step monitor) { derived := { members := init defaultEvents } } ts s)
    (follow : ∀ t ∈ callsPart ts, t.before.members.ReadsFollow t.action) :
    (s.derived.terminated = true ↔ ∃ t ∈ callsPart ts, FailsToOpen t.action) ∧
    (s.derived.terminated = false → ∀ event ∈ s.manager.monitor.handled,
      ∃ mgr, s.derived.members.eventManagers.find? event.pid = some mgr) ∧
    ∀ (pid : Pid) (mgr : EventManager), s.derived.members.eventManagers.find? pid = some mgr →
      ∀ (i : Nat) (slot : EventSlot), mgr.slots[i]? = some slot →
        ((s.derived.members.reported pid i).map EventSample.scaled).sum =
          (slot.event.count.getD .zero).rawValue.toNat := by
  obtain ⟨sampled, exact, told⟩ := sampled_of_calls (calls_run run) follow
  rw [handledBy_calls run] at told
  refine ⟨exact, fun goesOn event member => OrderedMap.mem_keys.mp (told goesOn event member), ?_⟩
  intro pid mgr found i slot atI
  rw [sampled.sum found atI, (sampled.settled found slot (List.mem_of_getElem? atI)).reference]

/-- The contract of a call, tested manager by manager. -/
def readsFollow (s : PmcSampler) : MonitorClass.Call KernelAnswers → Bool
  | .loopImpl answer => s.eventManagers.entries.all fun e => e.2.slots.zipIdx.all fun (slot, i) =>
    (answer.read e.1 i).toOption.any fun count => count.Follows (slot.event.count.getD .zero)
  | .eventHandler _ _ => true

theorem readsFollow_sound {a : MonitorClass.Call KernelAnswers} (test : s.readsFollow a = true) : s.ReadsFollow a := by
  cases a with
  | eventHandler answer event => trivial
  | loopImpl answer =>
    intro pid mgr found i slot atI
    have each := List.all_eq_true.mp test (pid, mgr) (OrderedMap.find?_eq_some.mp found)
    have here := List.all_eq_true.mp each (slot, i) (List.mem_zipIdx_iff_getElem?.mpr atI)
    cases read : answer.read pid i with
    | error errno => simp [read, Except.toOption] at here
    | ok count => exact ⟨count, rfl, by simpa [read, Except.toOption] using here⟩

/-- The kernel that answers with these counters for the two events of a process. -/
def readsOf (cycles instructions : Counts) : KernelAnswers where
  perfEventOpen k := .ok (k + 3)
  read _ i := .ok (if i = 0 then cycles else instructions)

/-- A process in two rounds, with an event that runs half of the time. -/
theorem samples_complete_two : ∃ ts s, Run (step monitor) { derived := { members := init ⟨0, 1⟩ } } ts s ∧
    s.derived.terminated = false ∧ (s.derived.members.reported 7 0).length = 2 ∧
      ((s.derived.members.reported 7 0).map EventSample.scaled).sum = 16 := by
  obtain ⟨ts, s, run, test⟩ := run_of_trace_any (step monitor) { derived := { members := init ⟨0, 1⟩ } }
    [.outside (.monitor .doInitialize), .outside (.monitor (.enqueueEvent ⟨.processCreated, 7⟩)),
      .outside (.monitor .start), .thread (readsOf .zero .zero), .thread (readsOf .zero .zero),
      .thread (readsOf .zero .zero), .thread (readsOf .zero .zero), .thread (readsOf .zero .zero),
      .thread (readsOf ⟨6, 10, 5⟩ ⟨4, 10, 10⟩), .thread (readsOf .zero .zero), .thread (readsOf .zero .zero),
      .thread (readsOf ⟨16, 30, 15⟩ ⟨9, 30, 30⟩)]
    (fun ts => (callsPart ts).all (fun t => t.before.members.readsFollow t.action) && ts.getLast?.any fun t =>
      t.after.derived.terminated = false ∧ (t.after.derived.members.reported 7 0).length = 2 ∧
        (t.after.derived.members.eventManagers.find? 7).any fun mgr =>
          (mgr.slots[0]?).any fun slot => slot.event.count = some ⟨16, 30, 15⟩) (by decide +kernel)
  obtain ⟨follow, last⟩ := Bool.and_eq_true_iff.mp test
  obtain ⟨t, atLast, known⟩ := (Option.any_eq_true _ _).mp last
  obtain ⟨goesOn, two, known⟩ := of_decide_eq_true known
  obtain ⟨mgr, found, known⟩ := (Option.any_eq_true _ _).mp known
  obtain ⟨slot, atSlot, read⟩ := (Option.any_eq_true _ _).mp known
  rw [run.after_getLast atLast] at goesOn two found
  have sum := (samples_complete run fun t member => readsFollow_sound (List.all_eq_true.mp follow t member)).2.2 7 mgr
    found 0 slot atSlot
  rw [of_decide_eq_true read] at sum
  exact ⟨ts, s, run, goesOn, two, sum⟩

end PmcSampler

end Aser
