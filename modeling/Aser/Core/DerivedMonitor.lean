import Aser.Core.ExecMonitorEvents

namespace Aser

open Library

/-- A class derived from `exec_monitor`, as far as the thread of the monitor runs its code: `loop_impl`, and
what its constructor has registered for each type of event. `σ` holds the members that the class adds, `ι`
what the outside answers during one call. A call that throws leaves behind what it had changed; `none` is
a call in which an assertion fails. -/
structure MonitorClass (ι σ : Type*) where
  loopImpl : ι → σ → Option (Except Exception Unit × σ)
  eventHandlers : EventType → Option (ι → ExecEvent → σ → Option (Except Exception Unit × σ))

/-- The members of a derived monitor. An exception that gets out of the function of the thread ends the
whole program, by `std::terminate`. -/
structure DerivedMonitor (σ : Type*) where
  members : σ
  terminated : Bool := false

namespace MonitorClass

variable {ι σ : Type*}

/-- What the thread of the monitor calls in a derived class. -/
inductive Call (ι : Type*)
  | loopImpl (answer : ι)
  | eventHandler (answer : ι) (event : ExecEvent)

/-- The event that a call is made for. -/
def Call.event : Call ι → Option ExecEvent
  | .loopImpl _ => none
  | .eventHandler _ event => some event

def eventHandler (c : MonitorClass ι σ) (answer : ι) (event : ExecEvent) (members : σ) :
    Option (Except Exception Unit × σ) :=
  match c.eventHandlers event.type with
  | none => some (.ok (), members)
  | some func => func answer event members

def outcome (c : MonitorClass ι σ) (members : σ) : Call ι → Option (Except Exception Unit × σ)
  | .loopImpl answer => c.loopImpl answer members
  | .eventHandler answer event => c.eventHandler answer event members

/-- One call. Nothing is called any more once one of them has thrown. -/
def call (c : MonitorClass ι σ) (m : DerivedMonitor σ) (a : Call ι) : Option (DerivedMonitor σ) :=
  if m.terminated then none else (c.outcome m.members a).map fun (result, members) =>
    { members, terminated := !result.toBool }

variable {c : MonitorClass ι σ} {m m' : DerivedMonitor σ} {a : Call ι}

theorem call_cases (taken : c.call m a = some m') : m.terminated = false ∧
    ∃ result, c.outcome m.members a = some (result, m'.members) ∧ m'.terminated = !result.toBool := by
  unfold call at taken
  split at taken
  · simp at taken
  · rename_i goesOn
    obtain ⟨⟨result, members⟩, outcome, rfl⟩ := Option.map_eq_some_iff.mp taken
    exact ⟨by simpa using goesOn, result, outcome, rfl⟩

theorem call_returned {members : σ} (taken : c.call m a = some m')
    (returned : c.outcome m.members a = some (.ok (), members)) : m' = { members } := by
  obtain ⟨_, result, outcome, terminated⟩ := call_cases taken
  cases Option.some.inj (returned.symm.trans outcome)
  cases m'
  cases terminated
  rfl

theorem call_thrown {members : σ} {e : Exception} (taken : c.call m a = some m')
    (thrown : c.outcome m.members a = some (.error e, members)) : m' = { members, terminated := true } := by
  obtain ⟨_, result, outcome, terminated⟩ := call_cases taken
  cases Option.some.inj (thrown.symm.trans outcome)
  cases m'
  cases terminated
  rfl

/-- The events that the calls of a run were made for. -/
def handledBy (cs : List (Transition (DerivedMonitor σ) (Call ι))) : List ExecEvent :=
  cs.filterMap fun t => t.action.event

end MonitorClass

/-- An `exec_manager` whose monitor is of a derived class. -/
structure MonitoredExecution (σ : Type*) where
  manager : ExecManager := {}
  derived : DerivedMonitor σ

/-- The events in `pending` are handled, or a call of `process_events` that is under way will do so. -/
def ExecManager.Settles (pending : List ExecEvent) (s : ExecManager) : Prop :=
  pending <+: s.enqueued ∧ (pending <+: s.monitor.handled ∨ s.monitor.thread = .processing)

theorem ExecManager.Settles.step {pending : List ExecEvent} {s s' : ExecManager} {a : ExecManager.Action}
    (known : s.Accounted) (settles : s.Settles pending) (taken : s.step a = some s') : s'.Settles pending := by
  obtain ⟨within, settles⟩ := settles
  cases a with
  | executionEnd =>
    cases Option.some.inj taken
    exact ⟨within, settles⟩
  | monitor action =>
    obtain ⟨m, moved, rfl⟩ := Option.map_eq_some_iff.mp taken
    have goesOn : s.monitor.thread ≠ .processing → pending <+: s.monitor.handled :=
      fun other => settles.resolve_right other
    cases ExecMonitor.change_of_step moved with
    | enqueue event => exact ⟨within.trans (List.prefix_append _ _), settles⟩
    | start idle => exact ⟨within, .inl (goesOn (by simp [idle]))⟩
    | leave tests _ | enter tests _ => exact ⟨within, .inl (goesOn (by simp [tests]))⟩
    | loopImpl loops => exact ⟨within, .inr rfl⟩
    | drained processes empty =>
      have all : s.monitor.handled = s.enqueued := by
        have events := known.events
        rwa [empty, List.append_nil] at events
      exact ⟨within, .inl (all ▸ within)⟩
    | handle processes front => exact ⟨within, .inr processes⟩
    | join ended => exact ⟨within, .inl (goesOn (by simp [ended]))⟩
    | other thread eventQueue handled nothing =>
      rw [ExecManager.record_other nothing]
      exact ⟨within, by simpa only [thread, handled] using settles⟩

namespace MonitoredExecution

open MonitorClass (Call handledBy)

variable {ι σ : Type*}

/-- A step outside of the thread of the monitor, or one of that thread. -/
inductive Action (ι : Type*)
  | outside (action : ExecManager.Action)
  | thread (answer : ι)

def Action.manager : Action ι → ExecManager.Action
  | .outside action => action
  | .thread _ => .monitor .thread

/-- Nobody else makes the steps of that thread. -/
def Action.proper : Action ι → Bool
  | .outside action => action ≠ .monitor .thread
  | .thread _ => true

/-- The call of the derived class that is the next thing the thread does, if it is one. -/
def ownCall (s : MonitoredExecution σ) : Action ι → Option (Call ι)
  | .outside _ => none
  | .thread answer => match s.manager.monitor.thread, s.manager.monitor.eventQueue with
    | .looping, _ => some (.loopImpl answer)
    | .processing, event :: _ => some (.eventHandler answer event)
    | _, _ => none

/-- A step of the manager, with the call that the thread of the monitor makes in it. Once the program is
terminated there are no steps, and where that thread stands means nothing. -/
def step (c : MonitorClass ι σ) (s : MonitoredExecution σ) (a : Action ι) : Option (MonitoredExecution σ) :=
  if s.derived.terminated ∨ ¬ a.proper then none else
    (s.manager.step a.manager).bind fun manager =>
      (optionalStep c.call s.derived (s.ownCall a)).map fun derived => { manager, derived }

variable {c : MonitorClass ι σ} {s s' : MonitoredExecution σ} {a : Action ι} {members : σ}
  {ts : List (Transition (MonitoredExecution σ) (Action ι))}

theorem step_cases (taken : s.step c a = some s') : s.derived.terminated = false ∧ a.proper = true ∧
    s.manager.step a.manager = some s'.manager ∧
    optionalStep c.call s.derived (s.ownCall a) = some s'.derived := by
  unfold step at taken
  split at taken
  · simp at taken
  · rename_i goesOn
    obtain ⟨manager, managed, taken⟩ := Option.bind_eq_some_iff.mp taken
    obtain ⟨derived, called, rfl⟩ := Option.map_eq_some_iff.mp taken
    simp only [not_or, Bool.not_eq_true] at goesOn
    exact ⟨goesOn.1, by simpa using goesOn.2, managed, called⟩

/-- The transitions of the manager in a run. -/
def managerPart (ts : List (Transition (MonitoredExecution σ) (Action ι))) :
    List (Transition ExecManager ExecManager.Action) :=
  ts.filterMap (Transition.project MonitoredExecution.manager fun _ a => some a.manager)

/-- The calls of the derived class in a run. -/
def callsPart (ts : List (Transition (MonitoredExecution σ) (Action ι))) :
    List (Transition (DerivedMonitor σ) (Call ι)) :=
  ts.filterMap (Transition.project MonitoredExecution.derived ownCall)

/-- A monitor of a derived class is a monitor. -/
theorem manager_run (run : Run (step c) { derived := { members } } ts s) :
    Run ExecManager.step {} (managerPart ts) s.manager := by
  refine run.project (f := MonitoredExecution.manager) (g := fun _ a => some a.manager) (I := fun _ => True)
    (fun _ => trivial) ?_
  intro s a s' _ taken
  exact (step_cases taken).2.2.1

/-- What happens to the members is one call after the other. -/
theorem calls_run (run : Run (step c) { derived := { members } } ts s) :
    Run c.call { members } (callsPart ts) s.derived :=
  run.project (f := MonitoredExecution.derived) (g := ownCall) (I := fun _ => True) (fun _ => trivial)
    fun _ taken => (step_cases taken).2.2.2

/-- A step hands at most one event to a handler, the one that its call is made for. -/
theorem handled_step (taken : s.step c a = some s') : s'.manager.monitor.handled =
    s.manager.monitor.handled ++ ((s.ownCall a).bind Call.event).toList := by
  obtain ⟨_, proper, managed, _⟩ := step_cases taken
  cases a with
  | outside action =>
    cases action with
    | executionEnd =>
      have same : { s.manager with executionEnded := true } = s'.manager := Option.some.inj managed
      simp [← same, ownCall]
    | monitor action =>
      obtain ⟨m, moved, same⟩ := Option.map_eq_some_iff.mp managed
      rw [← same, ExecManager.record_monitor]
      cases ExecMonitor.change_of_step moved with
      | leave | enter | loopImpl | drained | handle => simp [Action.proper] at proper
      | other _ _ handled _ => simp [handled, ownCall]
      | _ => simp [ownCall]
  | thread answer =>
    obtain ⟨m, moved, same⟩ := Option.map_eq_some_iff.mp managed
    have moved : s.manager.monitor.threadStep s.manager.executionEnded = some m := moved
    rw [← same, ExecManager.record_monitor, ExecMonitor.threadStep_handled moved]
    cases phase : s.manager.monitor.thread with
    | processing => cases queue : s.manager.monitor.eventQueue <;> simp [ownCall, phase, queue, Call.event]
    | _ => simp [ownCall, phase, Call.event]

/-- The handlers get the events in the order of the queue, and the calls of a run are all there is. -/
theorem handledBy_calls (run : Run (step c) { derived := { members } } ts s) :
    handledBy (callsPart ts) = s.manager.monitor.handled := by
  induction run with
  | start => rfl
  | @next ts s a s' previous taken ih =>
    have one : handledBy (callsPart [⟨s, a, s'⟩]) = ((s.ownCall a).bind Call.event).toList := by
      cases call : s.ownCall a with
      | none => simp [handledBy, callsPart, Transition.project, call]
      | some own => cases event : own.event <;> simp [handledBy, callsPart, Transition.project, call, event]
    rw [handled_step taken, ← ih, ← one, callsPart, List.filterMap_append]
    exact List.filterMap_append

/-- The thread of the monitor calls `loop_impl`. -/
def Loops (t : Transition (MonitoredExecution σ) (Action ι)) : Prop :=
  ∃ answer, t.before.ownCall t.action = some (.loopImpl answer)

/-- The thread goes on to `process_events` then. -/
theorem Loops.manager {t : Transition (MonitoredExecution σ) (Action ι)} (loops : Loops t) :
    t.before.manager.monitor.thread = .looping ∧ (t.before.step c t.action = some t.after →
      t.after.manager = { t.before.manager with
        monitor := { t.before.manager.monitor with thread := .processing } }) := by
  obtain ⟨answer, own⟩ := loops
  cases action : t.action with
  | outside action => simp [action, ownCall] at own
  | thread answer =>
    simp only [action, ownCall] at own
    split at own
    · rename_i looping
      refine ⟨looping, fun taken => ?_⟩
      obtain ⟨_, _, managed, _⟩ := step_cases taken
      simp only [Action.manager, ExecManager.step, ExecMonitor.step, ExecMonitor.threadStep, looping] at managed
      exact (Option.some.inj managed).symm
    all_goals simp at own

theorem accounted (run : Run (step c) { derived := { members } } ts s) : s.manager.Accounted :=
  ExecManager.accounted_of_run (manager_run run)

/-- An event that was in the queue when the thread called `loop_impl` is handled before it does so again. -/
theorem handled_within_a_round {earlier between later : List (Transition (MonitoredExecution σ) (Action ι))}
    {t₁ t₂ : Transition (MonitoredExecution σ) (Action ι)}
    (run : Run (step c) { derived := { members } } (earlier ++ t₁ :: (between ++ t₂ :: later)) s)
    (first : Loops t₁) (second : Loops t₂) :
    t₁.before.manager.enqueued <+: t₂.before.manager.monitor.handled := by
  obtain ⟨_, reached, run⟩ := run.split
  obtain ⟨rfl, taken, run⟩ := run.head
  obtain ⟨_, run, later⟩ := run.split
  obtain ⟨rfl, _, _⟩ := later.head
  have known : t₁.after.manager.Accounted := accounted (reached.next taken)
  have settles : t₁.after.manager.Settles t₁.before.manager.enqueued := by
    rw [(first.manager (c := c)).2 taken]
    exact ⟨List.prefix_rfl, .inr rfl⟩
  have both := run.invariant (I := fun s => s.manager.Accounted ∧ s.manager.Settles t₁.before.manager.enqueued)
    ⟨known, settles⟩ fun both taken =>
      have managed := (step_cases taken).2.2.1
      ⟨ExecManager.accounted_step both.1 managed, both.2.step both.1 managed⟩
  rcases both.2.2 with handled | processing
  · exact handled
  · rw [(second.manager (c := c)).1] at processing
    cases processing

/-- An exception comes out of the thread while it is past its test of `is_execution_over`. -/
theorem terminated_phase (run : Run (step c) { derived := { members } } ts s)
    (terminated : s.derived.terminated = true) : s.manager.monitor.thread = .processing := by
  cases run with
  | start => cases terminated
  | @next ts s a s' previous taken =>
    obtain ⟨goesOn, _, managed, called⟩ := step_cases taken
    rcases optionalStep_cases called with ⟨_, same⟩ | ⟨call, own, _⟩
    · rw [same, goesOn] at terminated
      cases terminated
    · cases a with
      | outside action => cases own
      | thread answer =>
        obtain ⟨m, moved, same⟩ := Option.map_eq_some_iff.mp managed
        rw [← same, ExecManager.record_monitor]
        simp only [ownCall] at own
        split at own
        · rename_i looping
          simp only [ExecMonitor.step, ExecMonitor.threadStep, looping, Option.some.injEq] at moved
          rw [← moved]
        · rename_i processing front
          simp only [ExecMonitor.step, ExecMonitor.threadStep, processing, front, Option.some.injEq] at moved
          rw [← moved]
        · cases own

/-- What was announced before the execution ended is handled when `join` returns, if that end came in
time. -/
theorem delivered (run : Run (step c) { derived := { members } } ts s)
    (joined : s.manager.monitor.thread = .joined)
    (inTime : ∀ t ∈ ts, t.before.manager.EndsInTime t.action.manager) :
    s.manager.announced <+: s.manager.monitor.handled := by
  have known := accounted run
  have delivering : s.manager.Delivering := by
    refine ((manager_run run).kept_iff_guard ExecManager.accounted_of_run (P := ExecManager.Delivering)
      (by simp [ExecManager.Delivering]) ExecManager.delivering_step).mpr fun t member => ?_
    obtain ⟨whole, there, same⟩ := List.mem_filterMap.mp member
    cases Option.some.inj same
    exact inTime whole there
  have ended : s.manager.executionEnded = true := by
    by_contra goesOn
    exact (known.runs (by simpa using goesOn)).2 joined
  rcases delivering ended with handled | drains | drains
  · exact handled
  all_goals simp [joined] at drains

/-- A step of the manager is one of the whole, as long as nothing throws. -/
theorem exists_step (quiet : ∀ (members : σ) (a : Call ι), ∃ members', c.outcome members a = some (.ok (), members'))
    (answer : ι) {action : ExecManager.Action} {manager : ExecManager} (goesOn : s.derived.terminated = false)
    (managed : s.manager.step action = some manager) : ∃ (a : Action ι) (s' : MonitoredExecution σ),
      s.step c a = some s' ∧ a.manager = action ∧ s'.manager = manager ∧ s'.derived.terminated = false := by
  obtain ⟨a, proper, same⟩ : ∃ a : Action ι, a.proper = true ∧ a.manager = action := by
    by_cases own : action = .monitor .thread
    · exact ⟨.thread answer, rfl, own.symm⟩
    · exact ⟨.outside action, by simpa [Action.proper] using own, rfl⟩
  obtain ⟨derived, called, goesOn'⟩ : ∃ derived, optionalStep c.call s.derived (s.ownCall a) = some derived ∧
      derived.terminated = false := by
    cases own : s.ownCall a with
    | none => exact ⟨s.derived, rfl, goesOn⟩
    | some call =>
      obtain ⟨members, returned⟩ := quiet s.derived.members call
      exact ⟨{ members }, by simp [optionalStep, MonitorClass.call, goesOn, returned, Except.toBool], rfl⟩
  have taken : s.step c a = some { manager, derived } := by
    rw [step, if_neg (by simp [goesOn, proper]), same, managed, called]
    rfl
  exact ⟨a, { manager, derived }, taken, same, rfl, goesOn'⟩

/-- A call that returns does not end the program. -/
theorem goesOn_step (quiet : ∀ (members : σ) (a : Call ι), ∃ members', c.outcome members a = some (.ok (), members'))
    (goesOn : s.derived.terminated = false) (taken : s.step c a = some s') : s'.derived.terminated = false := by
  obtain ⟨_, _, _, called⟩ := step_cases taken
  rcases optionalStep_cases called with ⟨_, same⟩ | ⟨call, _, called⟩
  · rw [same]
    exact goesOn
  · obtain ⟨members', returned⟩ := quiet s.derived.members call
    rw [MonitorClass.call_returned called returned]

/-- When nothing that the thread calls throws, the members make no difference to the rest: no run ends by
an exception out of the thread, and the runs are those of the manager. -/
theorem runs_iff (quiet : ∀ (members : σ) (a : Call ι), ∃ members', c.outcome members a = some (.ok (), members'))
    (answer : ι) :
    (∀ ts s, Run (step c) { derived := { members } } ts s → s.derived.terminated = false) ∧
    ∀ ms m, (∃ ts s, Run (step c) { derived := { members } } ts s ∧ managerPart ts = ms ∧ s.manager = m) ↔
      Run ExecManager.step {} ms m := by
  refine ⟨fun ts s run => run.invariant (I := fun s => s.derived.terminated = false) rfl (goesOn_step quiet), ?_⟩
  intro ms m
  constructor
  · rintro ⟨ts, s, run, rfl, rfl⟩
    exact manager_run run
  · intro run
    have run : Run ExecManager.step (manager { derived := { members } : MonitoredExecution σ }) ms m := run
    suffices ∃ ts s, Run (step c) { derived := { members } } ts s ∧ managerPart ts = ms ∧ s.manager = m ∧
        s.derived.terminated = false by
      obtain ⟨ts, s, run, same, ends, _⟩ := this
      exact ⟨ts, s, run, same, ends⟩
    refine Run.lift (f := manager) (g := fun _ (a : Action ι) => some a.manager)
      (I := fun s => s.derived.terminated = false) rfl ?_ run
    intro s action manager goesOn managed
    obtain ⟨a, s', taken, same, rfl, goesOn'⟩ := exists_step quiet answer goesOn managed
    exact ⟨_, s', .single taken, by simp [Transition.project, same], rfl, goesOn'⟩

end MonitoredExecution

/-- `simple_monitor`: its `loop_impl` only sleeps, and its `add_process` is empty. -/
def simpleMonitor : MonitorClass Unit Unit where
  loopImpl _ _ := some (.ok (), ())
  eventHandlers
    | .processCreated => some fun _ _ _ => some (.ok (), ())

namespace MonitoredExecution

/-- Under `simple_monitor` the round that was due when the execution ended is made. -/
theorem runs_iff_simple : ∃ ts s, Run (step simpleMonitor) { derived := { members := () } } ts s ∧
    s.manager.executionEnded = true ∧ s.manager.monitor.thread = .processing ∧ s.derived.terminated = false := by
  obtain ⟨ms, m, run, _, test⟩ := run_of_exec_any ExecManager.step {}
    [.monitor .doInitialize, .monitor .start, .monitor .thread, .executionEnd, .monitor .thread]
    (fun m => m.executionEnded ∧ m.monitor.thread = .processing) rfl
  obtain ⟨ended, processing⟩ := of_decide_eq_true test
  have quiet (members : Unit) (a : MonitorClass.Call Unit) :
      ∃ members', simpleMonitor.outcome members a = some (.ok (), members') := ⟨(), by cases a <;> rfl⟩
  obtain ⟨ts, s, derived, _, rfl⟩ := ((runs_iff quiet ()).2 ms m).mpr run
  exact ⟨ts, s, derived, ended, processing, (runs_iff quiet ()).1 ts s derived⟩

theorem handled_within_a_round_one : ∃ (earlier between : List (Transition (MonitoredExecution Unit) (Action Unit)))
    (t₁ t₂ : Transition (MonitoredExecution Unit) (Action Unit)) (s : MonitoredExecution Unit),
    Run (step simpleMonitor) { derived := { members := () } } (earlier ++ t₁ :: (between ++ [t₂])) s ∧
      Loops t₁ ∧ Loops t₂ ∧ t₁.before.manager.enqueued = [⟨.processCreated, 7⟩] ∧
      [⟨.processCreated, 7⟩] <+: t₂.before.manager.monitor.handled := by
  have run : Run (step simpleMonitor) { derived := { members := () } } ([_, _, _, _] ++ _ :: ([_, _, _] ++ [_])) _ :=
    .next (.next (.next (.next (.next (.next (.next (.next (.next .start
      (a := .outside (.monitor .doInitialize)) rfl)
      (a := .outside (.monitor (.enqueueEvent ⟨.processCreated, 7⟩))) rfl)
      (a := .outside (.monitor .start)) rfl) (a := .thread ()) rfl) (a := .thread ()) rfl)
      (a := .thread ()) rfl) (a := .thread ()) rfl) (a := .thread ()) rfl) (a := .thread ()) rfl
  exact ⟨_, _, _, _, _, run, ⟨(), rfl⟩, ⟨(), rfl⟩, rfl, handled_within_a_round run ⟨(), rfl⟩ ⟨(), rfl⟩⟩

end MonitoredExecution

end Aser
