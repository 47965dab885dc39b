import Aser.Core.ExecMonitor
import Aser.Library.Run

namespace Aser

open Library

namespace ExecMonitor

/-- What a step does to the thread of a monitor and to its events. -/
inductive Change (isOver : Bool) (m : ExecMonitor) : Action → ExecMonitor → Prop
  | enqueue (event : ExecEvent) :
      Change isOver m (.enqueueEvent event) { m with eventQueue := m.eventQueue ++ [event] }
  | start (idle : m.thread = .notStarted) : Change isOver m .start { m with thread := .testing }
  | leave (tests : m.thread = .testing) (ended : isOver = true) :
      Change isOver m .thread { m with thread := .finished }
  | enter (tests : m.thread = .testing) (goesOn : isOver = false) :
      Change isOver m .thread { m with thread := .looping }
  | loopImpl (loops : m.thread = .looping) : Change isOver m .thread { m with thread := .processing }
  | drained (processes : m.thread = .processing) (empty : m.eventQueue = []) :
      Change isOver m .thread { m with thread := .testing }
  | handle {event rest} (processes : m.thread = .processing) (front : m.eventQueue = event :: rest) :
      Change isOver m .thread { m with eventQueue := rest, handled := m.handled ++ [event] }
  | join (ended : m.thread = .finished) : Change isOver m .join { m with thread := .joined }
  | other {a m'} (thread : m'.thread = m.thread) (eventQueue : m'.eventQueue = m.eventQueue)
      (handled : m'.handled = m.handled) (nothing : ∀ event, a ≠ .enqueueEvent event) :
      Change isOver m a m'

variable {isOver : Bool} {m m' : ExecMonitor} {a : Action}

theorem threadStep_handled (taken : m.threadStep isOver = some m') :
    m'.handled = m.handled ++ if m.thread = .processing then m.eventQueue.head?.toList else [] := by
  unfold threadStep at taken
  split at taken
  · rename_i tests
    cases Option.some.inj taken
    simp [tests]
  · rename_i loops
    cases Option.some.inj taken
    simp [loops]
  · rename_i processes
    split at taken
    · rename_i empty
      cases Option.some.inj taken
      simp [empty]
    · rename_i front
      cases Option.some.inj taken
      simp [processes, front]
  all_goals simp at taken

theorem change_of_step (taken : m.step isOver a = some m') : m.Change isOver a m' := by
  cases a with
  | doInitialize =>
    simp only [step, Option.ite_none_left_eq_some, Option.some.injEq] at taken
    obtain ⟨_, rfl⟩ := taken
    exact .other rfl rfl rfl (by simp)
  | prepare =>
    simp only [step, Option.ite_none_right_eq_some, Option.some.injEq] at taken
    obtain ⟨_, rfl⟩ := taken
    exact .other rfl rfl rfl (by simp)
  | start =>
    simp only [step, Option.ite_none_right_eq_some, Option.some.injEq] at taken
    obtain ⟨⟨_, idle⟩, rfl⟩ := taken
    exact .start idle
  | join =>
    simp only [step, Option.ite_none_right_eq_some, Option.some.injEq] at taken
    obtain ⟨⟨_, ended⟩, rfl⟩ := taken
    exact .join ended
  | finalize =>
    simp only [step, Option.ite_none_right_eq_some, Option.some.injEq] at taken
    obtain ⟨_, rfl⟩ := taken
    exact .other rfl rfl rfl (by simp)
  | enqueueEvent event =>
    cases Option.some.inj taken
    exact .enqueue event
  | thread =>
    simp only [step, threadStep] at taken
    split at taken
    · rename_i tests
      cases Option.some.inj taken
      cases isOver with
      | true => exact .leave tests rfl
      | false => exact .enter tests rfl
    · rename_i loops
      cases Option.some.inj taken
      exact .loopImpl loops
    · rename_i processes
      split at taken
      · rename_i empty
        cases Option.some.inj taken
        exact .drained processes empty
      · rename_i front
        cases Option.some.inj taken
        exact .handle processes front
    all_goals simp at taken

end ExecMonitor

/-- An `exec_manager` with its monitor. `enqueued` lists the events that entered the queue of the
monitor, `announced` those that did so before `execution_end`. -/
structure ExecManager where
  monitor : ExecMonitor := {}
  executionEnded : Bool := false
  enqueued : List ExecEvent := []
  announced : List ExecEvent := []

namespace ExecManager

inductive Action
  | monitor (action : ExecMonitor.Action)
  | executionEnd
  deriving DecidableEq

def record (s : ExecManager) (a : ExecMonitor.Action) (m : ExecMonitor) : ExecManager :=
  match a with
  | .enqueueEvent event => { s with
      monitor := m
      enqueued := s.enqueued ++ [event]
      announced := if s.executionEnded then s.announced else s.announced ++ [event] }
  | _ => { s with monitor := m }

def step (s : ExecManager) : Action → Option ExecManager
  | .monitor action => (s.monitor.step s.executionEnded action).map (s.record action)
  | .executionEnd => some { s with executionEnded := true }

/-- The thread of the monitor is between its test of `is_execution_over` and the end of the
`process_events` that follows it. -/
def Drains (s : ExecManager) : Prop := s.monitor.thread = .looping ∨ s.monitor.thread = .processing

/-- The execution ends with no event pending, or while one more round of `process_events` is due. -/
def EndsInTime (s : ExecManager) (a : Action) : Prop :=
  a = .executionEnd → s.executionEnded = false → s.monitor.eventQueue = [] ∨ s.Drains

instance (s : ExecManager) (a : Action) : Decidable (s.EndsInTime a) :=
  inferInstanceAs (Decidable (_ → _ → _ ∨ _ ∨ _))

/-- Events are handled in the order in which they were enqueued, and none of them twice. -/
structure Accounted (s : ExecManager) : Prop where
  events : s.monitor.handled ++ s.monitor.eventQueue = s.enqueued
  before : s.executionEnded = false → s.announced = s.enqueued
  ahead : s.announced <+: s.enqueued
  runs : s.executionEnded = false → s.monitor.thread ≠ .finished ∧ s.monitor.thread ≠ .joined

variable {s s' : ExecManager} {a : Action}

theorem record_other {action : ExecMonitor.Action} {m : ExecMonitor}
    (nothing : ∀ event, action ≠ .enqueueEvent event) : s.record action m = { s with monitor := m } := by
  cases action with
  | enqueueEvent event => exact absurd rfl (nothing event)
  | _ => rfl

@[simp] theorem record_monitor (s : ExecManager) (action : ExecMonitor.Action) (m : ExecMonitor) :
    (s.record action m).monitor = m := by
  cases action <;> rfl

theorem accounted_step (known : s.Accounted) (taken : s.step a = some s') : s'.Accounted := by
  cases a with
  | executionEnd =>
    cases Option.some.inj taken
    exact ⟨known.events, by simp, known.ahead, by simp⟩
  | monitor action =>
    obtain ⟨m, moved, rfl⟩ := Option.map_eq_some_iff.mp taken
    have events := known.events
    have runs := known.runs
    cases ExecMonitor.change_of_step moved with
    | enqueue event =>
      refine ⟨?_, ?_, ?_, runs⟩
      · simp only [record, ← events, List.append_assoc]
      · intro goesOn
        have goesOn : s.executionEnded = false := goesOn
        simp [record, goesOn, known.before goesOn]
      · simp only [record]
        split
        · exact known.ahead.trans (List.prefix_append _ _)
        · rename_i goesOn
          have same := known.before (by simpa using goesOn)
          exact ⟨[], by rw [same, List.append_nil]⟩
    | start idle => exact ⟨events, known.before, known.ahead, by simp [record]⟩
    | leave tests ended => exact ⟨events, known.before, known.ahead, by simp [record, ended]⟩
    | enter tests goesOn => exact ⟨events, known.before, known.ahead, by simp [record]⟩
    | loopImpl loops => exact ⟨events, known.before, known.ahead, by simp [record]⟩
    | drained processes empty => exact ⟨events, known.before, known.ahead, by simp [record]⟩
    | handle processes front =>
      rw [front] at events
      exact ⟨by simpa [record] using events, known.before, known.ahead, runs⟩
    | join ended =>
      refine ⟨events, known.before, known.ahead, ?_⟩
      intro goesOn
      exact absurd ended (runs goesOn).1
    | other thread eventQueue handled nothing =>
      rw [record_other nothing]
      refine ⟨?_, known.before, known.ahead, ?_⟩
      · simpa only [handled, eventQueue] using events
      · simpa only [thread] using runs

/-- Once the execution has ended, what was announced is handled, or one more round of `process_events`
is due. -/
def Delivering (s : ExecManager) : Prop :=
  s.executionEnded = true → s.announced <+: s.monitor.handled ∨ s.Drains

theorem delivering_monitor (known : s.Accounted) {action : ExecMonitor.Action}
    (taken : s.step (.monitor action) = some s') : s'.Delivering ↔ s.Delivering := by
  obtain ⟨m, moved, rfl⟩ := Option.map_eq_some_iff.mp taken
  have change := ExecMonitor.change_of_step moved
  unfold Delivering Drains
  cases ended : s.executionEnded with
  | false =>
    have stays : (s.record action m).executionEnded = false := by
      cases action <;> exact ended
    simp [stays]
  | true =>
    rw [ended] at change
    -- After the end only a finished round of `process_events` matters: it leaves no event behind.
    cases change with
    | enqueue event => simp [record, ended]
    | start idle => simp [record, ended, idle]
    | leave tests _ => simp [record, ended, tests]
    | enter tests goesOn => cases goesOn
    | loopImpl loops => simp [record, loops]
    | drained processes empty =>
      have handled : s.monitor.handled = s.enqueued := by
        have events := known.events
        rwa [empty, List.append_nil] at events
      simp [record, processes, handled, known.ahead]
    | handle processes front => simp [record, processes]
    | join finished => simp [record, ended, finished]
    | other thread eventQueue handled nothing => simp [record_other nothing, ended, thread, handled]

theorem delivering_end (known : s.Accounted) (goesOn : s.executionEnded = false) :
    { s with executionEnded := true }.Delivering ↔ s.monitor.eventQueue = [] ∨ s.Drains := by
  have complete : s.announced <+: s.monitor.handled ↔ s.monitor.eventQueue = [] := by
    rw [known.before goesOn, ← known.events]
    constructor
    · intro within
      have bound := within.length_le
      rw [List.length_append] at bound
      exact List.length_eq_zero_iff.mp (by omega)
    · intro empty
      exact ⟨[], by rw [empty, List.append_nil, List.append_nil]⟩
  simp [Delivering, Drains, complete]

/-- Exactly the steps that end the execution in time keep the monitor delivering. -/
theorem delivering_step (known : s.Accounted) (taken : s.step a = some s') :
    s'.Delivering ↔ s.Delivering ∧ s.EndsInTime a := by
  cases a with
  | monitor action =>
    rw [delivering_monitor known taken]
    simp [EndsInTime]
  | executionEnd =>
    cases Option.some.inj taken
    cases ended : s.executionEnded with
    | true =>
      have same : { s with executionEnded := true } = s := by rw [← ended]
      simp [same, EndsInTime, ended]
    | false =>
      rw [delivering_end known ended]
      simp [Delivering, EndsInTime, ended]

theorem accounted_of_run {ts : List (Transition ExecManager Action)} (run : Run step {} ts s) :
    s.Accounted :=
  run.invariant ⟨rfl, fun _ => rfl, List.prefix_refl _, by simp⟩ accounted_step

/-- When `join` has returned, the events are handled in order, each of them at most once, and those
from before the end of the execution completely if and only if the execution ended in time. -/
theorem events_delivered_iff {ts : List (Transition ExecManager Action)} (run : Run step {} ts s)
    (joined : s.monitor.thread = .joined) :
    s.monitor.handled <+: s.enqueued ∧ s.announced <+: s.enqueued ∧
      (s.announced <+: s.monitor.handled ↔ ∀ t ∈ ts, t.before.EndsInTime t.action) := by
  have known := accounted_of_run run
  refine ⟨known.events ▸ List.prefix_append _ _, known.ahead, ?_⟩
  have ended : s.executionEnded = true := by
    by_contra goesOn
    exact (known.runs (by simpa using goesOn)).2 joined
  have delivering := run.kept_iff_guard accounted_of_run (P := Delivering) (by simp [Delivering])
    delivering_step
  rw [← delivering]
  simp [Delivering, Drains, ended, joined]

/-- The process was announced, and the thread was in its loop when the execution ended. -/
theorem events_delivered_iff_handled : ∃ ts s, Run step {} ts s ∧ s.monitor.thread = .joined ∧
    s.announced = [⟨.processCreated, 7⟩] ∧ s.announced <+: s.monitor.handled ∧
      ∀ t ∈ ts, t.before.EndsInTime t.action := by
  obtain ⟨ts, s, run, _, test⟩ := run_of_exec_any step {}
    [.monitor .doInitialize, .monitor (.enqueueEvent ⟨.processCreated, 7⟩), .monitor .prepare,
      .monitor .start, .monitor .thread, .executionEnd, .monitor .thread, .monitor .thread,
      .monitor .thread, .monitor .thread, .monitor .join]
    (fun s => s.monitor.thread = .joined ∧ s.announced = [⟨.processCreated, 7⟩] ∧
      s.monitor.handled = [⟨.processCreated, 7⟩]) rfl
  obtain ⟨joined, announced, handled⟩ := of_decide_eq_true test
  have delivered : s.announced <+: s.monitor.handled := by
    exact ⟨[], by rw [announced, handled, List.append_nil]⟩
  exact ⟨ts, s, run, joined, announced, delivered, (events_delivered_iff run joined).2.2.mp delivered⟩

/-- A benchmark that ends before the thread of the monitor first looks at `is_execution_over`: the
process was announced, but no handler is called. -/
theorem event_not_delivered : ∃ ts s, Run step {} ts s ∧ s.monitor.thread = .joined ∧
    s.announced = [⟨.processCreated, 7⟩] ∧ s.monitor.handled = [] := by
  obtain ⟨ts, s, run, _, test⟩ := run_of_exec_any step {}
    [.monitor .doInitialize, .monitor (.enqueueEvent ⟨.processCreated, 7⟩), .monitor .prepare,
      .monitor .start, .executionEnd, .monitor .thread, .monitor .join]
    (fun s => s.monitor.thread = .joined ∧ s.announced = [⟨.processCreated, 7⟩] ∧
      s.monitor.handled = []) rfl
  exact ⟨ts, s, run, of_decide_eq_true test⟩

end ExecManager

end Aser
