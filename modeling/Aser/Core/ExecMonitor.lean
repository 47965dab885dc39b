import Aser.Util.LibcWrapper

namespace Aser

/-- `exec_event::event_type`. -/
inductive EventType
  | processCreated
  deriving DecidableEq

structure ExecEvent where
  type : EventType
  pid : Pid
  deriving DecidableEq

/-- Where the thread of an `exec_monitor` stands: about to look at `is_execution_over`, in
`loop_impl`, in `process_events`, at its end. -/
inductive ThreadPhase
  | notStarted
  | testing
  | looping
  | processing
  | finished
  | joined
  deriving DecidableEq

/-- `handled` records the events that `event_handler` was called with, `prepared` and `finalized`
that `prepare_impl` and `finalize_impl` returned. -/
structure ExecMonitor where
  initialized : Bool := false
  prepared : Bool := false
  finalized : Bool := false
  thread : ThreadPhase := .notStarted
  eventQueue : List ExecEvent := []
  handled : List ExecEvent := []

namespace ExecMonitor

inductive Action
  | doInitialize
  | prepare
  | start
  | join
  | finalize
  | enqueueEvent (event : ExecEvent)
  | thread
  deriving DecidableEq

/-- The next thing the thread of the monitor does; `isOver` is what `is_execution_over` says. The pop
in `process_events` has a timeout of zero. -/
def threadStep (isOver : Bool) (m : ExecMonitor) : Option ExecMonitor :=
  match m.thread with
  | .testing => some { m with thread := if isOver then .finished else .looping }
  | .looping => some { m with thread := .processing }
  | .processing => match m.eventQueue with
    | [] => some { m with thread := .testing }
    | event :: rest => some { m with eventQueue := rest, handled := m.handled ++ [event] }
  | .notStarted | .finished | .joined => none

/-- One step of the manager, or of the thread of the monitor. `join` is not enabled before that
thread is at its end, nor is what an assertion rules out. -/
def step (isOver : Bool) (m : ExecMonitor) : Action → Option ExecMonitor
  | .doInitialize => if m.initialized then none else some { m with initialized := true }
  | .prepare => if m.initialized then some { m with prepared := true } else none
  | .start =>
    if m.initialized ∧ m.thread = .notStarted then some { m with thread := .testing } else none
  | .join => if m.initialized ∧ m.thread = .finished then some { m with thread := .joined } else none
  | .finalize => if m.initialized then some { m with finalized := true } else none
  | .enqueueEvent event => some { m with eventQueue := m.eventQueue ++ [event] }
  | .thread => m.threadStep isOver

variable {isOver : Bool} {m m' : ExecMonitor} {a : Action}

/-- The thread only takes events from the queue, and hands what it takes to the handler in order. -/
theorem threadStep_frame (taken : m.threadStep isOver = some m') :
    m'.handled ++ m'.eventQueue = m.handled ++ m.eventQueue ∧ m'.prepared = m.prepared := by
  unfold threadStep at taken
  split at taken
  · cases Option.some.inj taken
    exact ⟨rfl, rfl⟩
  · cases Option.some.inj taken
    exact ⟨rfl, rfl⟩
  · split at taken
    · cases Option.some.inj taken
      exact ⟨rfl, rfl⟩
    · rename_i front
      cases Option.some.inj taken
      rw [front, List.append_assoc]
      exact ⟨rfl, rfl⟩
  all_goals simp at taken

/-- What was prepared stays prepared. -/
theorem prepared_kept (prepared : m.prepared = true) (taken : m.step isOver a = some m') :
    m'.prepared = true := by
  cases a with
  | doInitialize =>
    simp only [step, Option.ite_none_left_eq_some, Option.some.injEq] at taken
    exact taken.2 ▸ prepared
  | prepare =>
    simp only [step, Option.ite_none_right_eq_some, Option.some.injEq] at taken
    exact taken.2 ▸ rfl
  | start =>
    simp only [step, Option.ite_none_right_eq_some, Option.some.injEq] at taken
    exact taken.2 ▸ prepared
  | join =>
    simp only [step, Option.ite_none_right_eq_some, Option.some.injEq] at taken
    exact taken.2 ▸ prepared
  | finalize =>
    simp only [step, Option.ite_none_right_eq_some, Option.some.injEq] at taken
    exact taken.2 ▸ prepared
  | enqueueEvent event => exact Option.some.inj taken ▸ prepared
  | thread => exact (threadStep_frame taken).2.trans prepared

end ExecMonitor

end Aser
