import Aser.Core.ExecMonitorEvents
import Aser.Library.Progress
import Aser.Util.ConcurrentQueue

namespace Aser

open Library

/-- An `exec_manager` with its monitor, whose events are in a `concurrent_queue`: thread 0 of the queue is
the thread of the monitor, the others call `enqueue_event`. The queue of `manager` itself stays empty. -/
structure QueuedExecution where
  manager : ExecManager := {}
  eventQueue : ConcurrentQueue ExecEvent

namespace QueuedExecution

/-- A step outside of the thread of the monitor and of the queue, one of that thread between its calls of
`process_events`, and one inside the queue. -/
inductive Action
  | outside (action : ExecManager.Action)
  | thread
  | queue (action : ConcurrentQueue.Action ExecEvent)

/-- What the last call of pop that came back between two states of the queue returned. -/
def popResult (before after : ConcurrentQueue ExecEvent) : Option (Option ExecEvent) :=
  (after.returned[before.returned.length]?).map Prod.snd

/-- `process_events` after a `pop(0)` that came back: with an event it calls `event_handler`, without one
it is over. -/
def popReturned (s : QueuedExecution) : Option (Option ExecEvent) → ExecManager
  | none => s.manager
  | some none => { s.manager with monitor := { s.manager.monitor with thread := .testing } }
  | some (some event) => { s.manager with
      monitor := { s.manager.monitor with handled := s.manager.monitor.handled ++ [event] } }

/-- Who may do what in the queue: the thread of the monitor pops, within `process_events` and with a timeout
of zero, and the others push. -/
def mayAct (s : QueuedExecution) : ConcurrentQueue.Action ExecEvent → Bool
  | .push k _ => k ≠ 0
  | .pop k timed => k = 0 ∧ timed ∧ s.manager.monitor.thread = .processing
  | .check k | .timeout k | .wake k => k = 0
  | .notifyOne _ _ => true

def step (s : QueuedExecution) : Action → Option QueuedExecution
  | .outside action => match action with
    | .monitor (.enqueueEvent _) | .monitor .thread => none
    | _ => (s.manager.step action).map fun manager => { s with manager }
  | .thread =>
    if s.manager.monitor.thread = .testing ∨ s.manager.monitor.thread = .looping then
      (s.manager.step (.monitor .thread)).map fun manager => { s with manager }
    else none
  | .queue action => if s.mayAct action then
      (s.eventQueue.step action).map fun eventQueue =>
        { eventQueue
          manager := match action with
            | .push _ event => s.manager.record (.enqueueEvent event) s.manager.monitor
            | .check _ => s.popReturned (popResult s.eventQueue eventQueue)
            | _ => s.manager }
    else none

/-- The `exec_manager` that this one is to its users: the queue is a list, and a push or a pop is one step. -/
def abstracted (s : QueuedExecution) : ExecManager :=
  { s.manager with monitor := { s.manager.monitor with eventQueue := s.eventQueue.queue } }

/-- The step of that manager that a step stands for, if it is one. A pop takes place in its last critical
section. -/
def stands (s : QueuedExecution) : Action → Option ExecManager.Action
  | .outside action => some action
  | .thread => some (.monitor .thread)
  | .queue (.push _ event) => some (.monitor (.enqueueEvent event))
  | .queue (.check k) => match s.eventQueue.step (.check k) with
    | some after => (popResult s.eventQueue after).map fun _ => .monitor .thread
    | none => none
  | .queue _ => none

/-- Outside of `process_events` the thread of the monitor is outside of the queue, and nobody else is in a
call of pop. -/
structure Separate (s : QueuedExecution) : Prop where
  inside : s.eventQueue.threads[0]? ≠ some .outside → s.manager.monitor.thread = .processing
  unused : s.manager.monitor.eventQueue = []

variable {s s' : QueuedExecution} {a : Action} {q q' : ConcurrentQueue ExecEvent} {k : Nat}

@[simp] theorem popResult_finish (q : ConcurrentQueue ExecEvent) (k : Nat) (result : Option ExecEvent)
    (rest : List ExecEvent) : popResult q (q.finish k result rest) = some result := by
  simp [popResult, ConcurrentQueue.finish]

@[simp] theorem popResult_move (q : ConcurrentQueue ExecEvent) (k : Nat) (phase : QueuePhase) :
    popResult q (q.move k phase) = none := by
  simp [popResult, ConcurrentQueue.move]

/-- A critical section of a call of pop: it takes the first event, or there is none, and then it blocks the
thread or ends a call that has timed out. -/
theorem check_cases (checked : q.step (.check k) = some q') :
    (∃ phase, q.threads[k]? = some phase ∧ phase ≠ .outside) ∧
    ((∃ event rest, q.queue = event :: rest ∧ q' = q.finish k (some event) rest) ∨
      (∃ timed, (q.threads[k]? = some (.entering timed) ∨ q.threads[k]? = some (.woken timed)) ∧
        q' = q.move k (.blocked timed)) ∨
      q.threads[k]? = some .timedOut ∧ q.queue = [] ∧ q' = q.finish k none []) := by
  have inCall : ∃ phase, q.threads[k]? = some phase ∧ phase ≠ .outside := by
    cases atK : q.threads[k]? with
    | none => simp [ConcurrentQueue.step, atK] at checked
    | some phase =>
      refine ⟨phase, rfl, ?_⟩
      rintro rfl
      simp [ConcurrentQueue.step, atK] at checked
  refine ⟨inCall, ?_⟩
  have tested {empty : ConcurrentQueue ExecEvent} (taken : q.test k empty = q') :
      (∃ event rest, q.queue = event :: rest ∧ q' = q.finish k (some event) rest) ∨
        q.queue = [] ∧ q' = empty := by
    unfold ConcurrentQueue.test at taken
    split at taken
    · rename_i empty
      exact .inr ⟨empty, taken.symm⟩
    · rename_i event rest front
      exact .inl ⟨event, rest, front, taken.symm⟩
  simp only [ConcurrentQueue.step] at checked
  split at checked
  · rename_i timed atK
    rcases tested (Option.some.inj checked) with takes | ⟨_, blocks⟩
    · exact .inl takes
    · exact .inr (.inl ⟨timed, .inl atK, blocks⟩)
  · rename_i timed atK
    rcases tested (Option.some.inj checked) with takes | ⟨_, blocks⟩
    · exact .inl takes
    · exact .inr (.inl ⟨timed, .inr atK, blocks⟩)
  · rename_i atK
    rcases tested (Option.some.inj checked) with takes | fails
    · exact .inl takes
    · exact .inr (.inr ⟨atK, fails⟩)
  · simp at checked

/-- What a step inside the queue does to it that is neither a push nor a critical section of a pop. -/
theorem rest_cases {action : ConcurrentQueue.Action ExecEvent} (taken : q.step action = some q')
    (noPush : ∀ k event, action ≠ .push k event) (noCheck : ∀ k, action ≠ .check k) : q'.queue = q.queue := by
  cases ConcurrentQueue.change_of_step taken with
  | push => exact absurd rfl (noPush _ _)
  | take | block | fail => exact absurd rfl (noCheck _)
  | notifyNone | notifySome | shift => rfl

/-- Outside of the queue the manager does not look at it. -/
theorem outside_abstracted (action : ExecManager.Action) (noPush : ∀ event, action ≠ .monitor (.enqueueEvent event))
    (notThread : action ≠ .monitor .thread) :
    s.abstracted.step action = (s.manager.step action).map fun manager => abstracted { s with manager } := by
  cases action with
  | executionEnd => rfl
  | monitor action =>
    cases action with
    | enqueueEvent event => exact absurd rfl (noPush event)
    | thread => exact absurd rfl notThread
    | doInitialize | prepare | start | join | finalize =>
      simp only [ExecManager.step, ExecMonitor.step, abstracted]
      split <;> simp [ExecManager.record, *]

theorem thread_abstracted (away : s.manager.monitor.thread = .testing ∨ s.manager.monitor.thread = .looping) :
    s.abstracted.step (.monitor .thread) =
      (s.manager.step (.monitor .thread)).map fun manager => abstracted { s with manager } := by
  rcases away with here | here
  all_goals
    simp [ExecManager.step, ExecMonitor.step, ExecMonitor.threadStep, abstracted, here, ExecManager.record]

/-- A critical section of a pop is a step of `process_events` if the pop comes back, and none otherwise. -/
theorem check_abstracted (separate : s.Separate) {q : ConcurrentQueue ExecEvent}
    (checked : s.eventQueue.step (.check 0) = some q) :
    optionalStep ExecManager.step s.abstracted ((popResult s.eventQueue q).map fun _ => .monitor .thread) =
      some (abstracted { manager := s.popReturned (popResult s.eventQueue q), eventQueue := q }) := by
  obtain ⟨⟨phase, atZero, inCall⟩, cases⟩ := check_cases checked
  have processing := separate.inside (by simpa [atZero] using inCall)
  rcases cases with ⟨event, rest, front, rfl⟩ | ⟨timed, _, rfl⟩ | ⟨_, empty, rfl⟩
  · simp only [popResult_finish, Option.map_some, optionalStep, popReturned]
    simp [ExecManager.step, ExecMonitor.step, ExecMonitor.threadStep, abstracted, processing, front,
      ExecManager.record, ConcurrentQueue.finish]
  · simp only [popResult_move, Option.map_none, optionalStep, popReturned]
    simp [abstracted, ConcurrentQueue.move]
  · simp only [popResult_finish, Option.map_some, optionalStep, popReturned]
    simp [ExecManager.step, ExecMonitor.step, ExecMonitor.threadStep, abstracted, processing, empty,
      ExecManager.record, ConcurrentQueue.finish]

/-- Every step is one of the manager with a list for a queue, or none. -/
theorem step_abstracted (separate : s.Separate) (taken : s.step a = some s') :
    optionalStep ExecManager.step s.abstracted (s.stands a) = some s'.abstracted := by
  cases a with
  | outside action =>
    simp only [step] at taken
    split at taken
    · simp at taken
    · simp at taken
    · rename_i noPush notThread
      obtain ⟨manager, managed, rfl⟩ := Option.map_eq_some_iff.mp taken
      simp only [stands, optionalStep, outside_abstracted action noPush notThread, managed, Option.map_some]
  | thread =>
    simp only [step, Option.ite_none_right_eq_some] at taken
    obtain ⟨away, taken⟩ := taken
    obtain ⟨manager, managed, rfl⟩ := Option.map_eq_some_iff.mp taken
    simp only [stands, optionalStep, thread_abstracted away, managed, Option.map_some]
  | queue action =>
    simp only [step, Option.ite_none_right_eq_some] at taken
    obtain ⟨may, taken⟩ := taken
    obtain ⟨q, moved, rfl⟩ := Option.map_eq_some_iff.mp taken
    cases action with
    | push k event =>
      simp only [ConcurrentQueue.step, Option.ite_none_right_eq_some, Option.some.injEq] at moved
      obtain ⟨_, rfl⟩ := moved
      rfl
    | check k =>
      obtain rfl : k = 0 := by simpa [mayAct] using may
      simp only [stands, moved]
      exact check_abstracted separate moved
    | notifyOne | pop | wake | timeout =>
      have same := rest_cases moved (by simp) (by simp)
      simp [stands, optionalStep, abstracted, same]

/-- A thread stays outside of the queue until it calls `push` or `pop`. -/
theorem outside_stays {action : ConcurrentQueue.Action ExecEvent} (outside : q.threads[k]? = some .outside)
    (taken : q.step action = some q') (noPush : ∀ event, action ≠ .push k event)
    (noPop : ∀ timed, action ≠ .pop k timed) : q'.threads[k]? = some .outside := by
  have moves {j : Nat} {phase : QueuePhase} (other : j ≠ k) : (q.move j phase).threads[k]? = some .outside := by
    simpa [ConcurrentQueue.move, List.getElem?_set_ne other] using outside
  have differs {j : Nat} {phase : QueuePhase} (atJ : q.threads[j]? = some phase) (inCall : phase ≠ .outside) : j ≠ k := by
    rintro rfl
    exact inCall (Option.some.inj (atJ.symm.trans outside))
  cases action with
  | push j event =>
    simp only [ConcurrentQueue.step, Option.ite_none_right_eq_some, Option.some.injEq] at taken
    obtain ⟨_, rfl⟩ := taken
    exact moves fun same => noPush event (by rw [same])
  | pop j timed =>
    simp only [ConcurrentQueue.step, Option.ite_none_right_eq_some, Option.some.injEq] at taken
    obtain ⟨_, rfl⟩ := taken
    exact moves fun same => noPop timed (by rw [same])
  | check j =>
    obtain ⟨⟨phase, atJ, inCall⟩, ⟨_, _, _, rfl⟩ | ⟨_, _, rfl⟩ | ⟨_, _, rfl⟩⟩ := check_cases taken
    all_goals exact moves (differs atJ inCall)
  | notifyOne j chosen =>
    simp only [ConcurrentQueue.step, Option.ite_none_right_eq_some] at taken
    obtain ⟨notifies, taken⟩ := taken
    have left : (q.move j .outside).threads[k]? = some .outside := moves (differs notifies (by simp))
    cases chosen with
    | none =>
      simp only [Option.ite_none_left_eq_some, Option.some.injEq] at taken
      exact taken.2 ▸ left
    | some i =>
      dsimp only at taken
      split at taken
      · rename_i timed waits
        cases Option.some.inj taken
        have other : i ≠ k := differs waits (by simp)
        simpa [ConcurrentQueue.move, List.getElem?_set_ne other] using left
      · simp at taken
  | wake j =>
    simp only [ConcurrentQueue.step] at taken
    split at taken
    · rename_i atJ
      cases Option.some.inj taken
      exact moves (differs atJ (by simp))
    · simp at taken
  | timeout j =>
    simp only [ConcurrentQueue.step] at taken
    split at taken
    · rename_i atJ
      cases Option.some.inj taken
      exact moves (differs atJ (by simp))
    · rename_i atJ
      cases Option.some.inj taken
      exact moves (differs atJ (by simp))
    · simp at taken

/-- A step outside of the queue that finds the thread of the monitor in `process_events` leaves it there. -/
theorem processing_stays {action : ExecManager.Action} {manager manager' : ExecManager}
    (taken : manager.step action = some manager') (notThread : action ≠ .monitor .thread)
    (noPush : ∀ event, action ≠ .monitor (.enqueueEvent event)) :
    (manager.monitor.thread = .processing → manager'.monitor.thread = .processing) ∧
      manager'.monitor.eventQueue = manager.monitor.eventQueue := by
  cases action with
  | executionEnd =>
    cases Option.some.inj taken
    exact ⟨id, rfl⟩
  | monitor action =>
    obtain ⟨m, moved, rfl⟩ := Option.map_eq_some_iff.mp taken
    rw [ExecManager.record_monitor]
    cases ExecMonitor.change_of_step moved with
    | enqueue event => exact absurd rfl (noPush event)
    | leave | enter | loopImpl | drained | handle => exact absurd rfl notThread
    | start idle => exact ⟨fun processing => by simp [idle] at processing, rfl⟩
    | join ended => exact ⟨fun processing => by simp [ended] at processing, rfl⟩
    | other thread eventQueue _ _ => exact ⟨fun processing => thread.trans processing, eventQueue⟩

theorem Separate.step (separate : s.Separate) (taken : s.step a = some s') : s'.Separate := by
  cases a with
  | outside action =>
    simp only [QueuedExecution.step] at taken
    split at taken
    · simp at taken
    · simp at taken
    · rename_i noPush notThread
      obtain ⟨manager, managed, rfl⟩ := Option.map_eq_some_iff.mp taken
      obtain ⟨stays, same⟩ := processing_stays managed notThread noPush
      exact ⟨fun inCall => stays (separate.inside inCall), same.trans separate.unused⟩
  | thread =>
    simp only [QueuedExecution.step, Option.ite_none_right_eq_some] at taken
    obtain ⟨away, taken⟩ := taken
    obtain ⟨manager, managed, rfl⟩ := Option.map_eq_some_iff.mp taken
    refine ⟨fun inCall => ?_, ?_⟩
    · have processing := separate.inside inCall
      simp [processing] at away
    · obtain ⟨m, moved, rfl⟩ := Option.map_eq_some_iff.mp managed
      rw [ExecManager.record_monitor]
      rcases away with here | here
      all_goals
        simp only [ExecMonitor.step, ExecMonitor.threadStep, here, Option.some.injEq] at moved
        subst moved
        exact separate.unused
  | queue action =>
    simp only [QueuedExecution.step, Option.ite_none_right_eq_some] at taken
    obtain ⟨may, taken⟩ := taken
    obtain ⟨q, moved, rfl⟩ := Option.map_eq_some_iff.mp taken
    have before (inCall : q.threads[0]? ≠ some .outside) (noPush : ∀ event, action ≠ .push 0 event)
        (noPop : ∀ timed, action ≠ .pop 0 timed) : s.manager.monitor.thread = .processing :=
      separate.inside fun outside => inCall (outside_stays outside moved noPush noPop)
    cases action with
    | push k event =>
      have other : k ≠ 0 := by simpa [mayAct] using may
      exact ⟨fun inCall => before inCall (by simp [other]) (by simp), separate.unused⟩
    | pop k timed =>
      have processing : s.manager.monitor.thread = .processing := by
        simp only [mayAct, decide_eq_true_eq] at may
        exact may.2.2
      exact ⟨fun _ => processing, separate.unused⟩
    | check k =>
      obtain rfl : k = 0 := by simpa [mayAct] using may
      obtain ⟨⟨phase, atZero, _⟩, ⟨event, rest, _, rfl⟩ | ⟨_, _, rfl⟩ | ⟨_, _, rfl⟩⟩ := check_cases moved
      all_goals
        have within := (List.getElem?_eq_some_iff.mp atZero).1
        refine ⟨fun inCall => ?_, ?_⟩
      · simp [ConcurrentQueue.finish, ConcurrentQueue.move, within] at inCall
      · simpa only [popResult_finish, popReturned] using separate.unused
      · simpa only [popResult_move, popReturned] using before inCall (by simp) (by simp)
      · simpa only [popResult_move, popReturned] using separate.unused
      · simp [ConcurrentQueue.finish, ConcurrentQueue.move, within] at inCall
      · simpa only [popResult_finish, popReturned] using separate.unused
    | notifyOne | wake | timeout =>
      exact ⟨fun inCall => before inCall (by simp) (by simp), separate.unused⟩

/-- At least one thread besides that of the monitor may call `enqueue_event`. -/
def initial (others : Nat) : QueuedExecution where eventQueue := .initial (others + 2)

theorem separate_of_run {others : Nat} {ts : List (Transition QueuedExecution Action)}
    (run : Run step (initial others) ts s) : s.Separate := by
  refine run.invariant ⟨?_, rfl⟩ Separate.step
  intro inCall
  simp [initial, ConcurrentQueue.initial] at inCall

/-- Nobody is in a call on the queue. -/
structure AtRest (s : QueuedExecution) : Prop where
  outside : ∀ phase ∈ s.eventQueue.threads, phase = .outside
  two : 2 ≤ s.eventQueue.threads.length
  unused : s.manager.monitor.eventQueue = []

theorem AtRest.within (rests : s.AtRest) (small : k < 2) : s.eventQueue.threads[k]? = some .outside := by
  have inside : k < s.eventQueue.threads.length := by
    have two := rests.two
    omega
  rw [List.getElem?_eq_getElem inside, rests.outside _ (List.getElem_mem inside)]

theorem AtRest.back (rests : s.AtRest) {q : ConcurrentQueue ExecEvent} {manager : ExecManager}
    (threads : q.threads = s.eventQueue.threads.set k .outside) (unused : manager.monitor.eventQueue = []) :
    AtRest { manager, eventQueue := q } := by
  refine ⟨?_, ?_, unused⟩
  · intro phase member
    rw [threads] at member
    rcases List.mem_or_eq_of_mem_set member with old | rfl
    · exact rests.outside phase old
    · rfl
  · simpa [threads] using rests.two

/-- A whole call of `enqueue_event` by thread 1, which finds nobody to notify. -/
theorem makes_push (rests : s.AtRest) (event : ExecEvent) : ∃ ts s', Run step s ts s' ∧
    ts.filterMap (Transition.project abstracted stands) =
      [⟨s.abstracted, .monitor (.enqueueEvent event), s'.abstracted⟩] ∧ s'.AtRest := by
  have outside := rests.within (k := 1) (by omega)
  have within := (List.getElem?_eq_some_iff.mp outside).1
  let pushed : QueuedExecution :=
    { manager := s.manager.record (.enqueueEvent event) s.manager.monitor
      eventQueue := { s.eventQueue.move 1 .notifying with
        queue := s.eventQueue.queue ++ [event], pushed := s.eventQueue.pushed ++ [event] } }
  have pushes : s.step (.queue (.push 1 event)) = some pushed := by
    simp [step, mayAct, ConcurrentQueue.step, outside, pushed]
  have nobody : ∀ phase ∈ pushed.eventQueue.threads, phase.isBlocked = false := by
    intro phase member
    rcases List.mem_or_eq_of_mem_set member with old | rfl
    · rw [rests.outside phase old]
      rfl
    · rfl
  let notified : QueuedExecution := { pushed with eventQueue := pushed.eventQueue.move 1 .outside }
  have notifies : pushed.step (.queue (.notifyOne 1 none)) = some notified := by
    have atOne : pushed.eventQueue.threads[1]? = some .notifying := by
      simp [pushed, ConcurrentQueue.move, within]
    have unblocked : pushed.eventQueue.threads.any QueuePhase.isBlocked = false := by simpa using nobody
    simp [step, mayAct, ConcurrentQueue.step, atOne, unblocked, notified]
  refine ⟨_, _, .next (.next .start pushes) notifies, rfl, ?_⟩
  exact rests.back (k := 1) (by simp [pushed, ConcurrentQueue.move]) rests.unused

theorem step_check (checked : s.eventQueue.step (.check 0) = some q) :
    s.step (.queue (.check 0)) = some { manager := s.popReturned (popResult s.eventQueue q), eventQueue := q } := by
  simp [step, mayAct, checked]

/-- A whole call of `pop(0)` by the thread of the monitor: without an event it blocks, and times out. -/
theorem makes_pop (rests : s.AtRest) (processing : s.manager.monitor.thread = .processing) : ∃ ts s',
    Run step s ts s' ∧ ts.filterMap (Transition.project abstracted stands) =
      [⟨s.abstracted, .monitor .thread, s'.abstracted⟩] ∧ s'.AtRest := by
  have outside := rests.within (k := 0) (by omega)
  have within := (List.getElem?_eq_some_iff.mp outside).1
  let inCall (phase : QueuePhase) : QueuedExecution := { s with eventQueue := s.eventQueue.move 0 phase }
  have same (phase : QueuePhase) : (inCall phase).abstracted = s.abstracted := rfl
  have atZero (phase : QueuePhase) : (inCall phase).eventQueue.threads[0]? = some phase := by
    simp [inCall, ConcurrentQueue.move, within]
  have pops : s.step (.queue (.pop 0 true)) = some (inCall (.entering true)) := by
    simp [step, mayAct, ConcurrentQueue.step, outside, processing, inCall]
  cases front : s.eventQueue.queue with
  | cons event rest =>
    have takes : (inCall (.entering true)).eventQueue.step (.check 0) =
        some ((inCall (.entering true)).eventQueue.finish 0 (some event) rest) := by
      have atFront : (inCall (.entering true)).eventQueue.queue = event :: rest := front
      simp [ConcurrentQueue.step, atZero, ConcurrentQueue.test, atFront]
    refine ⟨_, _, .next (.next .start pops) (step_check takes), ?_, ?_⟩
    · simp [Transition.project, stands, takes, same]
    · exact rests.back (k := 0) (by simp [inCall, ConcurrentQueue.finish, ConcurrentQueue.move])
        (by simpa [popReturned] using rests.unused)
  | nil =>
    have empty (phase : QueuePhase) : (inCall phase).eventQueue.queue = [] := front
    have blocks : (inCall (.entering true)).eventQueue.step (.check 0) =
        some ((inCall (.entering true)).eventQueue.move 0 (.blocked true)) := by
      simp [ConcurrentQueue.step, atZero, ConcurrentQueue.test, empty]
    have fails : (inCall .timedOut).eventQueue.step (.check 0) =
        some ((inCall .timedOut).eventQueue.finish 0 none []) := by
      simp [ConcurrentQueue.step, atZero, ConcurrentQueue.test, empty]
    have waits : (inCall (.entering true)).step (.queue (.check 0)) = some (inCall (.blocked true)) := by
      rw [step_check blocks, popResult_move]
      simp [popReturned, inCall, ConcurrentQueue.move]
    have expires : (inCall (.blocked true)).step (.queue (.timeout 0)) = some (inCall .timedOut) := by
      simp [step, mayAct, ConcurrentQueue.step, atZero]
      simp [inCall, ConcurrentQueue.move]
    refine ⟨_, _, .next (.next (.next (.next .start pops) waits) expires) (step_check fails), ?_, ?_⟩
    · simp [Transition.project, stands, blocks, fails, same]
    · exact rests.back (k := 0) (by simp [inCall, ConcurrentQueue.finish, ConcurrentQueue.move])
        (by simpa [popReturned] using rests.unused)

theorem AtRest.separate (rests : s.AtRest) : s.Separate :=
  ⟨fun inCall => absurd (rests.within (by omega)) inCall, rests.unused⟩

/-- A run that stands for a single step does what that step does. -/
theorem AtRest.step_of_run (rests : s.AtRest) {ts : List (Transition QueuedExecution Action)}
    {action : ExecManager.Action} (run : Run step s ts s')
    (same : ts.filterMap (Transition.project abstracted stands) = [⟨s.abstracted, action, s'.abstracted⟩]) :
    s.abstracted.step action = some s'.abstracted := by
  have separate {ts : List (Transition QueuedExecution Action)} {s' : QueuedExecution} (run : Run step s ts s') :
      s'.Separate := run.invariant rests.separate Separate.step
  have projected := run.project separate step_abstracted
  rw [same] at projected
  exact projected.head.2.1

/-- What the manager with a list for a queue does in one step can be done with this one in a few. -/
theorem makes_step (rests : s.AtRest) {action : ExecManager.Action} {manager : ExecManager}
    (taken : s.abstracted.step action = some manager) : ∃ ts s', Run step s ts s' ∧
      ts.filterMap (Transition.project abstracted stands) = [⟨s.abstracted, action, manager⟩] ∧
        s'.abstracted = manager ∧ s'.AtRest := by
  suffices ∃ ts s', Run step s ts s' ∧ ts.filterMap (Transition.project abstracted stands) =
      [⟨s.abstracted, action, s'.abstracted⟩] ∧ s'.AtRest by
    obtain ⟨ts, s', run, same, rests'⟩ := this
    have reached := (rests.step_of_run run same).symm.trans taken
    cases Option.some.inj reached
    exact ⟨ts, s', run, same, rfl, rests'⟩
  by_cases thread : action = .monitor .thread
  · subst thread
    by_cases processing : s.manager.monitor.thread = .processing
    · exact makes_pop rests processing
    · have away : s.manager.monitor.thread = .testing ∨ s.manager.monitor.thread = .looping := by
        obtain ⟨m, moved, _⟩ := Option.map_eq_some_iff.mp taken
        have enabled : (s.abstracted.monitor.threadStep s.manager.executionEnded).isSome := by
          have moved : s.abstracted.monitor.threadStep s.manager.executionEnded = some m := moved
          simp [moved]
        cases phase : s.manager.monitor.thread <;>
          simp_all [ExecMonitor.threadStep, abstracted]
      rw [thread_abstracted away] at taken
      obtain ⟨m, managed, _⟩ := Option.map_eq_some_iff.mp taken
      refine ⟨_, { s with manager := m }, .single (a := .thread) ?_, rfl, ?_⟩
      · simp [step, away, managed]
      · exact ⟨rests.outside, rests.two, (rests.separate.step (a := .thread) (by simp [step, away, managed])).unused⟩
  · by_cases push : ∃ event, action = .monitor (.enqueueEvent event)
    · obtain ⟨event, rfl⟩ := push
      exact makes_push rests event
    · have noPush (event : ExecEvent) : action ≠ .monitor (.enqueueEvent event) := fun same => push ⟨event, same⟩
      rw [outside_abstracted action noPush thread] at taken
      obtain ⟨m, managed, _⟩ := Option.map_eq_some_iff.mp taken
      have taken : s.step (.outside action) = some { s with manager := m } := by
        simp only [step, managed, Option.map_some]
      exact ⟨_, { s with manager := m }, .single taken, rfl, rests.outside, rests.two,
        (rests.separate.step taken).unused⟩

/-- To those who use it, a manager with a concurrent queue is one whose queue is a list: the runs of the one
are those of the other. -/
theorem queue_is_a_list_iff (others : Nat) {us : List (Transition ExecManager ExecManager.Action)} {u : ExecManager} :
    (∃ ts s, Run step (initial others) ts s ∧
      ts.filterMap (Transition.project abstracted stands) = us ∧ s.abstracted = u) ↔
        Run ExecManager.step {} us u := by
  constructor
  · rintro ⟨ts, s, run, rfl, rfl⟩
    exact run.project separate_of_run step_abstracted
  · intro run
    have run : Run ExecManager.step (initial others).abstracted us u := run
    have rests : (initial others).AtRest := ⟨by simp [initial, ConcurrentQueue.initial],
      by simp [initial, ConcurrentQueue.initial], rfl⟩
    obtain ⟨ts, s, made, same, ends, _⟩ := Run.lift (f := abstracted) (g := stands) rests
      (fun rests taken => makes_step rests taken) run
    exact ⟨ts, s, made, same, ends⟩

/-- The phases of a call of `pop(timeout)`. -/
def inTimedPop : QueuePhase → Bool
  | .outside | .timedOut => true
  | .entering timed | .blocked timed | .woken timed => timed
  | .notifying => false

/-- Where the thread of the monitor stands in the queue. -/
def Timed (q : ConcurrentQueue ExecEvent) : Prop := ∃ phase, q.threads[0]? = some phase ∧ inTimedPop phase = true

theorem Timed.move (timed : Timed q) {phase : QueuePhase} (stays : k = 0 → inTimedPop phase = true) :
    Timed (q.move k phase) := by
  obtain ⟨old, atZero, inCall⟩ := timed
  have within := (List.getElem?_eq_some_iff.mp atZero).1
  by_cases own : k = 0
  · subst own
    exact ⟨phase, by simp [ConcurrentQueue.move, within], stays rfl⟩
  · exact ⟨old, by simpa [ConcurrentQueue.move, List.getElem?_set_ne own] using atZero, inCall⟩

theorem Timed.step {action : ConcurrentQueue.Action ExecEvent} (timed : Timed q) (may : s.mayAct action = true)
    (taken : q.step action = some q') : Timed q' := by
  have known {phase : QueuePhase} (atZero : q.threads[0]? = some phase) : inTimedPop phase = true := by
    obtain ⟨phase', atZero', inCall⟩ := timed
    cases atZero.symm.trans atZero'
    exact inCall
  cases action with
  | push k event =>
    simp only [ConcurrentQueue.step, Option.ite_none_right_eq_some, Option.some.injEq] at taken
    obtain ⟨_, rfl⟩ := taken
    have other : k ≠ 0 := by simpa [mayAct] using may
    exact timed.move (k := k) (by simp [other])
  | pop k expires =>
    simp only [ConcurrentQueue.step, Option.ite_none_right_eq_some, Option.some.injEq] at taken
    obtain ⟨_, rfl⟩ := taken
    simp only [mayAct, decide_eq_true_eq] at may
    exact timed.move fun _ => may.2.1
  | notifyOne k chosen =>
    simp only [ConcurrentQueue.step, Option.ite_none_right_eq_some] at taken
    obtain ⟨notifies, taken⟩ := taken
    have left : Timed (q.move k .outside) := timed.move fun _ => rfl
    cases chosen with
    | none =>
      simp only [Option.ite_none_left_eq_some, Option.some.injEq] at taken
      exact taken.2 ▸ left
    | some j =>
      dsimp only at taken
      split at taken
      · rename_i expires waits
        cases Option.some.inj taken
        refine left.move ?_
        rintro rfl
        simpa [inTimedPop] using known waits
      · simp at taken
  | check k =>
    obtain ⟨⟨phase, atK, inCall⟩, ⟨_, _, _, rfl⟩ | ⟨expires, inPop, rfl⟩ | ⟨_, _, rfl⟩⟩ := check_cases taken
    · exact timed.move fun _ => rfl
    · refine timed.move ?_
      rintro rfl
      rcases inPop with atZero | atZero
      all_goals simpa [inTimedPop] using known atZero
    · exact timed.move fun _ => rfl
  | wake k =>
    simp only [ConcurrentQueue.step] at taken
    split at taken
    · rename_i expires waits
      cases Option.some.inj taken
      refine timed.move ?_
      rintro rfl
      simpa [inTimedPop] using known waits
    · simp at taken
  | timeout k =>
    simp only [ConcurrentQueue.step] at taken
    split at taken
    · cases Option.some.inj taken
      exact timed.move fun _ => rfl
    · cases Option.some.inj taken
      exact timed.move fun _ => rfl
    · simp at taken

theorem timed_of_run {others : Nat} {ts : List (Transition QueuedExecution Action)}
    (run : Run step (initial others) ts s) : Timed s.eventQueue := by
  refine run.invariant (I := fun s => Timed s.eventQueue) ?_ ?_
  · exact ⟨.outside, by simp [initial, ConcurrentQueue.initial], rfl⟩
  · intro s a s' timed taken
    cases a with
    | outside action =>
      simp only [step] at taken
      split at taken
      · simp at taken
      · simp at taken
      · obtain ⟨_, _, rfl⟩ := Option.map_eq_some_iff.mp taken
        exact timed
    | thread =>
      simp only [step, Option.ite_none_right_eq_some] at taken
      obtain ⟨_, _, rfl⟩ := Option.map_eq_some_iff.mp taken.2
      exact timed
    | queue action =>
      simp only [step, Option.ite_none_right_eq_some] at taken
      obtain ⟨_, moved, rfl⟩ := Option.map_eq_some_iff.mp taken.2
      exact timed.step taken.1 moved

/-- A step of `process_events` that its thread makes on its own, as when nobody wakes it without a
reason. -/
def Action.own : Action → Bool
  | .queue (.pop _ _) | .queue (.check _) | .queue (.timeout _) => true
  | _ => false

/-- How many steps are left of a call of pop that finds no event, with the one that calls it. -/
def popSteps : QueuePhase → Nat
  | .outside => 4
  | .entering _ | .woken _ => 3
  | .blocked _ => 2
  | .timedOut | .notifying => 1

/-- How many steps are left of `process_events`, if nobody else makes one. -/
def left (s : QueuedExecution) : Nat :=
  if s.manager.monitor.thread = .processing then
    4 * s.eventQueue.queue.length + popSteps (s.eventQueue.threads[0]?.getD .outside)
  else 0

theorem left_le (s : QueuedExecution) : s.left ≤ 4 * (s.eventQueue.queue.length + 1) := by
  have most (phase : QueuePhase) : popSteps phase ≤ 4 := by cases phase <;> simp [popSteps]
  have pop := most (s.eventQueue.threads[0]?.getD .outside)
  unfold left
  split <;> omega

/-- `process_events` is under way, or has left no event behind; it has `events` to handle. -/
structure Processes (events : List ExecEvent) (s : QueuedExecution) : Prop where
  timed : Timed s.eventQueue
  thread : s.manager.monitor.thread = .processing ∨
    s.manager.monitor.thread = .testing ∧ s.eventQueue.queue = []
  inside : s.eventQueue.threads[0]? ≠ some .outside → s.manager.monitor.thread = .processing
  events : s.manager.monitor.handled ++ s.eventQueue.queue = events

variable {events : List ExecEvent}

theorem left_eq {phase : QueuePhase} (processing : s.manager.monitor.thread = .processing)
    (atZero : s.eventQueue.threads[0]? = some phase) : s.left = 4 * s.eventQueue.queue.length + popSteps phase := by
  simp [left, processing, atZero]

theorem threads_move {q : ConcurrentQueue ExecEvent} {old : QueuePhase} (atZero : q.threads[0]? = some old)
    (phase : QueuePhase) : (q.move 0 phase).threads[0]? = some phase := by
  have within := (List.getElem?_eq_some_iff.mp atZero).1
  simp [ConcurrentQueue.move, within]

/-- The thread of the monitor goes on in the queue, and it takes no event. -/
theorem Processes.moved {old phase : QueuePhase} (processes : s.Processes events)
    (processing : s.manager.monitor.thread = .processing) (atZero : s.eventQueue.threads[0]? = some old)
    (inCall : inTimedPop phase = true) (fewer : popSteps phase < popSteps old) :
    Processes events { s with eventQueue := s.eventQueue.move 0 phase } ∧
      left { s with eventQueue := s.eventQueue.move 0 phase } < s.left := by
  refine ⟨⟨processes.timed.move fun _ => inCall, .inl processing, fun _ => processing, processes.events⟩, ?_⟩
  have after : left { s with eventQueue := s.eventQueue.move 0 phase } =
      4 * s.eventQueue.queue.length + popSteps phase := left_eq processing (threads_move atZero phase)
  rw [after, left_eq processing atZero]
  omega

theorem Processes.step (processes : s.Processes events) (own : a.own = true) (taken : s.step a = some s') :
    s'.Processes events ∧ s'.left < s.left := by
  cases a with
  | outside | thread => simp [Action.own] at own
  | queue action =>
    simp only [QueuedExecution.step, Option.ite_none_right_eq_some] at taken
    obtain ⟨may, taken⟩ := taken
    obtain ⟨q, moved, rfl⟩ := Option.map_eq_some_iff.mp taken
    cases action with
    | push | notifyOne | wake => simp [Action.own] at own
    | pop k timed =>
      simp only [mayAct, decide_eq_true_eq] at may
      obtain ⟨rfl, timed, processing⟩ := may
      simp only [ConcurrentQueue.step, Option.ite_none_right_eq_some, Option.some.injEq] at moved
      obtain ⟨outside, rfl⟩ := moved
      exact processes.moved processing outside timed (by simp [popSteps])
    | timeout k =>
      obtain rfl : k = 0 := by simpa [mayAct] using may
      simp only [ConcurrentQueue.step] at moved
      split at moved
      · rename_i atZero
        cases Option.some.inj moved
        exact processes.moved (processes.inside (by simp [atZero])) atZero rfl (by simp [popSteps])
      · rename_i atZero
        cases Option.some.inj moved
        exact processes.moved (processes.inside (by simp [atZero])) atZero rfl (by simp [popSteps])
      · simp at moved
    | check k =>
      obtain rfl : k = 0 := by simpa [mayAct] using may
      obtain ⟨⟨phase, atZero, inCall⟩, ⟨event, rest, front, rfl⟩ | ⟨timed, inPop, rfl⟩ | ⟨_, empty, rfl⟩⟩ :=
        check_cases moved
      all_goals
        have processing := processes.inside (by simpa [atZero] using inCall)
        have positive : 0 < popSteps phase := by cases phase <;> simp [popSteps]
      · simp only [popResult_finish, popReturned]
        refine ⟨⟨processes.timed.move fun _ => rfl, .inl processing, fun _ => processing, ?_⟩, ?_⟩
        · have known := processes.events
          rw [front] at known
          simpa [ConcurrentQueue.finish] using known
        · have after := left_eq (s := ⟨s.popReturned (some (some event)), s.eventQueue.finish 0 (some event) rest⟩)
            processing (threads_move atZero .outside)
          rw [left_eq processing atZero, front, List.length_cons]
          refine after.trans_lt ?_
          have rests : 4 * rest.length + 4 < 4 * (rest.length + 1) + popSteps phase := by omega
          exact rests
      · simp only [popResult_move, popReturned]
        have timed : timed = true := by
          obtain ⟨phase', atZero', known⟩ := processes.timed
          rcases inPop with entering | woken
          · cases entering.symm.trans atZero'
            exact known
          · cases woken.symm.trans atZero'
            exact known
        rcases inPop with entering | woken
        · exact processes.moved processing entering timed (by simp [popSteps])
        · exact processes.moved processing woken timed (by simp [popSteps])
      · simp only [popResult_finish, popReturned]
        have left : (s.eventQueue.finish 0 none []).threads[0]? = some .outside := threads_move atZero .outside
        refine ⟨⟨processes.timed.move fun _ => rfl, .inr ⟨rfl, rfl⟩, fun inCall => absurd left inCall, ?_⟩, ?_⟩
        · have known := processes.events
          rw [empty] at known
          exact known
        · rw [left_eq processing atZero]
          simp only [QueuedExecution.left]
          split
          · rename_i testing
            cases testing
          · omega

/-- A call of `process_events` is over when its thread has nothing left to do on its own. -/
theorem Processes.ended (processes : s.Processes events) (stuck : ∀ a : Action, a.own = true → s.step a = none) :
    s.manager.monitor.thread = .testing ∧ s.eventQueue.queue = [] ∧ s.manager.monitor.handled = events := by
  have ends : s.manager.monitor.thread = .testing ∧ s.eventQueue.queue = [] := by
    rcases processes.thread with processing | ended
    · exfalso
      obtain ⟨phase, atZero, inCall⟩ := processes.timed
      cases phase with
      | outside =>
        have enabled := stuck (.queue (.pop 0 true)) rfl
        simp [QueuedExecution.step, mayAct, ConcurrentQueue.step, atZero, processing] at enabled
      | notifying => cases inCall
      | entering | woken | timedOut =>
        have enabled := stuck (.queue (.check 0)) rfl
        simp [QueuedExecution.step, mayAct, ConcurrentQueue.step, atZero] at enabled
      | blocked timed =>
        cases (inCall : timed = true)
        have enabled := stuck (.queue (.timeout 0)) rfl
        simp [QueuedExecution.step, mayAct, ConcurrentQueue.step, atZero] at enabled
    · exact ended
  have known := processes.events
  rw [ends.2, List.append_nil] at known
  exact ⟨ends.1, ends.2, known⟩

/-- `process_events` needs nobody else: wherever its thread stands in it, the next few steps of that thread
alone, four for an event and four more at most, take it to its end, and the events that were in the queue
have been handled by then. -/
theorem process_events_ends {others : Nat} {ts : List (Transition QueuedExecution Action)}
    (run : Run step (initial others) ts s) (processing : s.manager.monitor.thread = .processing) :
    (∀ more s', Run step s more s' → (∀ t ∈ more, t.action.own = true) →
      more.length ≤ 4 * (s.eventQueue.queue.length + 1)) ∧
    ∃ more s', Run step s more s' ∧ (∀ t ∈ more, t.action.own = true) ∧ s'.manager.monitor.thread = .testing ∧
      s'.eventQueue.queue = [] ∧ s'.manager.monitor.handled = s.manager.monitor.handled ++ s.eventQueue.queue := by
  have processes : s.Processes (s.manager.monitor.handled ++ s.eventQueue.queue) :=
    ⟨timed_of_run run, .inl processing, fun _ => processing, rfl⟩
  constructor
  · intro more s' later own
    have bound := (later.length_add_work_le (G := fun _ a => Action.own a = true) processes Processes.step own).2
    have most := s.left_le
    omega
  · obtain ⟨more, s', later, own, processes', stuck⟩ :=
      exists_run_stuck (G := fun _ a => Action.own a = true) processes Processes.step
    exact ⟨more, s', later, own, processes'.ended stuck⟩

/-- The thread of the monitor is in a blocked `pop(0)` while another one pushes an event. -/
theorem process_events_ends_one : ∃ ts s more s', Run step (initial 0) ts s ∧
    s.manager.monitor.thread = .processing ∧ s.eventQueue.threads = [.blocked true, .notifying] ∧
      Run step s more s' ∧ more.length ≤ 8 ∧ s'.manager.monitor.handled = [⟨.processCreated, 7⟩] := by
  obtain ⟨ts, s, run, _, test⟩ := run_of_exec_any step (initial 0)
    [.outside (.monitor .doInitialize), .outside (.monitor .start), .thread, .thread, .queue (.pop 0 true),
      .queue (.check 0), .queue (.push 1 ⟨.processCreated, 7⟩)]
    (fun s => s.manager.monitor.thread = .processing ∧ s.eventQueue.threads = [.blocked true, .notifying] ∧
      s.eventQueue.queue = [⟨.processCreated, 7⟩] ∧ s.manager.monitor.handled = []) rfl
  obtain ⟨processing, threads, queue, handled⟩ := of_decide_eq_true test
  obtain ⟨bound, more, s', later, own, _, _, all⟩ := process_events_ends run processing
  have few := bound more s' later own
  rw [queue] at few
  exact ⟨ts, s, more, s', run, processing, threads, later, few, by rw [all, handled, queue, List.nil_append]⟩

end QueuedExecution

end Aser
