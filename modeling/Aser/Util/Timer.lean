import Mathlib.Algebra.Group.Int.Defs
import Mathlib.Algebra.Group.Nat.Defs
import Aser.Library.Run

namespace Aser

open Library

/-- Who uses a `callback_timer`: the thread it starts, and the thread that destroys it. -/
inductive TimerThread
  | run
  | destructor
  deriving DecidableEq

/-- Where `run` stands. From `testing` to `lastTesting` it is in `cond_.wait_for`, which computes the
`deadline` when it is called and evaluates the predicate before each wait, and once more after the
wait that timed out; `expired` is where `wait_for` has returned false. -/
inductive RunPhase
  | starting
  | locked
  | testing (deadline : Int)
  | releasing (deadline : Int)
  | blocked (deadline : Int)
  | woken (deadline : Int)
  | relocked (deadline : Int)
  | lastTesting
  | expired
  | calling
  | unlocking
  | ended
  deriving DecidableEq

/-- Where the destructor stands. -/
inductive DestructorPhase
  | notCalled
  | locking
  | locked
  | unlocking
  | notifying
  | joining
  | returned
  deriving DecidableEq

namespace RunPhase

def holdsMutex : RunPhase → Bool
  | locked | testing _ | releasing _ | relocked _ | lastTesting | expired | calling | unlocking => true
  | _ => false

/-- What `notify_one` on `cond_` does. -/
def notified : RunPhase → RunPhase
  | blocked deadline => woken deadline
  | phase => phase

end RunPhase

namespace DestructorPhase

def holdsMutex : DestructorPhase → Bool
  | locked | unlocking => true
  | _ => false

/-- `canceled_` is set. -/
def hasCanceled : DestructorPhase → Bool
  | unlocking | notifying | joining | returned => true
  | _ => false

/-- `notify_one` is done. -/
def hasNotified : DestructorPhase → Bool
  | joining | returned => true
  | _ => false

end DestructorPhase

/-- A `callback_timer` with both threads. `duration` is in milliseconds; `clock` is the steady clock, in
nanoseconds. `calls` counts how often the callback was invoked; after `std::terminate` nothing happens any
more. -/
structure CallbackTimer where
  duration : Int
  canceled : Bool := false
  mutex : Option TimerThread := none
  run : RunPhase := .starting
  destructor : DestructorPhase := .notCalled
  clock : Int := 0
  calls : Nat := 0
  terminated : Bool := false
  deriving DecidableEq

namespace CallbackTimer

/-- The constructor starts the thread last, when all other members are there. -/
def init (duration : Int) : CallbackTimer := { duration }

/-- `wake` is the end of a wait on `cond_` without `notify_one`: because the time is up, or for no
reason. `resume` is what that wait returns once it has the mutex again. -/
inductive Action
  | tick (nanoseconds : Nat)
  | lock
  | waitFor
  | evaluate
  | block
  | wake
  | relock
  | resume (timedOut : Bool)
  | invoke
  | callbackReturns
  | unlock
  | destroy
  | destructorLock
  | cancel
  | destructorUnlock
  | notifyOne
  | join
  | throws (thread : TimerThread)
  deriving DecidableEq

def Action.isTick : Action → Bool
  | tick _ => true
  | _ => false

def nanoseconds (milliseconds : Int) : Int := milliseconds * 1000000

/-- Until when `wait_for` waits if it is called now. Times are counted in 64 bits. -/
def deadline (s : CallbackTimer) : Int := (s.clock + nanoseconds s.duration).bmod (2 ^ 64)

/-- The steps of `run`. Taking the mutex is not enabled while the other thread has it. -/
def runStep (s : CallbackTimer) : Action → Option CallbackTimer
  | .lock =>
    if s.run = .starting ∧ s.mutex = none then some { s with run := .locked, mutex := some .run } else none
  | .waitFor => if s.run = .locked then some { s with run := .testing s.deadline } else none
  | .evaluate =>
    match s.run with
    | .testing deadline => some { s with run := if s.canceled then .unlocking else .releasing deadline }
    | .lastTesting => some { s with run := if s.canceled then .unlocking else .expired }
    | _ => none
  | .block =>
    match s.run with
    | .releasing deadline => some { s with run := .blocked deadline, mutex := none }
    | _ => none
  | .wake =>
    match s.run with
    | .blocked deadline => some { s with run := .woken deadline }
    | _ => none
  | .relock =>
    match s.run with
    | .woken deadline =>
      if s.mutex = none then some { s with run := .relocked deadline, mutex := some .run } else none
    | _ => none
  | .resume timedOut =>
    match s.run with
    | .relocked deadline =>
      if timedOut then
        if deadline ≤ s.clock then some { s with run := .lastTesting } else none
      else some { s with run := .testing deadline }
    | _ => none
  | .invoke => if s.run = .expired then some { s with run := .calling, calls := s.calls + 1 } else none
  | .callbackReturns => if s.run = .calling then some { s with run := .unlocking } else none
  | .unlock => if s.run = .unlocking then some { s with run := .ended, mutex := none } else none
  | _ => none

def destructorStep (s : CallbackTimer) : Action → Option CallbackTimer
  | .destroy => if s.destructor = .notCalled then some { s with destructor := .locking } else none
  | .destructorLock =>
    if s.destructor = .locking ∧ s.mutex = none then
      some { s with destructor := .locked, mutex := some .destructor }
    else none
  | .cancel => if s.destructor = .locked then some { s with destructor := .unlocking, canceled := true } else none
  | .destructorUnlock =>
    if s.destructor = .unlocking then some { s with destructor := .notifying, mutex := none } else none
  | .notifyOne =>
    if s.destructor = .notifying then some { s with destructor := .joining, run := s.run.notified } else none
  | .join =>
    if s.destructor = .joining ∧ s.run = .ended then some { s with destructor := .returned } else none
  | _ => none

/-- Which calls may throw: the callback and the ones that take the mutex or join. An exception that
leaves `run` ends the program, and so does one that the destructor catches. -/
def mayThrow (s : CallbackTimer) : TimerThread → Bool
  | .run => s.run = .starting || s.run = .calling
  | .destructor => s.destructor = .locking || s.destructor = .joining

def step (s : CallbackTimer) (a : Action) : Option CallbackTimer :=
  if s.terminated then none
  else match a with
    | .tick nanoseconds => some { s with clock := s.clock + nanoseconds }
    | .throws thread => if s.mayThrow thread then some { s with terminated := true } else none
    | a => (s.runStep a).or (s.destructorStep a)

end CallbackTimer

end Aser
