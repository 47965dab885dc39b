import Aser.ExecManager.SimpleUnwinding
import Aser.Library.Progress

namespace Aser

open Library

/-- The steps that a call on an object has still before it, with those of its destructor. -/
def ParentCall.work : ParentCall → Nat
  | .none => 8
  | .prepare todo | .start todo => todo.length + 9
  | .destroyPipes todo => todo.length + 3
  | .destroyProcess false => 2
  | .destroyProcess true => 1
  | .destroyed => 0

def ChildPhase.work : ChildPhase → Nat
  | .waitForParent todo => todo.length + 3
  | .program | .escaped _ => 2
  | .ended _ => 1
  | .reaped => 0

def Waiter.work : Waiter → Nat
  | .none => 2
  | .waitpid => 1
  | .returning => 0

namespace SyncProcess

def childWork (o : SyncProcess) : Nat := (o.child.map fun c => c.phase.work).getD 0

def work (o : SyncProcess) : Nat := o.call.work + o.childWork + o.waiter.work

/-- What an action may add to the work, and what it is sure to do of it. -/
@[grind =] def Action.price : Action → Nat
  | .prepare _ _ => 14
  | .start => 3
  | .waitReturns => 2
  | .waitThrows => 1
  | _ => 0

@[grind =] def Action.gain : Action → Nat
  | .prepare _ _ | .start | .waitReturns | .waitThrows | .kill => 0
  | _ => 1

variable {v : View} {o o' : SyncProcess} {a : Action}

theorem work_dies_le (c : Child) (status : Int) : (c.dies status).phase.work ≤ c.phase.work := by
  unfold Child.dies Child.running
  cases phase : c.phase with
  | waitForParent todo => simp [ChildPhase.work]
  | _ => simp [phase, ChildPhase.work]

theorem work_dies_lt {c : Child} (running : c.running = true) (status : Int) :
    (c.dies status).phase.work < c.phase.work := by
  rw [Child.dies, if_pos running]
  cases phase : c.phase with
  | ended | reaped => simp [Child.running, phase] at running
  | _ => simp [ChildPhase.work]

theorem childWork_dies_le (o : SyncProcess) (status : Int) :
    ((o.child.map (·.dies status)).map fun c => c.phase.work).getD 0 ≤ o.childWork := by
  cases child : o.child with
  | none => simp
  | some c => simpa [childWork, child] using work_dies_le c status

theorem childWork_onChild (child : Option Child) (op : SyncOp) :
    (child.map op.onChild).map (fun c => c.phase.work) = child.map fun c => c.phase.work := by
  rw [Option.map_map]
  congr 1
  funext c
  simp

/-- A call that goes on has less before it. -/
theorem work_next {call call' : ParentCall} {op : SyncOp} (next : call.next = some (op, call')) :
    call'.work + 1 = call.work := by
  rcases ParentCall.cases_of_next next with ⟨todo, rfl, rfl⟩ | ⟨todo, rfl, rfl⟩ | ⟨todo, rfl, rfl⟩
  all_goals simp only [ParentCall.work, List.length_cons]

/-- And so has one that is over by an exception, since destructors do not throw. -/
theorem work_thrown {op : SyncOp} {call : ParentCall} (next : o.call.next = some (op, call))
    (alive : o.alive = true) : ParentCall.work .none < o.call.work := by
  rcases ParentCall.cases_of_next next with ⟨todo, before, _⟩ | ⟨todo, before, _⟩ | ⟨todo, before, _⟩
  · simp only [before, ParentCall.work, List.length_cons]
    omega
  · simp only [before, ParentCall.work, List.length_cons]
    omega
  · simp [SyncProcess.alive, before, ParentCall.alive] at alive

/-- A child that fails on its way to its command, or that ends, has less before it. -/
theorem work_of_failing (fails : a.fails = true) (taken : o.step v a = some o') : o'.work < o.work := by
  cases a with
  | childThrows errno =>
    simp only [step] at taken
    split at taken
    · rename_i op todo pid pgid fds atChild
      obtain ⟨msg, _, rfl⟩ := Option.map_eq_some_iff.mp taken
      simp only [work, childWork, atChild, ChildPhase.work, Option.map_some, Option.getD_some, List.length_cons]
      omega
    · simp at taken
  | execvp errno =>
    cases errno with
    | none => simp [Action.fails] at fails
    | some errno =>
      simp only [step] at taken
      split at taken
      · rename_i pid pgid fds atChild
        cases Option.some.inj taken
        have before : o.childWork = 3 := by
          rw [childWork, atChild]
          rfl
        show o.call.work + 2 + o.waiter.work < o.work
        rw [work, before]
        omega
      · simp at taken
  | _ => simp [Action.fails] at fails

theorem work_of_ending {status : Int} (taken : o.step v (.childEnds status) = some o') : o'.work < o.work := by
  simp only [step] at taken
  split at taken
  · rename_i c atChild
    split at taken
    · rename_i ends
      cases Option.some.inj taken
      have less := work_dies_lt ends.1 status
      simp only [work, childWork, atChild, Option.map_some, Option.getD_some]
      omega
    · simp at taken
  · simp at taken

/-- What a step costs an object. -/
theorem work_step (h : o.Handshake) (taken : o.step v a = some o') : o'.work + a.gain ≤ o.work + a.price := by
  cases change_of_step taken with
  | refused => simp [Action.gain]
  | forked idle =>
    simp only [work, childWork, idle, ParentCall.work, ChildPhase.work, Option.map_some, Option.getD_some, Action.gain,
      Action.price]
    simp [SyncOp.waitForChild, SyncOp.waitForParent]
    omega
  | starts idle =>
    simp only [work, childWork, idle, ParentCall.work, SyncOp.start, List.length_cons, List.length_nil, Action.gain,
      Action.price]
    omega
  | destroys idle =>
    simp only [work, childWork, idle, ParentCall.work, SyncOp.destroyPipes, List.length_cons, List.length_nil,
      Action.gain, Action.price]
    omega
  | parentDoes next done =>
    have less := work_next next
    obtain ⟨ready, rfl⟩ := perform_frame done
    simp only [work, childWork, childWork_onChild, Action.gain, Action.price]
    omega
  | parentFails next failed =>
    have less := work_thrown next (alive_of_failed h next failed)
    simp only [work, childWork, Action.gain, Action.price]
    omega
  | parentThrows alive next =>
    have less := work_thrown next alive
    simp only [work, childWork, Action.gain, Action.price]
    omega
  | @swallows killed call =>
    cases killed with
    | false | true =>
      simp only [work, childWork, call, ParentCall.work, Action.gain, Action.price]
      omega
  | prepared call | started call =>
    simp only [work, childWork, call, ParentCall.work, List.length_nil, Action.gain, Action.price]
    omega
  | pipesDestroyed call =>
    have less : (if o.started && !o.terminated then ParentCall.destroyProcess false else .destroyed).work ≤ 2 := by
      split
      · exact Nat.le_refl 2
      · exact Nat.zero_le 2
    have three : o.call.work = 3 := by rw [call]; rfl
    simp only [Action.gain, Action.price]
    rw [work, work, three]
    dsimp only [childWork]
    omega
  | killed call =>
    have less := childWork_dies_le o sigkilled
    simp only [work, childWork, call, ParentCall.work, Action.gain, Action.price] at less ⊢
    omega
  | reaped call atChild ended =>
    simp only [work, childWork, call, atChild, ended, ParentCall.work, ChildPhase.work, Option.map_some,
      Option.getD_some, Action.gain, Action.price]
    omega
  | waits started running free =>
    simp only [work, childWork, free, Waiter.work, Action.gain, Action.price]
    omega
  | collects waiting atChild ended =>
    simp only [work, childWork, waiting, atChild, ended, Waiter.work, ChildPhase.work, Option.map_some,
      Option.getD_some, Action.gain, Action.price]
    omega
  | waitFails waiting =>
    simp only [work, childWork, waiting, Waiter.work, Action.gain, Action.price]
    omega
  | waited returning =>
    simp only [work, childWork, returning, Waiter.work, Action.gain, Action.price]
    omega
  | childDoes atChild phase done =>
    obtain ⟨ready, pgid, rfl⟩ := perform_child done atChild
    simp only [work, childWork, atChild, phase, ChildPhase.work, Option.map_some, Option.getD_some, List.length_cons,
      Action.gain, Action.price]
    omega
  | executes atChild phase | childFails atChild phase =>
    simp only [work, childWork, atChild, phase, ChildPhase.work, Option.map_some, Option.getD_some, List.length_cons,
      List.length_nil, Action.gain, Action.price]
    omega
  | escapes fails =>
    have less := work_of_failing fails taken
    have gain : a.gain = 1 := by
      cases a with
      | childThrows | execvp => rfl
      | _ => simp [Action.fails] at fails
    omega
  | dies signal =>
    rcases signal with rfl | rfl
    · have less := childWork_dies_le o
      simp only [work, childWork, Action.gain, Action.price] at less ⊢
      exact Nat.add_le_add_right (Nat.add_le_add_left (less _) _) _
    · have less := work_of_ending taken
      simp only [Action.gain, Action.price]
      omega

end SyncProcess

namespace SyncWorld

def work (w : SyncWorld) : Nat := (w.objects.map (·.work)).sum

@[grind =] def Action.price : Action → Nat
  | .construct _ _ => 10
  | .object _ a => a.price
  | .parentEnds => 0

@[grind =] def Action.gain : Action → Nat
  | .object _ a => a.gain
  | .construct _ _ | .parentEnds => 0

variable {w w' : SyncWorld} {a : Action}

theorem work_step (each : w.Each fun _ o => o.Handshake) (taken : w.step a = some w') :
    w'.work + a.gain ≤ w.work + a.price := by
  rcases step_cases taken with ⟨_, _, rfl, _, rfl⟩ | ⟨args, rfl, _, rfl⟩ | ⟨i, act, o, o', rfl, atI, _, moved, rfl⟩ |
    ⟨rfl, _, rfl⟩
  · simp [Action.gain]
  · simp only [work, List.map_append, List.map_cons, List.map_nil, List.sum_append, List.sum_cons, List.sum_nil]
    exact Nat.le_refl _
  · have balance := sum_map_set_balance atI (·.work) o'
    have paid := SyncProcess.work_step (each i o atI) moved
    dsimp only [work, Action.gain, Action.price] at balance ⊢
    omega
  · simp only [work, List.map_map]
    exact Nat.le_refl _

end SyncWorld

namespace ProcessMonitor

/-- The futures that the owner has still to wait for, and the call of the destructor. -/
def owed (m : ProcessMonitor) : Nat :=
  match m.owner with
  | .destroying left => left.length + 1
  | .destroyed => 0
  | _ => m.status.size + 2

def work (m : ProcessMonitor) : Nat := 3 * m.remaining + m.owed

@[grind =] def Action.price : Action → Nat
  | .add _ _ => 10
  | .waitForAny => 6
  | _ => 0

@[grind =] def Action.gain : Action → Nat
  | .add _ _ | .waitForAny => 0
  | .destroy | .destroyNext => 1
  | _ => 3

variable {answers : Nat → WaitResult} {m m' : ProcessMonitor} {a : Action}

theorem owed_popped (m : ProcessMonitor) (pid : Pid) : (m.popped pid).owed = m.status.size + 2 := by
  unfold popped
  split
  · rfl
  · rfl

/-- What goes on during a call of `wait_for_any` adds no future. -/
theorem owed_inCall (inCall : a.inCall = true) (taken : m.step answers a = some m') : m'.owed ≤ m.owed := by
  cases change_of_step taken with
  | fails | collects | pushes | finishes => exact Nat.le_refl _
  | pops popping =>
    rw [owed_popped, owed, popping]
  | @gets pid k t result getting =>
    rw [owed, owed, getting, owner_got]
    cases result with
    | error e => exact Nat.le_refl _
    | ok status => exact Nat.add_le_add_right (List.length_filter_le _ _) 2
  | _ => simp [Action.inCall] at inCall

theorem work_add (idle : m.owner = .idle) (kind : WaitKind) (pid : Pid) :
    (m.add kind pid).2.work ≤ m.work + 10 := by
  unfold add
  split
  · exact Nat.le_add_right _ _
  · rename_i accepted
    have new : pid ∉ m.status.keys := by
      intro known
      simp [checkDuplicatedPid, known] at accepted
    have size := OrderedMap.size_insert_of_new (v := m.workers.length) new
    simp only [work, remaining, owed, idle, size, List.map_append, List.map_cons, List.map_nil, List.sum_append,
      List.sum_cons, List.sum_nil, WorkerPhase.work, Owner.work]
    omega

theorem work_step (taken : m.step answers a = some m') : m'.work + a.gain ≤ m.work + a.price := by
  by_cases inCall : a.inCall = true
  · have fewer := remaining_lt taken inCall
    have owed := owed_inCall inCall taken
    have three : a.gain = 3 := by
      cases a with
      | pop | get | waitpid | push | finish => rfl
      | _ => simp [Action.inCall] at inCall
    simp only [work]
    omega
  · cases change_of_step taken with
    | adds idle => exact work_add idle _ _
    | calls idle =>
      simp only [work, remaining, owed, idle, Owner.work, Action.gain, Action.price]
      omega
    | destroys idle =>
      simp only [work, remaining, owed, idle, Owner.work, OrderedMap.values, OrderedMap.size, List.length_map,
        Action.gain, Action.price]
      omega
    | drops destroying | destroyed destroying =>
      simp only [work, remaining, owed, destroying, Owner.work, List.length_cons, List.length_nil, Action.gain,
        Action.price]
      omega
    | _ => exact absurd rfl inCall

end ProcessMonitor

/-- The steps of a thread that is to end, besides the events it takes. -/
def ThreadPhase.work : ThreadPhase → Nat
  | .testing => 1
  | .processing => 2
  | .looping => 3
  | .notStarted | .finished | .joined => 0

namespace ExecMonitor

def work (isOver : Bool) (m : ExecMonitor) : Nat :=
  m.eventQueue.length + if isOver then m.thread.work else 4

@[grind =] def Action.price : Action → Nat
  | .start | .enqueueEvent _ => 1
  | _ => 0

/-- As long as the execution goes on the thread may go on as well. -/
@[grind =] def Action.gain (isOver : Bool) : Action → Nat
  | .thread => isOver.toNat
  | _ => 0

variable {isOver : Bool} {m m' : ExecMonitor} {a : Action}

theorem work_over (m : ExecMonitor) : m.work true ≤ m.work false := by
  unfold work
  cases m.thread <;> simp [ThreadPhase.work]

theorem work_threadStep (taken : m.threadStep isOver = some m') :
    m'.work isOver + isOver.toNat ≤ m.work isOver := by
  cases isOver with
  | false =>
    have fewer : m'.eventQueue.length ≤ m.eventQueue.length := by
      unfold threadStep at taken
      split at taken
      · cases taken
        exact Nat.le_refl _
      · cases taken
        exact Nat.le_refl _
      · split at taken
        · cases taken
          exact Nat.le_refl _
        · rename_i front
          cases taken
          rw [front]
          exact Nat.le_succ _
      · simp at taken
      · simp at taken
      · simp at taken
    exact Nat.add_le_add_right fewer 4
  | true =>
    unfold threadStep at taken
    split at taken
    · rename_i testing
      cases taken
      simp [work, testing, ThreadPhase.work]
    · rename_i looping
      cases taken
      simp [work, looping, ThreadPhase.work]
    · rename_i processing
      split at taken
      · rename_i empty
        cases taken
        simp [work, processing, empty, ThreadPhase.work]
      · rename_i front
        cases taken
        simp only [work, processing, front, ThreadPhase.work, List.length_cons, Bool.toNat_true, if_true]
        omega
    · simp at taken
    · simp at taken
    · simp at taken

theorem work_step (taken : m.step isOver a = some m') :
    m'.work isOver + a.gain isOver ≤ m.work isOver + a.price := by
  cases a with
  | thread => exact work_threadStep taken
  | enqueueEvent event =>
    cases taken
    simp only [work, List.length_append, List.length_singleton, Action.gain, Action.price]
    omega
  | doInitialize =>
    simp only [step, Option.ite_none_left_eq_some, Option.some.injEq] at taken
    exact taken.2 ▸ Nat.le_refl _
  | prepare | finalize =>
    simp only [step, Option.ite_none_right_eq_some, Option.some.injEq] at taken
    exact taken.2 ▸ Nat.le_refl _
  | start =>
    simp only [step, Option.ite_none_right_eq_some, Option.some.injEq] at taken
    obtain ⟨⟨_, notStarted⟩, rfl⟩ := taken
    simp only [work, notStarted, ThreadPhase.work, Action.gain, Action.price]
    split <;> omega
  | join =>
    simp only [step, Option.ite_none_right_eq_some, Option.some.injEq] at taken
    obtain ⟨⟨_, finished⟩, rfl⟩ := taken
    simp only [work, finished, ThreadPhase.work, Action.gain, Action.price]
    exact Nat.le_refl _

end ExecMonitor

/-- The steps that the thread of the manager has before it, and what they make the others do, when there
are `n` benchmarks. -/
@[grind =] def Place.work (n : Nat) : Place → Nat
  | .initializing => 50 * n + 22
  | .constructing i => 30 * (n - i) + 20 * n + 21
  | .callingPrepare i => 30 * (n - (i + 1)) + 20 * n + 40
  | .inPrepare i => 30 * (n - (i + 1)) + 20 * n + 25
  | .notifying i => 30 * (n - (i + 1)) + 20 * n + 23
  | .adding i => 11 * (n - i) + 9 * n + 20
  | .preparingMonitor => 9 * n + 19
  | .callingStart i => 6 * (n - i) + 3 * n + 18
  | .inStart i => 6 * (n - (i + 1)) + 3 * n + 20
  | .startingMonitor => 3 * n + 17
  | .callingWaitForAny => 3 * n + 15
  | .inWaitForAny => 3 * n + 8
  | .ending => 3 * n + 7
  | .joining => 3 * n + 6
  | .finalizing => 3 * n + 5
  | .cleaningUp i => 2 * (n - i) + n + 4
  | .killing i => 2 * (n - (i + 1)) + n + 5
  | .leaving => n + 3
  | .returned => n + 2
  | .destroying i => n - i + 1
  | .dropping _ | .unwinding => 1
  | .destroyed | .threw => 0

namespace SimpleManager

namespace Effect

/-- What the steps of the components may add to the work, and what they are sure to do of it. -/
@[grind =] def price (e : Effect) : Nat :=
  (e.world.map SyncWorld.Action.price).getD 0 + (e.monitor.map ProcessMonitor.Action.price).getD 0 +
    (e.execMonitor.map ExecMonitor.Action.price).getD 0

@[grind =] def gain (isOver : Bool) (e : Effect) : Nat :=
  (e.world.map SyncWorld.Action.gain).getD 0 + (e.monitor.map ProcessMonitor.Action.gain).getD 0 +
    (e.execMonitor.map (ExecMonitor.Action.gain isOver)).getD 0

end Effect

def work (s : SimpleManager) : Nat :=
  s.place.work s.benchs.length + s.world.work + s.monitor.work + s.execMonitor.work s.executionEnded

/-- The thread of the exec monitor goes round while the execution is not over. -/
def idles (s : SimpleManager) (a : Action) : Bool := a = .execMonitor && !s.executionEnded

variable {answers : Nat → WaitResult} {s s' : SimpleManager} {a : Action} {e : Effect}

/-- The destructor of an object pays for itself, and for the way to it. -/
theorem destroyObject_pays {o : SyncProcess} {i n : Nat} {isOver : Bool} {here next : Place}
    (later : next.work n < here.work n) : (destroyObject o i here next).place.work n +
      (destroyObject o i here next).price < here.work n + (destroyObject o i here next).gain isOver := by
  unfold destroyObject
  split
  · grind
  · grind
  · grind

theorem destroyMonitor_pays {m : ProcessMonitor} {n : Nat} {isOver : Bool} {here next : Place}
    (later : next.work n < here.work n) : (destroyMonitor m here next).place.work n +
      (destroyMonitor m here next).price < here.work n + (destroyMonitor m here next).gain isOver := by
  unfold destroyMonitor
  split
  · grind
  · grind
  · grind

/-- The way of the thread of the manager pays for what it makes the others do. -/
theorem main_pays {pipe2 : Bool} {pid : Pid}
    (fits : s.place.unwound = false → s.world.objects.length ≤ s.benchs.length)
    (effect : s.main pipe2 pid = some e) :
    e.place.work s.benchs.length + e.price < s.place.work s.benchs.length + e.gain s.executionEnded := by
  have within : ∀ {i : Nat} {o : SyncProcess}, s.place.unwound = false → s.world.objects[i]? = some o →
      i < s.benchs.length := by
    intro i o inside atI
    have bound := (List.getElem?_eq_some_iff.mp atI).1
    have few := fits inside
    omega
  cases place : s.place with
  | constructing i =>
    simp only [main, place] at effect
    split at effect
    · rename_i args atI
      have bound := (List.getElem?_eq_some_iff.mp atI).1
      grind
    · grind
  | adding i =>
    simp only [main, place] at effect
    split at effect
    · rename_i o atI
      have bound := within (by rw [place]; rfl) atI
      grind
    · grind
  | callingStart i =>
    simp only [main, place] at effect
    split at effect
    · rename_i o atI
      have bound := within (by rw [place]; rfl) atI
      grind
    · grind
  | inWaitForAny =>
    simp only [main, place, waitForAnyNext] at effect
    grind
  | cleaningUp i =>
    simp only [main, place] at effect
    split at effect
    · rename_i o atI
      have bound := within (by rw [place]; rfl) atI
      grind [testTerminated]
    · grind
  | leaving =>
    simp only [main, place, Option.some.injEq] at effect
    exact effect ▸ destroyMonitor_pays (by simp only [Place.work]; omega)
  | destroying i =>
    simp only [main, place] at effect
    split at effect
    · rename_i o atI
      have bound := within (by rw [place]; rfl) atI
      exact Option.some.inj effect ▸ destroyObject_pays (by simp only [Place.work]; omega)
    · grind
  | dropping i =>
    simp only [main, place] at effect
    obtain ⟨o, _, same⟩ := Option.map_eq_some_iff.mp effect
    exact same ▸ destroyObject_pays (by simp only [Place.work]; omega)
  | unwinding =>
    simp only [main, place, Option.some.injEq] at effect
    exact effect ▸ destroyMonitor_pays (by simp only [Place.work]; omega)
  | inPrepare | notifying | inStart | killing =>
    simp only [main, place] at effect
    obtain ⟨o, _, same⟩ := Option.map_eq_some_iff.mp effect
    grind
  | destroyed | threw => simp [main, place] at effect
  | initializing | callingPrepare | preparingMonitor | startingMonitor | callingWaitForAny | ending | joining
  | finalizing | returned =>
    simp only [main, place, Option.some.injEq] at effect
    grind

/-- An exception is a short way out. -/
theorem throws_pays (effect : s.throws = some e) :
    e.place.work s.benchs.length + e.price < s.place.work s.benchs.length + e.gain s.executionEnded := by
  cases place : s.place with
  | destroying i | dropping i =>
    -- the thread stays where it is, and the destructor is over
    simp only [throws, place] at effect
    obtain ⟨o, _, effect⟩ := Option.bind_eq_some_iff.mp effect
    split at effect
    · cases effect
      exact Nat.lt_succ_self _
    · simp at effect
  | _ => grind [throws]

theorem worker_pays {k : Nat} (effect : s.worker answers k = some e) :
    e.place.work s.benchs.length + e.price < s.place.work s.benchs.length + e.gain s.executionEnded := by
  obtain ⟨t, o, _, _, works⟩ := worker_cases effect
  cases works <;> grind

theorem child_pays {i : Nat} {act : SyncProcess.Action} (effect : s.effect answers (.child i act) = some e) :
    e.place.work s.benchs.length + e.price < s.place.work s.benchs.length + e.gain s.executionEnded := by
  obtain ⟨notParent, rfl⟩ := child_cases effect
  cases act with
  | child | childThrows | execvp | childEnds => grind
  | _ => simp [SyncProcess.Action.ofParent] at notParent

theorem effect_pays (fits : s.place.unwound = false → s.world.objects.length ≤ s.benchs.length)
    (effect : s.effect answers a = some e) : e.place.work s.benchs.length + e.price + (!s.idles a).toNat ≤
      s.place.work s.benchs.length + e.gain s.executionEnded := by
  cases a with
  | main pipe2 pid => exact main_pays fits effect
  | throws => exact throws_pays effect
  | worker k => exact worker_pays effect
  | child i act => exact child_pays effect
  | execMonitor =>
    cases effect
    grind [idles]

/-- Every step leaves less work, but for the rounds of the exec monitor while the execution goes on. -/
theorem work_step (sound : s.Sound answers) (staged : s.place.unwound = false → s.Staged)
    (taken : s.step answers a = some s') : s'.work + (!s.idles a).toNat ≤ s.work := by
  obtain ⟨e, effect, world, monitor, execMonitor, benchs, place, executionEnded, _⟩ := step_cases taken
  have fits : s.place.unwound = false → s.world.objects.length ≤ s.benchs.length := by
    intro inside
    have launches := (staged inside).launches
    exact launches.made.le.trans launches.bound
  have paid := effect_pays fits effect
  have onWorld := optionalStep_pays (SyncWorld.work_step sound.handshake) world
  have onMonitor := optionalStep_pays ProcessMonitor.work_step monitor
  have onExecMonitor := optionalStep_pays ExecMonitor.work_step execMonitor
  have ended : s'.execMonitor.work s'.executionEnded ≤ s'.execMonitor.work s.executionEnded := by
    rw [executionEnded]
    cases s.executionEnded with
    | true => exact Nat.le_refl _
    | false =>
      cases e.executionEnds with
      | true => exact ExecMonitor.work_over _
      | false => exact Nat.le_refl _
  rw [Effect.price, Effect.gain] at paid
  rw [work, work, benchs, place]
  omega

/-- What was done and what is left to do is no more than there was in the beginning. -/
theorem countP_add_work_le {benchs : List (List String)} {pgid : Pid} {ts : List (Transition SimpleManager Action)}
    (run : Run (step answers) (init benchs pgid) ts s) :
    ts.countP (fun t => !t.before.idles t.action) + s.work ≤ 50 * benchs.length + 28 :=
  (run.countP_add_work_le (I := fun s => s.Sound answers ∧ (s.place.unwound = false → s.Staged))
    ⟨sound_init benchs pgid, fun _ => staged_init benchs pgid⟩
    (fun known taken =>
      ⟨⟨known.1.step taken, fun stays => (known.2 (not_unwound taken stays)).step known.1 taken stays⟩,
        work_step known.1 known.2 taken⟩)).2

/-- Whatever happens, be it an exception, the manager comes to an end but for the programs it runs: of the
steps of a run only the rounds of the exec monitor before the end of the execution are without bound. -/
theorem steps_bounded {benchs : List (List String)} {pgid : Pid} {ts : List (Transition SimpleManager Action)}
    (run : Run (step answers) (init benchs pgid) ts s) :
    ts.countP (fun t => !t.before.idles t.action) ≤ 50 * benchs.length + 28 :=
  Nat.le_of_add_right_le (countP_add_work_le run)

/-- One benchmark, from its preparation to the destructor of its process. -/
theorem steps_bounded_one : ∃ ts s, Run (step fun _ => .ok (5, 0)) (init [["sleep"]] 1) ts s ∧
    s.place = .destroyed ∧ ts.countP (fun t => !t.before.idles t.action) ≤ 78 := by
  obtain ⟨ts, s, run, _, test⟩ := run_of_exec_any (step fun _ => .ok (5, 0)) (init [["sleep"]] 1)
    (launch [5] ++ exits 0 ++ List.replicate 3 (.main true 0) ++ [.execMonitor] ++ List.replicate 16 (.main true 0))
    (fun s => s.place = .destroyed) rfl
  exact ⟨ts, s, run, of_decide_eq_true test, steps_bounded run⟩

end SimpleManager

end Aser
