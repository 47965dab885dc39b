import Aser.Core.ExecMonitorEvents
import Aser.ExecManager.SimpleUnwinding

namespace Aser

open Library

/-- What `notify_process_creation` tells the monitor. -/
def SyncProcess.announcement (o : SyncProcess) : ExecEvent := ⟨.processCreated, o.pid⟩

/-- The events a monitor was given. -/
def ExecMonitor.events (m : ExecMonitor) : List ExecEvent := m.handled ++ m.eventQueue

namespace Place

/-- How many processes were announced when the thread stands here, in the loop that announces them. -/
def told : Place → Option Nat
  | .initializing => some 0
  | .constructing i | .callingPrepare i | .inPrepare i | .notifying i | .dropping i => some i
  | _ => none

/-- The thread of the exec monitor cannot have been started yet. -/
def early : Place → Bool
  | .initializing | .constructing _ | .callingPrepare _ | .inPrepare _ | .notifying _ | .dropping _ | .adding _
  | .preparingMonitor | .callingStart _ | .inStart _ | .startingMonitor => true
  | _ => false

end Place

/-- The step makes no object and forks no child. -/
def SyncWorld.Action.keepsPids : SyncWorld.Action → Bool
  | .object _ (.prepare _ _) | .construct _ _ => false
  | _ => true

theorem SyncWorld.announcements_kept {w w' : SyncWorld} {a : SyncWorld.Action} (keeps : a.keepsPids = true)
    (taken : w.step a = some w') :
    w'.objects.map SyncProcess.announcement = w.objects.map SyncProcess.announcement := by
  cases a with
  | construct args pipe2 => simp [Action.keepsPids] at keeps
  | object i act =>
    have notPrepare : ∀ pathExists fork, act ≠ .prepare pathExists fork := by
      rintro pathExists fork rfl
      simp [Action.keepsPids] at keeps
    have pids := congrArg (List.map fun pid => ExecEvent.mk .processCreated pid) (pids_kept notPrepare taken)
    rw [List.map_map, List.map_map] at pids
    exact pids
  | parentEnds =>
    rcases step_cases taken with ⟨_, _, ⟨⟩, _⟩ | ⟨_, ⟨⟩, _⟩ | ⟨_, _, _, _, ⟨⟩, _⟩ | ⟨_, _, rfl⟩
    rw [List.map_map]
    rfl

/-- The step gives the monitor no event and does not start its thread. -/
def ExecMonitor.Action.isSilent : ExecMonitor.Action → Bool
  | .enqueueEvent _ | .start => false
  | _ => true

/-- A silent step keeps what the monitor was given, and does not start its thread. -/
theorem ExecMonitor.events_kept {isOver : Bool} {m m' : ExecMonitor} {a : ExecMonitor.Action}
    (silent : a.isSilent = true) (taken : m.step isOver a = some m') :
    m'.events = m.events ∧ (m.thread = .notStarted ↔ m'.thread = .notStarted) := by
  cases change_of_step taken with
  | enqueue | start => simp [Action.isSilent] at silent
  | leave phase | enter phase | loopImpl phase | drained phase | join phase => simp [events, phase]
  | handle phase front => simp [events, phase, front]
  | other thread eventQueue handled => simp [events, thread, eventQueue, handled]

namespace ExecMonitor

/-- Where the events are by whether the thread has ever found the execution going on: nowhere but in the queue,
or nowhere but with the handlers when it stands between two rounds. -/
structure Reads (m : ExecMonitor) (looked : Prop) : Prop where
  idle : m.thread = .notStarted → ¬ looked
  untouched : ¬ looked → m.handled = [] ∧ m.thread ≠ .looping ∧ m.thread ≠ .processing
  drained : looked → m.thread ≠ .looping → m.thread ≠ .processing → m.eventQueue = []

variable {isOver : Bool} {m m' : ExecMonitor} {a : Action} {looked : Prop}

theorem Reads.thread (reads : m.Reads looked) (taken : m.threadStep isOver = some m') :
    m'.Reads (looked ∨ isOver = false) := by
  have looks : m.thread = .looping ∨ m.thread = .processing → looked := by
    intro inRound
    by_contra notYet
    obtain ⟨_, notLooping, notProcessing⟩ := reads.untouched notYet
    exact inRound.elim notLooping notProcessing
  unfold threadStep at taken
  split at taken
  · rename_i testing
    cases taken
    cases isOver with
    | false => exact ⟨by simp, by simp, by simp⟩
    | true =>
      refine ⟨by simp, fun notYet => ⟨(reads.untouched (by simpa using notYet)).1, by simp, by simp⟩, ?_⟩
      intro looked _ _
      exact reads.drained (by simpa using looked) (by simp [testing]) (by simp [testing])
  · rename_i looping
    cases taken
    exact ⟨by simp, fun notYet => absurd (.inl (looks (.inl looping))) notYet, by simp⟩
  · rename_i processing
    have looked := looks (.inr processing)
    split at taken
    · rename_i empty
      cases taken
      exact ⟨by simp, fun notYet => absurd (.inl looked) notYet, fun _ _ _ => empty⟩
    · cases taken
      exact ⟨by simp [processing], fun notYet => absurd (.inl looked) notYet, by simp [processing]⟩
  all_goals simp at taken

/-- What others do: events come only before the thread is started. -/
theorem Reads.calls (reads : m.Reads looked) (notThread : a ≠ .thread)
    (early : ∀ event, a = .enqueueEvent event → m.thread = .notStarted) (taken : m.step isOver a = some m') :
    m'.Reads looked := by
  cases change_of_step taken with
  | enqueue event => exact ⟨reads.idle, reads.untouched, fun looked => absurd looked (reads.idle (early event rfl))⟩
  | start idle =>
    have notYet := reads.idle idle
    exact ⟨by simp, fun _ => ⟨(reads.untouched notYet).1, by simp, by simp⟩, fun looked => absurd looked notYet⟩
  | leave | enter | loopImpl | drained | handle => exact absurd rfl notThread
  | join ended =>
    refine ⟨by simp, fun notYet => ⟨(reads.untouched notYet).1, by simp, by simp⟩, fun looked _ _ => ?_⟩
    exact reads.drained looked (by simp [ended]) (by simp [ended])
  | other thread eventQueue handled =>
    refine ⟨fun idle => reads.idle (thread ▸ idle), fun notYet => ?_, fun looked => ?_⟩
    · rw [handled, thread]
      exact reads.untouched notYet
    · rw [eventQueue, thread]
      exact reads.drained looked

end ExecMonitor

namespace SimpleManager

/-- What one step means for what the monitor is told. -/
inductive Tidings (s : SimpleManager) : Effect → Prop
  | announces {i o} (place : s.place = .notifying i) (atI : s.world.objects[i]? = some o) :
    Tidings s { place := .constructing (i + 1), execMonitor := some (.enqueueEvent o.announcement) }
  | constructs {i args pipe2} (place : s.place = .constructing i) (atI : s.benchs[i]? = some args) :
    Tidings s {
      place := if args = [] ∨ pipe2 = false then .threw else .callingPrepare i
      world := some (.construct args pipe2) }
  | prepares {i pid} (place : s.place = .callingPrepare i) :
    Tidings s { place := .inPrepare i, world := some (.object i (.prepare true (.child pid))) }
  | constructed {i} (place : s.place = .constructing i) (all : s.benchs.length ≤ i) :
    Tidings s { place := .adding 0 }
  | startsMonitor (place : s.place = .startingMonitor) :
    Tidings s { place := .callingWaitForAny, execMonitor := some .start }
  | other {e} (world : e.world.all SyncWorld.Action.keepsPids = true)
    (silent : e.execMonitor.all ExecMonitor.Action.isSilent = true)
    (place : e.place = .threw ∨ e.place.told = s.place.told ∧ s.place ≠ .threw)
    (early : e.place.early = true → s.place.early = true) : Tidings s e

variable {answers : Nat → WaitResult} {s s' : SimpleManager} {a : Action} {e : Effect}

theorem tidings_of_main {pipe2 : Bool} {pid : Pid} (effect : s.main pipe2 pid = some e) : s.Tidings e := by
  cases place : s.place with
  | notifying i =>
    simp only [main, place] at effect
    obtain ⟨o, atI, rfl⟩ := Option.map_eq_some_iff.mp effect
    exact .announces place atI
  | constructing i =>
    simp only [main, place] at effect
    split at effect
    · rename_i args atI
      exact Option.some.inj effect ▸ .constructs place atI
    · rename_i none
      exact Option.some.inj effect ▸ .constructed place (List.getElem?_eq_none_iff.mp none)
  | callingPrepare i =>
    simp only [main, place, Option.some.injEq] at effect
    exact effect ▸ .prepares place
  | startingMonitor =>
    simp only [main, place, Option.some.injEq] at effect
    exact effect ▸ .startsMonitor place
  | _ =>
    have others : e.world.all SyncWorld.Action.keepsPids = true ∧
        e.execMonitor.all ExecMonitor.Action.isSilent = true ∧
        (e.place = .threw ∨ e.place.told = s.place.told ∧ s.place ≠ .threw) ∧
        (e.place.early = true → s.place.early = true) := by
      unfold main at effect
      grind [testTerminated, destroyObject, destroyMonitor, waitForAnyNext, Place.told, Place.early,
        SyncWorld.Action.keepsPids, ExecMonitor.Action.isSilent]
    exact .other others.1 others.2.1 others.2.2.1 others.2.2.2

theorem tidings_of_throws (effect : s.throws = some e) : s.Tidings e := by
  have others : e.world.all SyncWorld.Action.keepsPids = true ∧
      e.execMonitor.all ExecMonitor.Action.isSilent = true ∧
      (e.place = .threw ∨ e.place.told = s.place.told ∧ s.place ≠ .threw) ∧
      (e.place.early = true → s.place.early = true) := by
    unfold throws at effect
    grind [Place.told, Place.early, SyncWorld.Action.keepsPids]
  exact .other others.1 others.2.1 others.2.2.1 others.2.2.2

theorem tidings_of_effect (effect : s.effect answers a = some e) : s.Tidings e := by
  have stays : ∀ {e : Effect}, e.place = s.place → e.world.all SyncWorld.Action.keepsPids = true →
      e.execMonitor.all ExecMonitor.Action.isSilent = true → s.Tidings e := by
    intro e same world silent
    refine .other world silent ?_ (by rw [same]; exact id)
    by_cases out : s.place = .threw
    · exact .inl (same.trans out)
    · exact .inr ⟨by rw [same], out⟩
  cases a with
  | main pipe2 pid => exact tidings_of_main effect
  | throws => exact tidings_of_throws effect
  | execMonitor =>
    cases effect
    exact stays rfl rfl rfl
  | worker k =>
    obtain ⟨t, o, _, _, works⟩ := worker_cases effect
    cases works <;> exact stays rfl rfl rfl
  | child i act =>
    obtain ⟨notParent, rfl⟩ := child_cases effect
    refine stays rfl ?_ rfl
    cases act with
    | prepare => simp [SyncProcess.Action.ofParent] at notParent
    | _ => rfl

/-- The monitor is told of the processes in their order, one after the other, and its thread is started when
it was told of all. -/
structure Tells (s : SimpleManager) : Prop where
  inOrder : s.execMonitor.events <+: s.world.objects.map SyncProcess.announcement
  next : ∀ i, s.place.told = some i → s.execMonitor.events.length = i
  near : s.world.objects.length ≤ s.execMonitor.events.length + 1
  all : s.place.told = none → s.place ≠ .threw → s.world.objects.length = s.execMonitor.events.length
  idle : s.place.early = true → s.execMonitor.thread = .notStarted
  started : s.execMonitor.thread ≠ .notStarted →
    s.world.objects.length = s.execMonitor.events.length ∧ s.world.objects.length = s.benchs.length

theorem tells_init (benchs : List (List String)) (pgid : Pid) : (init benchs pgid).Tells where
  inOrder := by simp [init, ExecMonitor.events]
  next := by simp [init, Place.told, ExecMonitor.events]
  near := by simp [init, SyncWorld.init]
  all := by simp [init, Place.told]
  idle _ := rfl
  started := by simp [init]

theorem Tells.silent (h : s.Tells) (world : e.world.all SyncWorld.Action.keepsPids = true)
    (silent : e.execMonitor.all ExecMonitor.Action.isSilent = true)
    (place : e.place = .threw ∨ e.place.told = s.place.told ∧ s.place ≠ .threw)
    (early : e.place.early = true → s.place.early = true) (effect : s.effect answers a = some e)
    (taken : s.step answers a = some s') : s'.Tells := by
  obtain ⟨e', effect', onWorld, _, onMonitor, benchs, at', _⟩ := step_cases taken
  cases Option.some.inj (effect.symm.trans effect')
  have pids : s'.world.objects.map SyncProcess.announcement = s.world.objects.map SyncProcess.announcement := by
    rcases optionalStep_cases onWorld with ⟨_, same⟩ | ⟨act, atWorld, moved⟩
    · rw [same]
    · rw [atWorld] at world
      exact SyncWorld.announcements_kept world moved
  have events : s'.execMonitor.events = s.execMonitor.events ∧
      (s.execMonitor.thread = .notStarted ↔ s'.execMonitor.thread = .notStarted) := by
    rcases optionalStep_cases onMonitor with ⟨_, same⟩ | ⟨act, atMonitor, moved⟩
    · rw [same]
      exact ⟨rfl, Iff.rfl⟩
    · rw [atMonitor] at silent
      exact ExecMonitor.events_kept silent moved
  have count : s'.world.objects.length = s.world.objects.length := by
    simpa using congrArg List.length pids
  constructor
  · rw [pids, events.1]
    exact h.inOrder
  · rw [at', events.1]
    intro i told
    rcases place with out | ⟨same, _⟩
    · simp [out, Place.told] at told
    · exact h.next i (same ▸ told)
  · rw [count, events.1]
    exact h.near
  · rw [at', count, events.1]
    intro told inside
    rcases place with out | ⟨same, before⟩
    · exact absurd out inside
    · exact h.all (same ▸ told) before
  · rw [at']
    exact fun stays => events.2.mp (h.idle (early stays))
  · rw [count, events.1, benchs]
    exact fun running => h.started fun idle => running (events.2.mp idle)

theorem Tells.step (h : s.Tells) (staged : s.place.unwound = false → s.Staged) (taken : s.step answers a = some s') :
    s'.Tells := by
  obtain ⟨e, effect, world, _, execMonitor, benchs, place, _⟩ := step_cases taken
  cases tidings_of_effect effect with
  | other keeps silent told early => exact h.silent keeps silent told early effect taken
  | @announces i o before atI =>
    have early : s.place.early = true := by rw [before]; rfl
    have still : s.world = s'.world := Option.some.inj world
    have given : { s.execMonitor with eventQueue := s.execMonitor.eventQueue ++ [o.announcement] } = s'.execMonitor :=
      Option.some.inj execMonitor
    have events : s'.execMonitor.events = s.execMonitor.events ++ [o.announcement] := by
      rw [← given, ExecMonitor.events, ExecMonitor.events, List.append_assoc]
    have count := h.next i (by rw [before]; rfl)
    have idle : s'.execMonitor.thread = .notStarted := given ▸ h.idle early
    constructor
    · obtain ⟨rest, same⟩ := h.inOrder
      rw [← still, events, ← same]
      have next : (s.world.objects.map SyncProcess.announcement)[i]? = some o.announcement := by
        rw [List.getElem?_map, atI, Option.map_some]
      rw [← same, List.getElem?_append_right (by omega), count, Nat.sub_self] at next
      cases rest with
      | nil => simp at next
      | cons event rest =>
        rw [List.getElem?_cons_zero, Option.some.injEq] at next
        exact ⟨rest, by rw [next, List.append_assoc]; rfl⟩
    · rw [place, events, List.length_append, List.length_singleton]
      rintro j ⟨⟩
      omega
    · have near := h.near
      rw [← still, events, List.length_append, List.length_singleton]
      omega
    · rw [place]
      simp [Place.told]
    · exact fun _ => idle
    · exact fun running => absurd idle running
  | @constructs i args pipe2 before atI =>
    have early : s.place.early = true := by rw [before]; rfl
    have made := (staged (by rw [before]; rfl)).launches.made
    have count := h.next i (by rw [before]; rfl)
    have still : s.execMonitor = s'.execMonitor := Option.some.inj execMonitor
    rw [before, Place.made] at made
    have constructs : s.world.step (.construct args pipe2) = some s'.world := world
    obtain ⟨more, objects, few⟩ : ∃ more, s'.world.objects = s.world.objects ++ more ∧ more.length ≤ 1 := by
      rcases SyncWorld.step_cases constructs with ⟨_, _, _, _, same⟩ | ⟨_, _, _, same⟩ | ⟨_, _, _, _, ⟨⟩, _⟩ | ⟨⟨⟩, _⟩
      · exact ⟨[], by rw [same, List.append_nil], Nat.zero_le 1⟩
      · exact ⟨[_], by rw [same], Nat.le_refl 1⟩
    constructor
    · rw [← still, objects, List.map_append]
      exact h.inOrder.trans (List.prefix_append _ _)
    · rw [← still, place]
      intro j told
      split at told
      · simp [Place.told] at told
      · exact count.trans (Option.some.inj told)
    · rw [← still, objects, List.length_append]
      omega
    · rw [place]
      intro told inside
      split at told
      · rename_i throws
        exact absurd (if_pos throws) inside
      · simp [Place.told] at told
    · exact fun _ => still ▸ h.idle early
    · exact fun running => absurd (still ▸ h.idle early) running
  | @prepares i pid before =>
    have early : s.place.early = true := by rw [before]; rfl
    have count := h.next i (by rw [before]; rfl)
    have still : s.execMonitor = s'.execMonitor := Option.some.inj execMonitor
    obtain ⟨o, o', _, _, objects⟩ := SyncWorld.object_step (show s.world.step _ = some s'.world from world)
    have length : s'.world.objects.length = s.world.objects.length := by rw [objects, List.length_set]
    constructor
    · -- the pid that changes is that of the process to be announced next
      obtain ⟨rest, same⟩ := h.inOrder
      rw [← still, objects, List.map_set, ← same, List.set_append_right _ _ (by omega)]
      exact List.prefix_append _ _
    · rw [← still, place]
      rintro j ⟨⟩
      exact count
    · rw [← still, length]
      exact h.near
    · rw [place]
      simp [Place.told]
    · exact fun _ => still ▸ h.idle early
    · exact fun running => absurd (still ▸ h.idle early) running
  | @constructed i before all =>
    have early : s.place.early = true := by rw [before]; rfl
    have made := (staged (by rw [before]; rfl)).launches.made
    have count := h.next i (by rw [before]; rfl)
    rw [before, Place.made] at made
    have still : s.execMonitor = s'.execMonitor := Option.some.inj execMonitor
    have rests : s.world = s'.world := Option.some.inj world
    refine ⟨still ▸ rests ▸ h.inOrder, ?_, still ▸ rests ▸ h.near, ?_, fun _ => still ▸ h.idle early,
      fun running => absurd (still ▸ h.idle early) running⟩
    · rw [place]
      simp [Place.told]
    · rw [← still, ← rests, count, made]
      exact fun _ _ => rfl
  | startsMonitor before =>
    have inside : s.place.unwound = false := by rw [before]; rfl
    have all := h.all (by rw [before]; rfl) (by rw [before]; simp)
    have rests : s.world = s'.world := Option.some.inj world
    simp only [optionalStep, ExecMonitor.step, Option.ite_none_right_eq_some, Option.some.injEq] at execMonitor
    have events : s'.execMonitor.events = s.execMonitor.events := by rw [← execMonitor.2]; rfl
    refine ⟨rests ▸ events ▸ h.inOrder, ?_, rests ▸ events ▸ h.near, ?_, ?_, ?_⟩
    · rw [place]
      simp [Place.told]
    · rw [← rests, events]
      exact fun _ _ => all
    · rw [place]
      simp [Place.early]
    · rw [← rests, events, benchs]
      exact fun _ => ⟨all, ((staged inside).all (by rw [before]; rfl)).1⟩

theorem tells {benchs : List (List String)} {pgid : Pid} {ts : List (Transition SimpleManager Action)}
    (run : Run (step answers) (init benchs pgid) ts s) : s.Tells := by
  induction run with
  | start => exact tells_init benchs pgid
  | next previous taken ih => exact ih.step (staged previous).2.2 taken

/-- In this run the thread of the exec monitor has found the execution going on. -/
def Looked (ts : List (Transition SimpleManager Action)) : Prop :=
  ∃ t ∈ ts, t.action = .execMonitor ∧ t.before.executionEnded = false

theorem looked_append (ts : List (Transition SimpleManager Action)) (t : Transition SimpleManager Action) :
    Looked (ts ++ [t]) ↔ Looked ts ∨ t.action = .execMonitor ∧ t.before.executionEnded = false := by
  simp [Looked, or_and_right, exists_or]

/-- Nobody but its own thread makes the steps of that thread. -/
theorem execMonitor_of_thread (effect : s.effect answers a = some e) (atMonitor : e.execMonitor = some .thread) :
    a = .execMonitor := by
  cases a with
  | main pipe2 pid =>
    simp only [SimpleManager.effect] at effect
    unfold main at effect
    grind [testTerminated, destroyObject, destroyMonitor, waitForAnyNext]
  | throws =>
    simp only [SimpleManager.effect] at effect
    unfold throws at effect
    grind
  | execMonitor => rfl
  | worker k =>
    obtain ⟨t, o, _, _, works⟩ := worker_cases effect
    cases works <;> simp at atMonitor
  | child i act =>
    obtain ⟨_, rfl⟩ := child_cases effect
    simp at atMonitor

theorem reads {benchs : List (List String)} {pgid : Pid} {ts : List (Transition SimpleManager Action)}
    (run : Run (step answers) (init benchs pgid) ts s) : s.execMonitor.Reads (Looked ts) := by
  induction run with
  | start => exact ⟨by simp [Looked], by simp [init], by simp [Looked]⟩
  | @next ts s a s' previous taken ih =>
    have tells := tells previous
    obtain ⟨e, effect, _, _, execMonitor, _⟩ := step_cases taken
    by_cases own : a = .execMonitor
    · subst own
      cases effect
      have reads : s'.execMonitor.Reads (Looked ts ∨ s.executionEnded = false) := ih.thread execMonitor
      rw [looked_append]
      simpa using reads
    · have same : Looked (ts ++ [⟨s, a, s'⟩]) ↔ Looked ts := by
        rw [looked_append]
        simp [own]
      rw [same]
      rcases optionalStep_cases execMonitor with ⟨_, rests⟩ | ⟨act, atMonitor, moved⟩
      · exact rests ▸ ih
      · refine ih.calls (fun thread => own (execMonitor_of_thread effect (thread ▸ atMonitor))) ?_ moved
        rintro event rfl
        cases tidings_of_effect effect with
        | announces before => exact tells.idle (by rw [before]; rfl)
        | other _ silent => simp [atMonitor, ExecMonitor.Action.isSilent] at silent
        | _ => simp at atMonitor

/-- Of the processes that it was told of, in their order and of each once, the exec monitor handles all or none:
all if its thread has found the execution going on, if only once, and none otherwise. The thread is started when
every benchmark was announced. -/
theorem told_all_or_none {benchs : List (List String)} {pgid : Pid} {ts : List (Transition SimpleManager Action)}
    (run : Run (step answers) (init benchs pgid) ts s) :
    s.execMonitor.handled ++ s.execMonitor.eventQueue <+: s.world.objects.map SyncProcess.announcement ∧
    s.world.objects.length ≤ (s.execMonitor.handled ++ s.execMonitor.eventQueue).length + 1 ∧
    (s.execMonitor.thread ≠ .notStarted → s.world.objects.length = benchs.length ∧
      s.execMonitor.handled ++ s.execMonitor.eventQueue = s.world.objects.map SyncProcess.announcement) ∧
    (s.execMonitor.thread = .finished ∨ s.execMonitor.thread = .joined →
      (Looked ts → s.execMonitor.handled = s.world.objects.map SyncProcess.announcement) ∧
        (¬ Looked ts → s.execMonitor.handled = [])) := by
  have tells := tells run
  have reads := reads run
  have complete : s.execMonitor.thread ≠ .notStarted →
      s.execMonitor.events = s.world.objects.map SyncProcess.announcement := by
    intro running
    refine tells.inOrder.eq_of_length ?_
    rw [List.length_map, (tells.started running).1]
  refine ⟨tells.inOrder, tells.near, fun running => ⟨?_, complete running⟩,
    fun ended => ⟨fun looked => ?_, fun notYet => ?_⟩⟩
  · exact (tells.started running).2.trans (congrArg List.length (staged run).1)
  · have still : s.execMonitor.thread ≠ .notStarted ∧ s.execMonitor.thread ≠ .looping ∧
        s.execMonitor.thread ≠ .processing := by
      rcases ended with finished | joined
      · simp [finished]
      · simp [joined]
    have all := complete still.1
    rw [ExecMonitor.events, reads.drained looked still.2.1 still.2.2, List.append_nil] at all
    exact all
  · exact (reads.untouched notYet).1

/-- Two benchmarks, during which the thread of the monitor makes a round. -/
theorem told_all_or_none_two : ∃ ts s,
    Run (step fun k => .ok (k + 5, 0)) (init [["sleep", "5"], ["yes"]] 1) ts s ∧ s.execMonitor.thread = .joined ∧
      s.world.objects.length = 2 ∧ s.execMonitor.handled = s.world.objects.map SyncProcess.announcement ∧
        s.execMonitor.handled = [⟨.processCreated, 5⟩, ⟨.processCreated, 6⟩] := by
  obtain ⟨ts, s, run, test⟩ := run_of_trace_any (step fun k => .ok (k + 5, 0)) (init [["sleep", "5"], ["yes"]] 1)
    (launch [5, 6] ++ List.replicate 5 .execMonitor ++ exits 0 ++ List.replicate 3 (.main true 0) ++
      [.execMonitor, .main true 0])
    (fun ts => ts.any (fun t => t.action = .execMonitor ∧ t.before.executionEnded = false) &&
      ts.getLast?.any fun t => t.after.execMonitor.thread = .joined ∧
        t.after.execMonitor.handled = [⟨.processCreated, 5⟩, ⟨.processCreated, 6⟩]) (by decide +kernel)
  obtain ⟨looked, ended⟩ := Bool.and_eq_true_iff.mp test
  obtain ⟨t, member, looks⟩ := List.any_eq_true.mp looked
  obtain ⟨last, atEnd, ends⟩ := (Option.any_eq_true _ _).mp ended
  have ends := of_decide_eq_true ends
  rw [run.after_getLast atEnd] at ends
  obtain ⟨_, _, complete, read⟩ := told_all_or_none run
  exact ⟨ts, s, run, ends.1, (complete (by simp [ends.1])).1,
    (read (.inr ends.1)).1 ⟨t, member, of_decide_eq_true looks⟩, ends.2⟩

/-- The benchmark ends before that thread has looked for the first time: nothing is handled. -/
example : (exec (step fun _ => .ok (5, 0)) (init [["sleep"]] 1)
    (launch [5] ++ exits 0 ++ List.replicate 3 (.main true 0) ++ [.execMonitor, .main true 0])).any (fun s =>
      s.execMonitor.thread = .joined ∧ s.execMonitor.eventQueue = [⟨.processCreated, 5⟩] ∧
        s.execMonitor.handled = []) = true := rfl

end SimpleManager

end Aser
