import Aser.ExecManager.SimpleSteps

namespace Aser

open Library

namespace Place

/-- How many of `n` processes are constructed when the thread stands here. -/
def made (n : Nat) : Place → Nat
  | .initializing => 0
  | .constructing i => i
  | .callingPrepare i | .inPrepare i | .notifying i => i + 1
  | _ => n

/-- And how many are prepared. -/
def prepared (n : Nat) : Place → Nat
  | .initializing => 0
  | .constructing i | .callingPrepare i | .inPrepare i => i
  | .notifying i => i + 1
  | _ => n

/-- And how many are added to the monitor. -/
def added (n : Nat) : Place → Nat
  | .initializing | .constructing _ | .callingPrepare _ | .inPrepare _ | .notifying _ => 0
  | .adding i => i
  | _ => n

/-- The loop that calls `start` was entered. -/
def launched : Place → Bool
  | .initializing | .constructing _ | .callingPrepare _ | .inPrepare _ | .notifying _ | .adding _
  | .preparingMonitor => false
  | _ => true

/-- `execution_end` was called. -/
def ended : Place → Bool
  | .joining | .finalizing | .cleaningUp _ | .killing _ | .leaving | .returned | .destroying _ | .destroyed => true
  | _ => false

/-- `start_impl` has returned. -/
def left : Place → Bool
  | .returned | .destroying _ | .destroyed => true
  | _ => false

/-- What the thread has to do with the monitor when it stands here. -/
def Owns (m : ProcessMonitor) : Place → Prop
  | .inWaitForAny => m.returned = [] ∧ (m.owner = .popping ∨ ∃ pid k, m.owner = .getting pid k)
  | .ending | .joining | .finalizing | .cleaningUp _ | .killing _ => m.returned ≠ [] ∧ m.owner = .idle
  | .leaving => m.returned ≠ []
  | .returned | .destroying _ | .destroyed => m.returned ≠ [] ∧ m.owner = .destroyed
  | _ => m.returned = [] ∧ m.owner = .idle

theorem launched_of_left {p : Place} (left : p.left = true) : p.launched = true := by
  cases p with
  | returned | destroying | destroyed => rfl
  | _ => simp [Place.left] at left

theorem Owns.destroyed {p : Place} {m : ProcessMonitor} (own : p.Owns m) (left : p.left = true) :
    m.owner = .destroyed := by
  cases p with
  | returned | destroying | destroyed => exact own.2
  | _ => simp [Place.left] at left

/-- The end is announced after `wait_for_any` has returned. -/
theorem Owns.reported {p : Place} {m : ProcessMonitor} (own : p.Owns m) (ended : p.ended = true) :
    m.returned ≠ [] := by
  cases p with
  | leaving => exact own
  | joining | finalizing | cleaningUp | killing | returned | destroying | destroyed => exact own.1
  | _ => simp [Place.ended] at ended

end Place

/-- The action happens to an object, and is not its `start`. -/
def SyncWorld.Action.isQuiet : SyncWorld.Action → Bool
  | .object _ .start => false
  | .object _ _ => true
  | _ => false

theorem SyncWorld.Action.cases_of_isQuiet {a : SyncWorld.Action} (quiet : a.isQuiet = true) :
    ∃ i act, a = .object i act ∧ act ≠ .start := by
  cases a with
  | object i act =>
    refine ⟨i, act, rfl, ?_⟩
    intro same
    subst same
    simp [isQuiet] at quiet
  | _ => simp [isQuiet] at quiet

theorem SyncWorld.Action.isQuiet_of_child {i : Nat} {act : SyncProcess.Action} (notParent : act.ofParent = false) :
    (SyncWorld.Action.object i act).isQuiet = true := by
  cases act <;> first | rfl | simp [SyncProcess.Action.ofParent] at notParent

namespace SimpleManager

/-- Every benchmark is prepared before any is started, and the exec monitor as well. -/
structure Launches (s : SimpleManager) : Prop where
  made : s.world.objects.length = s.place.made s.benchs.length
  bound : s.place.made s.benchs.length ≤ s.benchs.length
  prepared : ∀ (i : Nat) (o : SyncProcess), s.world.objects[i]? = some o →
    i < s.place.prepared s.benchs.length → o.prepared = true
  unstarted : s.place.launched = false → s.world.Each fun _ o => o.Unstarted
  monitor : s.place.launched = true → s.execMonitor.prepared = true

/-- Every benchmark is added to the monitor, of which the thread is the owner. -/
structure Watches (s : SimpleManager) : Prop where
  jobs : s.monitor.jobs =
    ((s.world.objects.map (·.pid)).take (s.place.added s.benchs.length)).map fun pid => (.process, pid)
  owner : s.place.Owns s.monitor

variable {answers : Nat → WaitResult} {s s' : SimpleManager} {a : Action} {e : Effect}

/-- A step that leads nowhere out of `start` was taken within it. -/
theorem not_unwound (taken : s.step answers a = some s') (stays : s'.place.unwound = false) :
    s.place.unwound = false := by
  obtain ⟨e, effect, _, _, _, _, place, _⟩ := step_cases taken
  rw [place] at stays
  cases a with
  | main pipe2 pid =>
    cases main_cases effect with
    | unwinds out => simp [out] at stays
    | _ => rw [‹s.place = _›]; rfl
  | throws =>
    rcases throws_cases effect with out | ⟨i, before, _⟩ | ⟨i, before, _⟩
    · simp [out] at stays
    · rw [before]; rfl
    · rw [before]; rfl
  | execMonitor =>
    cases effect
    exact stays
  | worker k =>
    obtain ⟨t, o, _, _, works⟩ := worker_cases effect
    exact works.place.1 ▸ stays
  | child i act =>
    obtain ⟨_, rfl⟩ := child_cases effect
    exact stays

/-- What every step of `start_impl` keeps that neither makes an object nor starts one. -/
theorem Launches.keep (h : s.Launches) (each : s.world.Each fun _ o => o.Handshake)
    (taken : s.step answers a = some s') (effect : s.effect answers a = some e)
    (quiet : e.world.all SyncWorld.Action.isQuiet = true)
    (made : e.place.made s.benchs.length = s.place.made s.benchs.length)
    (prepared : e.place.prepared s.benchs.length = s.place.prepared s.benchs.length)
    (launched : e.place.launched = s.place.launched) : s'.Launches := by
  obtain ⟨e', effect', world, _, execMonitor, benchs, place, _⟩ := step_cases taken
  cases Option.some.inj (effect.symm.trans effect')
  have objects : s'.world.objects.length = s.world.objects.length ∧
      (∀ (i : Nat) (o' : SyncProcess), s'.world.objects[i]? = some o' → ∃ o : SyncProcess,
        s.world.objects[i]? = some o ∧ (o.prepared = true → o'.prepared = true)) ∧
      ((s.world.Each fun _ o => o.Unstarted) → s'.world.Each fun _ o => o.Unstarted) := by
    rcases optionalStep_cases world with ⟨_, same⟩ | ⟨act, atWorld, moved⟩
    · rw [same]
      exact ⟨rfl, fun i o atI => ⟨o, atI, id⟩, id⟩
    · rw [atWorld] at quiet
      obtain ⟨i, act, rfl, notStart⟩ := SyncWorld.Action.cases_of_isQuiet quiet
      obtain ⟨length, kept⟩ := SyncWorld.objects_kept moved
      exact ⟨length, kept, fun unstarted => SyncWorld.unstarted_kept each unstarted notStart moved⟩
  obtain ⟨length, kept, unstarted⟩ := objects
  refine ⟨?_, ?_, ?_, ?_, ?_⟩
  · rw [length, benchs, place, made]
    exact h.made
  · rw [benchs, place, made]
    exact h.bound
  · intro i o' atI within
    rw [benchs, place, prepared] at within
    obtain ⟨o, before, still⟩ := kept i o' atI
    exact still (h.prepared i o before within)
  · rw [place, launched]
    exact fun notYet => unstarted (h.unstarted notYet)
  · rw [place, launched]
    intro already
    exact optionalStep_keeps (fun prepared moved => ExecMonitor.prepared_kept prepared moved)
      (h.monitor already) execMonitor

theorem Launches.constructs (h : s.Launches) {i : Nat} {args : List String}
    (before : s.place = .constructing i) (atI : s.benchs[i]? = some args) (nonempty : args ≠ [])
    (world : s.world.step (.construct args true) = some s'.world) (benchs : s'.benchs = s.benchs)
    (place : s'.place = .callingPrepare i) : s'.Launches := by
  have within := (List.getElem?_eq_some_iff.mp atI).1
  have made := h.made
  rw [before, Place.made] at made
  have unstarted := h.unstarted (by rw [before]; rfl)
  rcases SyncWorld.step_cases world with ⟨_, _, ⟨⟩, throws, _⟩ | ⟨_, ⟨⟩, _, same⟩ | ⟨_, _, _, _, ⟨⟩, _⟩ | ⟨⟨⟩, _⟩
  · exact absurd throws (by simp [nonempty])
  have objects : s'.world.objects = s.world.objects ++ [.make s.world.objects.length args] := by rw [same]
  have lookup : ∀ {j : Nat} {o : SyncProcess}, s'.world.objects[j]? = some o → s.world.objects[j]? = some o ∨
      j = i ∧ o = .make s.world.objects.length args := by
    intro j o atJ
    rw [objects] at atJ
    exact (getElem?_append_singleton atJ).imp_right fun last => ⟨last.1.trans made, last.2⟩
  refine ⟨?_, ?_, ?_, ?_, ?_⟩
  · rw [objects, List.length_append, made, place]
    rfl
  · rw [benchs, place]
    exact within
  · intro j o atJ earlier
    rw [place, Place.prepared] at earlier
    rcases lookup atJ with old | ⟨rfl, _⟩
    · exact h.prepared j o old (by rw [before]; exact earlier)
    · omega
  · intro _ j o atJ
    rcases lookup atJ with old | ⟨_, rfl⟩
    · exact unstarted j o old
    · exact ⟨rfl, by simp [SyncProcess.make]⟩
  · simp [place, Place.launched]

theorem Launches.prepareReturns (h : s.Launches) (each : s.world.Each fun _ o => o.Handshake) {i : Nat}
    {o : SyncProcess} (before : s.place = .inPrepare i) (atI : s.world.objects[i]? = some o)
    (call : o.call = .prepare []) (world : s.world.step (.object i .parent) = some s'.world)
    (benchs : s'.benchs = s.benchs) (place : s'.place = .notifying i) : s'.Launches := by
  obtain ⟨length, kept⟩ := SyncWorld.objects_kept world
  refine ⟨?_, ?_, ?_, ?_, ?_⟩
  · rw [length, h.made, before, place]
    rfl
  · have bound := h.bound
    rw [before] at bound
    rw [benchs, place]
    exact bound
  · intro j q atJ within
    rw [place, Place.prepared] at within
    by_cases here : j = i
    · subst here
      rcases SyncWorld.object_cases world atJ with ⟨_, o₀, atI', moved⟩ | ⟨other, _⟩
      · cases Option.some.inj (atI.symm.trans atI')
        simp only [SyncProcess.step, SyncProcess.parentStep, call, ParentCall.next, Option.some.injEq] at moved
        exact moved ▸ rfl
      · exact absurd rfl other
    · obtain ⟨q₀, old, still⟩ := kept j q atJ
      refine still (h.prepared j q₀ old ?_)
      rw [before, Place.prepared]
      omega
  · intro _
    exact SyncWorld.unstarted_kept each (h.unstarted (by rw [before]; rfl)) (by simp) world
  · simp [place, Place.launched]

theorem Launches.step (h : s.Launches) (each : s.world.Each fun _ o => o.Handshake)
    (taken : s.step answers a = some s') (stays : s'.place.unwound = false) : s'.Launches := by
  obtain ⟨e, effect, world, _, execMonitor, benchs, place, _⟩ := step_cases taken
  rw [place] at stays
  cases a with
  | main pipe2 pid =>
    cases main_cases effect with
    | unwinds out => simp [out] at stays
    | constructs before atI nonempty => exact h.constructs before atI nonempty world benchs place
    | prepareReturns before atI call => exact h.prepareReturns each before atI call world benchs place
    | @constructed i before all =>
      have bound := h.bound
      rw [before] at bound
      have same : i = s.benchs.length := Nat.le_antisymm bound all
      subst same
      exact h.keep each taken effect rfl (before ▸ rfl) (before ▸ rfl) (before ▸ rfl)
    | preparesMonitor before =>
      have kept := h.made
      have bound := h.bound
      have prepared := h.prepared
      have same : s.world = s'.world := Option.some.inj world
      rw [before] at kept bound prepared
      refine ⟨?_, ?_, ?_, ?_, ?_⟩
      · rw [← same, benchs, place]
        exact kept
      · rw [benchs, place]
        exact bound
      · rw [← same, benchs, place]
        exact prepared
      · rw [place]
        simp [Place.launched]
      · intro _
        simp only [optionalStep, ExecMonitor.step, Option.ite_none_right_eq_some, Option.some.injEq] at execMonitor
        rw [← execMonitor.2]
    | callsStart before =>
      obtain ⟨length, still⟩ := SyncWorld.objects_kept world
      have kept := h.made
      have bound := h.bound
      have prepared := h.prepared
      have already := h.monitor (by rw [before]; rfl)
      have same : s.execMonitor = s'.execMonitor := Option.some.inj execMonitor
      rw [before] at kept bound prepared
      refine ⟨?_, ?_, ?_, ?_, ?_⟩
      · rw [length, benchs, place]
        exact kept
      · rw [benchs, place]
        exact bound
      · rw [benchs, place]
        intro j q atJ within
        obtain ⟨q₀, old, prepares⟩ := still j q atJ
        exact prepares (prepared j q₀ old within)
      · rw [place]
        simp [Place.launched]
      · exact fun _ => same ▸ already
    | _ =>
      have before := ‹s.place = _›
      exact h.keep each taken effect rfl (before ▸ rfl) (before ▸ rfl) (before ▸ rfl)
  | throws =>
    rcases throws_cases effect with out | ⟨i, before, rfl⟩ | ⟨i, before, rfl⟩
    · simp [out] at stays
    · exact h.keep each taken effect rfl (before ▸ rfl) (before ▸ rfl) (before ▸ rfl)
    · exact h.keep each taken effect rfl (before ▸ rfl) (before ▸ rfl) (before ▸ rfl)
  | execMonitor =>
    cases effect
    exact h.keep each taken rfl rfl rfl rfl rfl
  | worker k =>
    obtain ⟨t, o, _, _, works⟩ := worker_cases effect
    have same := works.place.1
    exact h.keep each taken effect (by cases works <;> rfl) (by rw [same]) (by rw [same]) (by rw [same])
  | child i act =>
    obtain ⟨notParent, rfl⟩ := child_cases effect
    exact h.keep each taken effect (SyncWorld.Action.isQuiet_of_child notParent) rfl rfl rfl

/-- What the thread has to do with the monitor depends on its owner and on what it reported. -/
theorem owns_congr {p : Place} {m m' : ProcessMonitor} (own : p.Owns m) (owner : m'.owner = m.owner)
    (returned : m'.returned = m.returned) : p.Owns m' := by
  unfold Place.Owns at own ⊢
  rw [owner, returned]
  exact own

theorem Watches.keep (h : s.Watches) (taken : s.step answers a = some s') (effect : s.effect answers a = some e)
    (quiet : ∀ act, e.world = some act → ∃ i b, act = .object i b ∧ ∀ pathExists fork, b ≠ .prepare pathExists fork)
    (jobs : s'.monitor.jobs = s.monitor.jobs)
    (added : e.place.added s.benchs.length = s.place.added s.benchs.length)
    (owner : e.place.Owns s'.monitor) : s'.Watches := by
  obtain ⟨e', effect', world, _, _, benchs, place, _⟩ := step_cases taken
  cases Option.some.inj (effect.symm.trans effect')
  have pids : s'.world.objects.map (·.pid) = s.world.objects.map (·.pid) := by
    rcases optionalStep_cases world with ⟨_, same⟩ | ⟨act, atWorld, moved⟩
    · rw [same]
    · obtain ⟨i, b, rfl, notPrepare⟩ := quiet act atWorld
      exact SyncWorld.pids_kept notPrepare moved
  refine ⟨?_, place ▸ owner⟩
  rw [jobs, pids, benchs, place, added]
  exact h.jobs

/-- The processes before the loop that adds them are not looked at. -/
theorem Watches.before (h : s.Watches) (early : s.place.added s.benchs.length = 0)
    (later : s'.place.added s'.benchs.length = 0) (monitor : s.monitor = s'.monitor)
    (owner : s'.place.Owns s.monitor) : s'.Watches := by
  have jobs := h.jobs
  rw [early, List.take_zero, List.map_nil] at jobs
  refine ⟨?_, monitor ▸ owner⟩
  rw [later, List.take_zero, List.map_nil, ← monitor]
  exact jobs

variable (answers) in
theorem Watches.adds (h : s.Watches) {i : Nat} {o : SyncProcess} (before : s.place = .adding i)
    (atI : s.world.objects[i]? = some o) (new : s.monitor.checkDuplicatedPid o.pid = .ok ())
    (world : s.world = s'.world) (monitor : s.monitor.step answers (.add .process o.pid) = some s'.monitor)
    (place : s'.place = .adding (i + 1)) : s'.Watches := by
  have owner := h.owner
  have jobs := h.jobs
  rw [before] at owner jobs
  simp only [ProcessMonitor.step, ProcessMonitor.add, new, Option.ite_none_right_eq_some, Option.some.injEq]
    at monitor
  have next : (s.world.objects.map (·.pid))[i]? = some o.pid := by rw [List.getElem?_map, atI, Option.map_some]
  refine ⟨?_, ?_⟩
  · rw [place, ← world, ← monitor.2, Place.added, List.take_add_one, next, List.map_append, ProcessMonitor.jobs,
      List.map_append]
    exact congrArg (· ++ [(WaitKind.process, o.pid)]) jobs
  · rw [place, ← monitor.2]
    exact owner

theorem Watches.step (h : s.Watches) (launches : s.Launches) (tracks : s'.monitor.Tracks answers)
    (taken : s.step answers a = some s') (stays : s'.place.unwound = false) : s'.Watches := by
  obtain ⟨e, effect, world, monitor, _, benchs, place, _⟩ := step_cases taken
  rw [place] at stays
  have owner := h.owner
  cases a with
  | main pipe2 pid =>
    have jobs : e.monitor.all ProcessMonitor.Action.sparesWorkers = true → s'.monitor.jobs = s.monitor.jobs := by
      intro spares
      rw [ProcessMonitor.jobs, ProcessMonitor.owner_frame_optional spares monitor, ProcessMonitor.jobs]
    cases main_cases effect with
    | unwinds out => simp [out] at stays
    | constructs before =>
      rw [before] at owner
      exact h.before (before ▸ rfl) (by rw [place]; rfl) (Option.some.inj monitor) (place ▸ owner)
    | prepares before =>
      rw [before] at owner
      exact h.before (before ▸ rfl) (by rw [place]; rfl) (Option.some.inj monitor) (place ▸ owner)
    | adds before atI new =>
      exact h.adds answers before atI new (Option.some.inj world) monitor place
    | @added i before all =>
      have made := launches.made
      have same : s.monitor = s'.monitor := Option.some.inj monitor
      have sameWorld : s.world = s'.world := Option.some.inj world
      have known := h.jobs
      rw [before] at owner made known
      refine ⟨?_, place ▸ same ▸ owner⟩
      rw [place, ← same, ← sameWorld, benchs, known]
      have whole : ∀ n, s.world.objects.length ≤ n →
          (s.world.objects.map (·.pid)).take n = s.world.objects.map (·.pid) := fun n enough =>
        List.take_of_length_le (by rw [List.length_map]; exact enough)
      exact congrArg _ ((whole i all).trans (whole _ (Nat.le_of_eq made)).symm)
    | callsWaitForAny before =>
      rw [before] at owner
      refine h.keep taken effect (by simp) (jobs rfl) (before ▸ rfl) ?_
      simp only [optionalStep, ProcessMonitor.step, Option.ite_none_right_eq_some, Option.some.injEq] at monitor
      rw [← monitor.2]
      exact ⟨owner.1, .inl rfl⟩
    | pops before popping =>
      rw [before] at owner
      refine h.keep taken effect (by simp) (jobs rfl) (before ▸ rfl) ?_
      have pops : s.monitor.step answers .pop = some s'.monitor := monitor
      obtain ⟨returned, aborted | getting⟩ := ProcessMonitor.pop_cases pops
      · exact absurd aborted tracks.owner
      · exact ⟨returned.trans owner.1, .inr getting⟩
    | gets before getting ready =>
      refine h.keep taken effect (by simp) (jobs rfl) (before ▸ rfl) ?_
      simp only [optionalStep, ProcessMonitor.step, getting, ready, Option.some.injEq] at monitor
      rw [← monitor]
      exact ⟨by simp [ProcessMonitor.got], rfl⟩
    | cleaned before =>
      rw [before] at owner
      have same : s.monitor = s'.monitor := Option.some.inj monitor
      exact h.keep taken effect (by simp) (jobs rfl) (before ▸ rfl) (same ▸ owner.1)
    | left before destroyed =>
      rw [before] at owner
      have same : s.monitor = s'.monitor := Option.some.inj monitor
      exact h.keep taken effect (by simp) (jobs rfl) (before ▸ rfl) (same ▸ ⟨owner, destroyed⟩)
    | destroysMonitor before gone =>
      rw [before] at owner
      refine h.keep taken effect (by simp) (jobs ?_) (before ▸ rfl) ?_
      · rcases gone with rfl | rfl
        · rfl
        · rfl
      · show s'.monitor.returned ≠ []
        rw [ProcessMonitor.destroy_returned gone monitor]
        exact owner
    | _ =>
      have before := ‹s.place = _›
      rw [before] at owner
      have same : s.monitor = s'.monitor := Option.some.inj monitor
      exact h.keep taken effect (by simp) (jobs rfl) (before ▸ rfl) (same ▸ owner)
  | throws =>
    rcases throws_cases effect with out | ⟨i, before, rfl⟩ | ⟨i, before, rfl⟩
    · simp [out] at stays
    · rw [before] at owner
      have same : s.monitor = s'.monitor := Option.some.inj monitor
      exact h.keep taken effect (by simp) (by rw [same]) (before ▸ rfl) (same ▸ owner)
    · rw [before] at owner
      have same : s.monitor = s'.monitor := Option.some.inj monitor
      exact h.keep taken effect (by simp) (by rw [same]) (before ▸ rfl) (same ▸ owner)
  | execMonitor =>
    cases effect
    have same : s.monitor = s'.monitor := Option.some.inj monitor
    exact h.keep taken rfl (by simp) (by rw [same]) rfl (same ▸ owner)
  | worker k =>
    obtain ⟨t, o, _, _, works⟩ := worker_cases effect
    have here := works.place.1
    have frame := ProcessMonitor.worker_frame_optional (by cases works <;> rfl) monitor
    refine h.keep taken effect ?_ frame.2.2 (by rw [here]) (here ▸ owns_congr owner frame.1 frame.2.1)
    cases works <;> simp
  | child i act =>
    obtain ⟨notParent, rfl⟩ := child_cases effect
    have same : s.monitor = s'.monitor := Option.some.inj monitor
    refine h.keep taken effect ?_ (by rw [same]) rfl (same ▸ owner)
    rintro _ ⟨⟩
    refine ⟨i, act, rfl, ?_⟩
    rintro _ _ rfl
    simp [SyncProcess.Action.ofParent] at notParent

/-- A worker of the monitor waits for the process of its number. -/
theorem Watches.worker (h : s.Watches) {k : Nat} {t : Worker} (atK : s.monitor.workers[k]? = some t) :
    t.kind = .process ∧ ∃ o : SyncProcess, s.world.objects[k]? = some o ∧ o.pid = t.pid := by
  have job : s.monitor.jobs[k]? = some (t.kind, t.pid) := by
    rw [ProcessMonitor.jobs, List.getElem?_map, atK, Option.map_some]
  rw [h.jobs, List.getElem?_map, Option.map_eq_some_iff] at job
  obtain ⟨pid, atPid, same⟩ := job
  rw [List.getElem?_take] at atPid
  split at atPid
  · obtain ⟨o, atO, isPid⟩ := Option.map_eq_some_iff.mp ((List.getElem?_map ..).symm.trans atPid)
    obtain ⟨kind, pid⟩ := Prod.mk.inj same
    exact ⟨kind.symm, o, atO, isPid.trans pid⟩
  · simp at atPid

/-- The end of the execution is announced, and signals are sent, only late in `start_impl`. -/
def EndsLate (s : SimpleManager) : Prop := s.executionEnded = true ∨ s.signals ≠ [] → s.place.ended = true

theorem EndsLate.step (h : s.EndsLate) (taken : s.step answers a = some s')
    (stays : s'.place.unwound = false) : s'.EndsLate := by
  obtain ⟨e, effect, _, _, _, _, place, executionEnded, signals⟩ := step_cases taken
  rw [place] at stays
  have keep : e.executionEnds = false → e.signal = none → (s.place.ended = true → e.place.ended = true) →
      s'.EndsLate := by
    intro noEnd noSignal still late
    rw [executionEnded, noEnd, Bool.or_false, signals, noSignal, Option.toList_none, List.append_nil] at late
    rw [place]
    exact still (h late)
  cases a with
  | main pipe2 pid =>
    cases main_cases effect with
    | unwinds out => simp [out] at stays
    | ends => exact fun _ => place ▸ rfl
    | kills => exact fun _ => place ▸ rfl
    | _ =>
      have before := ‹s.place = _›
      exact keep rfl rfl (before ▸ by simp [Place.ended])
  | throws =>
    rcases throws_cases effect with out | ⟨i, before, rfl⟩ | ⟨i, before, rfl⟩
    · simp [out] at stays
    · exact keep rfl rfl (fun _ => rfl)
    · exact keep rfl rfl (fun _ => rfl)
  | execMonitor =>
    cases effect
    exact keep rfl rfl id
  | worker k =>
    obtain ⟨t, o, _, _, works⟩ := worker_cases effect
    obtain ⟨same, noEnd, noSignal, _⟩ := works.place
    exact keep noEnd noSignal (same ▸ id)
  | child i act =>
    obtain ⟨_, rfl⟩ := child_cases effect
    exact keep rfl rfl id

/-- What holds of the components, whatever the manager does. -/
structure Sound (answers : Nat → WaitResult) (s : SimpleManager) : Prop where
  handshake : s.world.Each fun _ o => o.Handshake
  ends : s.world.Each fun _ o => o.EndsProperly
  tracks : s.monitor.Tracks answers
  drains : s.monitor.Drains

theorem Sound.step (h : s.Sound answers) (taken : s.step answers a = some s') : s'.Sound answers := by
  obtain ⟨e, effect, world, monitor, _⟩ := step_cases taken
  have both := optionalStep_keeps (I := fun m : ProcessMonitor => m.Tracks answers ∧ m.Drains)
    (fun both moved => ⟨both.1.step moved, both.2.step both.1 moved⟩) ⟨h.tracks, h.drains⟩ monitor
  exact ⟨optionalStep_keeps (fun each moved => SyncWorld.handshake_step each moved) h.handshake world,
    optionalStep_keeps (fun each moved => SyncWorld.endsProperly_step each moved) h.ends world, both.1, both.2⟩

/-- Where the thread stands within `start` tells what was done so far. -/
structure Staged (s : SimpleManager) : Prop where
  launches : s.Launches
  watches : s.Watches
  late : s.EndsLate

theorem Staged.step (h : s.Staged) (sound : s.Sound answers) (taken : s.step answers a = some s')
    (stays : s'.place.unwound = false) : s'.Staged :=
  ⟨h.launches.step sound.handshake taken stays, h.watches.step h.launches (sound.step taken).tracks taken stays,
    h.late.step taken stays⟩

/-- Once `start` may be called, everything is there. -/
theorem Staged.all (h : s.Staged) (launched : s.place.launched = true) :
    s.world.objects.length = s.benchs.length ∧ s.monitor.workers.length = s.benchs.length ∧
      (s.world.Each fun _ o => o.prepared = true) ∧ s.execMonitor.prepared = true := by
  have counts : s.place.made s.benchs.length = s.benchs.length ∧ s.place.prepared s.benchs.length = s.benchs.length ∧
      s.place.added s.benchs.length = s.benchs.length := by
    cases place : s.place with
    | initializing | constructing | callingPrepare | inPrepare | notifying | adding | preparingMonitor =>
      simp [place, Place.launched] at launched
    | _ => exact ⟨rfl, rfl, rfl⟩
  have objects := h.launches.made.trans counts.1
  have jobs := congrArg List.length h.watches.jobs
  rw [ProcessMonitor.jobs, List.length_map, List.length_map, List.length_take, List.length_map, counts.2.2, objects,
    Nat.min_self] at jobs
  refine ⟨objects, jobs, fun i o atI => h.launches.prepared i o atI ?_, h.launches.monitor launched⟩
  have within := (List.getElem?_eq_some_iff.mp atI).1
  omega

theorem sound_init (benchs : List (List String)) (pgid : Pid) : (init benchs pgid).Sound answers :=
  ⟨SyncWorld.each_init pgid, SyncWorld.each_init pgid, ProcessMonitor.init_tracks, fun k t atK => by simp [init] at atK⟩

theorem staged_init (benchs : List (List String)) (pgid : Pid) : (init benchs pgid).Staged where
  launches := ⟨rfl, Nat.zero_le _, by simp [init, SyncWorld.init], fun _ => SyncWorld.each_init pgid,
    by simp [init, Place.launched]⟩
  watches := ⟨rfl, rfl, rfl⟩
  late := by simp [EndsLate, init]

/-- In a run that no exception leaves, everything happens in its stage. -/
theorem staged {benchs : List (List String)} {pgid : Pid} {ts : List (Transition SimpleManager Action)}
    (run : Run (step answers) (init benchs pgid) ts s) :
    s.benchs = benchs ∧ s.Sound answers ∧ (s.place.unwound = false → s.Staged) := by
  refine run.invariant (I := fun s => s.benchs = benchs ∧ s.Sound answers ∧ (s.place.unwound = false → s.Staged))
    ⟨rfl, sound_init benchs pgid, fun _ => staged_init benchs pgid⟩ ?_
  intro s a s' known taken
  obtain ⟨same, sound, staged⟩ := known
  obtain ⟨_, _, _, _, _, benchs, _⟩ := step_cases taken
  exact ⟨benchs.trans same, sound.step taken,
    fun stays => (staged (not_unwound taken stays)).step sound taken stays⟩

end SimpleManager

end Aser
