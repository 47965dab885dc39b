import Aser.Util.SyncGroups

namespace Aser

open Library

namespace Child

variable {gid : Pid} {c : Child}

@[simp] theorem pid_signalled (gid : Pid) (c : Child) : (c.signalled gid).pid = c.pid := by
  unfold signalled
  split
  · exact (SyncProcess.pid_dies c sigkilled).1
  · rfl

theorem signalled_reaped (reaped : c.phase = .reaped) : c.signalled gid = c := by
  unfold signalled
  split
  · exact c.dies_of_dead (by simp [running, reaped]) sigkilled
  · rfl

/-- Nobody is on his way to `execvp` who was not before. -/
theorem signalled_waiting {todo : List SyncOp} (phase : (c.signalled gid).phase = .waitForParent todo) :
    c.phase = .waitForParent todo := by
  unfold signalled at phase
  split at phase
  · have dead := c.running_dies sigkilled
    simp [running, phase] at dead
  · exact phase

end Child

namespace SyncProcess

variable {o : SyncProcess} {gid pgid : Pid} {alive : Bool} {i : Nat}

/-- The child gets `SIGKILL` if it is in the group. -/
def signalled (gid : Pid) (o : SyncProcess) : SyncProcess := { o with child := o.child.map (·.signalled gid) }

theorem Handshake.signalled (h : o.Handshake) : (o.signalled gid).Handshake := by
  refine h.quiet rfl rfl rfl (by simp [SyncProcess.signalled]) h.calls ?_
  intro c' todo atChild' phase'
  obtain ⟨c, atChild, rfl⟩ := Option.map_eq_some_iff.mp atChild'
  exact ⟨c, atChild, Child.signalled_waiting phase'⟩

theorem Grouped.signalled (g : Grouped alive pgid i o) (gone : pgid = gid → alive = false) :
    Grouped alive pgid i (o.signalled gid) := by
  cases atChild : o.child with
  | none =>
    have same : o.signalled gid = o := by
      rw [SyncProcess.signalled, atChild, Option.map_none, ← atChild]
    rw [same]
    exact g
  | some c =>
    by_cases hit : c.pgid = gid
    · have died : c.signalled gid = c.dies sigkilled := if_pos hit
      refine g.dies sigkilled ?_ rfl rfl rfl rfl (fun _ => id) (.inl rfl) ?_
      · simp [SyncProcess.signalled, atChild, died]
      · intro c' atChild' _ shared there
        cases Option.some.inj (atChild.symm.trans atChild')
        rw [gone (shared.symm.trans hit)] at there
        cases there
    · have spared : c.signalled gid = c := if_neg hit
      have same : o.signalled gid = o := by
        rw [SyncProcess.signalled, atChild, Option.map_some, spared, ← atChild]
      rw [same]
      exact g

theorem Accounted.signalled (accounted : o.Accounted) : (o.signalled gid).Accounted := by
  intro settled
  obtain ⟨c, atChild, reaped⟩ := accounted settled
  refine ⟨c, ?_, reaped⟩
  rw [SyncProcess.signalled, atChild, Option.map_some, Child.signalled_reaped reaped]

end SyncProcess

namespace GroupWorld

variable {g g' : GroupWorld} {a : Action} {i : Nat} {pid gid : Pid}

/-- Everybody in the group comes from object `i`: its child and what the command of this one started. -/
def OnlyOf (g : GroupWorld) (i : Nat) (gid : Pid) : Prop :=
  ∀ m, g.InGroup gid m → m = .child i ∨
    ∃ k d, m = .descendant k ∧ g.descendants[k]? = some d ∧ d.object = i

/-- The step kills a child before its first statement while `prepare` waits for it. -/
def KilledFirst (g : GroupWorld) (a : Action) : Prop := ∃ b, a = .world b ∧ g.world.KilledFirst b

/-- Children that are not reaped have pids of their own, and what a command has started is in the group
of no child but its own. -/
structure Sound (g : GroupWorld) : Prop where
  handshake : g.world.Each fun _ o => o.Handshake
  accounted : g.world.Each fun _ o => o.Accounted
  grouped : g.world.Grouped
  single : ∀ {i j pid}, g.world.HasChild i pid → g.world.HasChild j pid → i = j
  apart : ∀ {d}, d ∈ g.descendants → ∀ {i}, g.world.HasChild i d.pgid → d.object = i

theorem step_cases (taken : g.step a = some g') :
    (∃ b world, a = .world b ∧ g.mayStep b = true ∧ g.world.step b = some world ∧ g' = { g with world }) ∨
    (∃ i o, a = .killTree i ∧ g.world.objects[i]? = some o ∧ g' = { g with
      calls := g.calls ++ [{ object := i, inTime := o.prepared && o.child.all (·.phase ≠ .reaped) }] }) ∨
    (∃ k elsewhere fails call o place made, a = .tree k elsewhere fails ∧ g.calls[k]? = some call ∧
      g.world.objects[call.object]? = some o ∧ g.callStep elsewhere fails o call.place = some (place, made) ∧
      g' = { made with calls := made.calls.set k { call with place } }) ∨
    (∃ i o c, a = .spawns i ∧ g.world.objects[i]? = some o ∧ o.child = some c ∧ c.phase = .program ∧
      g' = { g with descendants := g.descendants ++ [⟨i, c.pgid⟩] }) ∨
    (∃ k d, a = .respawns k ∧ g.descendants[k]? = some d ∧ g' = { g with descendants := g.descendants ++ [d] }) ∨
    ∃ k, a = .exits k ∧ g' = { g with descendants := g.descendants.eraseIdx k } := by
  cases a with
  | world b =>
    simp only [step, Option.ite_none_right_eq_some, Option.map_eq_some_iff] at taken
    obtain ⟨may, world, moved, rfl⟩ := taken
    exact .inl ⟨b, world, rfl, may, moved, rfl⟩
  | killTree i =>
    obtain ⟨o, atI, taken⟩ := Option.bind_eq_some_iff.mp taken
    simp only [Option.ite_none_right_eq_some, Option.some.injEq] at taken
    exact .inr (.inl ⟨i, o, rfl, atI, taken.2.symm⟩)
  | tree k elsewhere fails =>
    obtain ⟨call, atK, taken⟩ := Option.bind_eq_some_iff.mp taken
    obtain ⟨o, atI, taken⟩ := Option.bind_eq_some_iff.mp taken
    simp only [Option.ite_none_right_eq_some] at taken
    obtain ⟨⟨place, made⟩, moved, rfl⟩ := Option.map_eq_some_iff.mp taken.2
    exact .inr (.inr (.inl ⟨k, elsewhere, fails, call, o, place, made, rfl, atK, atI, moved, rfl⟩))
  | spawns i =>
    obtain ⟨o, atI, taken⟩ := Option.bind_eq_some_iff.mp taken
    obtain ⟨c, atChild, taken⟩ := Option.bind_eq_some_iff.mp taken
    simp only [Option.ite_none_right_eq_some, Option.some.injEq] at taken
    exact .inr (.inr (.inr (.inl ⟨i, o, c, rfl, atI, atChild, taken.1, taken.2.symm⟩)))
  | respawns k =>
    obtain ⟨d, atK, rfl⟩ := Option.map_eq_some_iff.mp taken
    exact .inr (.inr (.inr (.inr (.inl ⟨k, d, rfl, atK, rfl⟩))))
  | exits k =>
    obtain ⟨d, _, rfl⟩ := Option.map_eq_some_iff.mp taken
    exact .inr (.inr (.inr (.inr (.inr ⟨k, rfl, rfl⟩))))

variable {elsewhere : List (Pid × Pid)} {fails : Option Int} {o : SyncProcess} {place place' : TreePlace}

/-- A call signals one group at most, and finds out beforehand which. -/
theorem callStep_cases (taken : g.callStep elsewhere fails o place = some (place', g')) :
    (g' = g ∧ ∀ gid, place' = .killing gid → place = .gettingGroup ∧ g.getpgid elsewhere o.pid = gid) ∨
    ∃ gid, place = .killing gid ∧ fails = none ∧ place' = .returned ∧ g' = g.signal gid := by
  cases place with
  | testing =>
    obtain ⟨rfl, rfl⟩ := Prod.mk.inj (Option.some.inj taken)
    refine .inl ⟨rfl, fun gid there => ?_⟩
    split at there <;> simp at there
  | gettingGroup =>
    simp only [callStep, errorIfEqual] at taken
    split at taken
    · obtain ⟨rfl, rfl⟩ := Prod.mk.inj (Option.some.inj taken)
      exact .inl ⟨rfl, by simp⟩
    · rename_i gid found
      obtain ⟨rfl, rfl⟩ := Prod.mk.inj (Option.some.inj taken)
      split at found
      · simp [libcError] at found
      · exact .inl ⟨rfl, by rintro _ ⟨⟩; exact ⟨rfl, Except.ok.inj found⟩⟩
  | killing gid =>
    simp only [callStep] at taken
    split at taken
    · obtain ⟨rfl, rfl⟩ := Prod.mk.inj (Option.some.inj taken)
      exact .inl ⟨rfl, by simp⟩
    · rename_i sent
      obtain ⟨rfl, rfl⟩ := Prod.mk.inj (Option.some.inj taken)
      unfold kill at sent
      split at sent
      · simp at sent
      · split at sent
        · exact .inr ⟨gid, rfl, rfl, rfl, (Except.ok.inj sent).symm⟩
        · simp at sent
  | returned | threw => simp [callStep] at taken

/-- What the manager leaves behind when a signal for its own group ends it. -/
theorem signal_world (g : GroupWorld) (gid : Pid) : ∃ world : SyncWorld,
    (g.signal gid).world = { world with objects := world.objects.map (·.signalled gid) } ∧
      (world = g.world ∨ g.world.step .parentEnds = some world) ∧ (world.pgid = gid → world.alive = false) := by
  by_cases hit : g.world.pgid = gid
  · cases ends : g.world.step .parentEnds with
    | none =>
      refine ⟨g.world, ?_, .inl rfl, fun _ => ?_⟩
      · simp only [signal, hit, if_true, ends, Option.getD_none]
        rfl
      · simpa [SyncWorld.step] using ends
    | some world =>
      refine ⟨world, ?_, .inr rfl, fun _ => ?_⟩
      · simp only [signal, hit, if_true, ends, Option.getD_some]
        rfl
      · simp only [SyncWorld.step, Option.ite_none_right_eq_some, Option.some.injEq] at ends
        rw [← ends.2]
  · refine ⟨g.world, ?_, .inl rfl, fun same => absurd same hit⟩
    simp only [signal, hit, if_false]
    rfl

theorem each_signalled {world : SyncWorld} {I : Nat → SyncProcess → Prop} (each : world.Each I)
    (signalled : ∀ i o, I i o → I i (o.signalled gid)) :
    SyncWorld.Each { world with objects := world.objects.map (·.signalled gid) } I := by
  intro j q atJ
  simp only [List.getElem?_map, Option.map_eq_some_iff] at atJ
  obtain ⟨o, atJ, rfl⟩ := atJ
  exact signalled j o (each j o atJ)

theorem hasChild_signalled {world : SyncWorld}
    (has : SyncWorld.HasChild { world with objects := world.objects.map (·.signalled gid) } i pid) :
    world.HasChild i pid := by
  obtain ⟨q, c', atI, atChild', unreaped, rfl⟩ := has
  simp only [List.getElem?_map, Option.map_eq_some_iff] at atI
  obtain ⟨o, atI, rfl⟩ := atI
  obtain ⟨c, atChild, rfl⟩ := Option.map_eq_some_iff.mp atChild'
  refine ⟨o, c, atI, atChild, fun reaped => unreaped ?_, (Child.pid_signalled gid c).symm⟩
  rw [Child.signalled_reaped reaped, reaped]

theorem Sound.signal (sound : g.Sound) (gid : Pid) : (g.signal gid).Sound := by
  obtain ⟨world, same, which, gone⟩ := g.signal_world gid
  have handshake : world.Each fun _ o => o.Handshake := by
    rcases which with rfl | ends
    · exact sound.handshake
    · exact SyncWorld.handshake_step sound.handshake ends
  have accounted : world.Each fun _ o => o.Accounted := by
    rcases which with rfl | ends
    · exact sound.accounted
    · exact SyncWorld.accounted_step sound.handshake sound.accounted ends
  have grouped : world.Grouped := by
    rcases which with rfl | ends
    · exact sound.grouped
    · refine sound.grouped.step sound.handshake (fun killed => ?_) ends
      obtain ⟨_, _, _, other, _⟩ := killed
      cases other
  have back : ∀ {i pid}, (g.signal gid).world.HasChild i pid → g.world.HasChild i pid := by
    intro i pid has
    rw [same] at has
    have before := hasChild_signalled has
    rcases which with rfl | ends
    · exact before
    · rcases SyncWorld.hasChild_of_step ends before with old | ⟨⟨⟩, _⟩
      exact old
  refine ⟨?_, ?_, ?_, fun has has' => sound.single (back has) (back has'), fun member _ has => ?_⟩
  · rw [same]
    exact each_signalled handshake fun _ _ h => h.signalled
  · rw [same]
    exact each_signalled accounted fun _ _ accounted => accounted.signalled
  · rw [same]
    exact each_signalled grouped fun _ _ grouped => grouped.signalled gone
  · exact sound.apart (List.mem_filter.mp member).1 (back has)

/-- The calls of `kill_process` are no processes. -/
theorem Sound.withCalls (sound : g.Sound) (calls : List TreeCall) : Sound { g with calls } :=
  ⟨sound.handshake, sound.accounted, sound.grouped, sound.single, sound.apart⟩

/-- Who is new among the descendants is in the group of no child but that it comes from. -/
theorem Sound.descends (sound : g.Sound) {ds : List Descendant}
    (origin : ∀ d ∈ ds, d ∈ g.descendants ∨ ∀ i, g.world.HasChild i d.pgid → d.object = i) :
    Sound { g with descendants := ds } := by
  refine ⟨sound.handshake, sound.accounted, sound.grouped, sound.single, fun {d} member i has => ?_⟩
  rcases origin d member with old | new
  · exact sound.apart old has
  · exact new i has

theorem Sound.step (sound : g.Sound) (spared : ¬ g.KilledFirst a) (taken : g.step a = some g') : g'.Sound := by
  rcases step_cases taken with ⟨b, world, rfl, may, moved, rfl⟩ | ⟨i, o, rfl, atI, rfl⟩ |
    ⟨k, elsewhere, fails, call, o, place, made, rfl, atK, atI, moved, rfl⟩ | ⟨i, o, c, rfl, atI, atChild, runs, rfl⟩ |
    ⟨k, d, rfl, atK, rfl⟩ | ⟨k, rfl, rfl⟩
  · refine ⟨SyncWorld.handshake_step sound.handshake moved,
      SyncWorld.accounted_step sound.handshake sound.accounted moved,
      sound.grouped.step sound.handshake (fun killed => spared ⟨b, rfl, killed⟩) moved, ?_, ?_⟩
    · intro i j pid has has'
      rcases SyncWorld.hasChild_of_step moved has with old | ⟨rfl, free⟩
      · rcases SyncWorld.hasChild_of_step moved has' with old' | ⟨rfl, free⟩
        · exact sound.single old old'
        · exact absurd old (SyncWorld.not_hasChild free)
      · rcases SyncWorld.hasChild_of_step moved has' with old' | ⟨⟨⟩, _⟩
        · exact absurd old' (SyncWorld.not_hasChild free)
        · rfl
    · intro d member i has
      rcases SyncWorld.hasChild_of_step moved has with old | ⟨rfl, _⟩
      · exact sound.apart member old
      · have clear := List.all_eq_true.mp may d member
        simp at clear
  · exact sound.withCalls _
  · rcases callStep_cases moved with ⟨rfl, _⟩ | ⟨gid, _, _, _, rfl⟩
    · exact sound.withCalls _
    · exact (sound.signal gid).withCalls _
  · refine sound.descends fun d member => ?_
    rcases List.mem_append.mp member with old | new
    · exact .inl old
    · cases List.mem_singleton.mp new
      -- the command runs in a group of its own, which nobody else's pid is the number of
      refine .inr fun j has => ?_
      obtain ⟨o', c', atJ, atChild', unreaped, group⟩ := has
      rcases (sound.grouped i o atI).pgid_cases atChild with shared | own
      · exact absurd (group.trans shared) ((sound.grouped j o' atJ).pid atChild').2
      · exact sound.single ⟨o, c, atI, atChild, by simp [runs], own.symm⟩ ⟨o', c', atJ, atChild', unreaped, group⟩
  · refine sound.descends fun d' member => .inl ?_
    rcases List.mem_append.mp member with old | new
    · exact old
    · cases List.mem_singleton.mp new
      exact List.mem_of_getElem? atK
  · exact sound.descends fun d member => .inl (List.mem_of_mem_eraseIdx member)

theorem sound_init (pgid : Pid) : (init pgid).Sound := by
  refine ⟨SyncWorld.each_init pgid, SyncWorld.each_init pgid, SyncWorld.each_init pgid, ?_, by simp [init]⟩
  intro i j pid has
  obtain ⟨o, c, atI, _⟩ := has
  simp [init, SyncWorld.init] at atI

theorem mem_children {o : SyncProcess} {c : Child} (atI : g.world.objects[i]? = some o) (atChild : o.child = some c)
    (unreaped : c.phase ≠ .reaped) : c ∈ g.children := by
  refine List.mem_filter.mpr ⟨List.mem_filterMap.mpr ⟨o, List.mem_of_getElem? atI, atChild⟩, ?_⟩
  simpa using unreaped

theorem of_mem_children {c : Child} (member : c ∈ g.children) :
    ∃ (i : Nat) (o : SyncProcess), g.world.objects[i]? = some o ∧ o.child = some c ∧ c.phase ≠ .reaped := by
  obtain ⟨inWorld, unreaped⟩ := List.mem_filter.mp member
  obtain ⟨o, inObjects, atChild⟩ := List.mem_filterMap.mp inWorld
  obtain ⟨i, atI⟩ := List.mem_iff_getElem?.mp inObjects
  exact ⟨i, o, atI, atChild, by simpa using unreaped⟩

/-- The pid of a child that is not reaped is that of no other process. -/
theorem Sound.getpgid (sound : g.Sound) {o : SyncProcess} {c : Child} (atI : g.world.objects[i]? = some o)
    (atChild : o.child = some c) (unreaped : c.phase ≠ .reaped) (elsewhere : List (Pid × Pid)) :
    g.getpgid elsewhere c.pid = c.pgid := by
  unfold GroupWorld.getpgid
  split
  · rename_i d found
    have same : d.pid = c.pid := by simpa using List.find?_some found
    obtain ⟨j, q, atJ, atChild', unreaped'⟩ := of_mem_children (List.mem_of_find?_eq_some found)
    have here := sound.single ⟨o, c, atI, atChild, unreaped, rfl⟩ ⟨q, d, atJ, atChild', unreaped', same⟩
    subst here
    cases Option.some.inj (atI.symm.trans atJ)
    cases Option.some.inj (atChild.symm.trans atChild')
    rfl
  · rename_i none
    have other := List.find?_eq_none.mp none c (mem_children atI atChild unreaped)
    simp at other

theorem Sound.onlyOf (sound : g.Sound) {o : SyncProcess} {c : Child} (atI : g.world.objects[i]? = some o)
    (atChild : o.child = some c) (unreaped : c.phase ≠ .reaped) : g.OnlyOf i c.pid := by
  have has : g.world.HasChild i c.pid := ⟨o, c, atI, atChild, unreaped, rfl⟩
  have other := ((sound.grouped i o atI).pid atChild).2
  intro m inGroup
  cases m with
  | manager => exact absurd inGroup.2.symm other
  | child j =>
    obtain ⟨q, d, atJ, atChild', unreaped', group⟩ := inGroup
    have grouped := sound.grouped j q atJ
    rcases grouped.pgid_cases atChild' with shared | own
    · exact absurd (group.symm.trans shared) other
    · have same := sound.single has ⟨q, d, atJ, atChild', unreaped', own.symm.trans group⟩
      exact .inl (congrArg Member.child same.symm)
  | descendant k =>
    obtain ⟨d, atK, group⟩ := inGroup
    exact .inr ⟨k, d, rfl, atK, sound.apart (List.mem_of_getElem? atK) (group ▸ has)⟩

/-- A prepared object has its child in a group of its own, and a call for it that is made before the child is
reaped finds that group. -/
theorem Sound.prepared (sound : g.Sound) (atI : g.world.objects[i]? = some o) (prepared : o.prepared = true) :
    ∃ c, o.child = some c ∧ c.pid = o.pid ∧ c.pgid = c.pid ∧ o.started = true ∧
      (c.phase ≠ .reaped → ∀ elsewhere, g.getpgid elsewhere o.pid = o.pid) := by
  obtain ⟨c, atChild, same, own, _⟩ := (sound.grouped i o atI).prepared prepared
  have started : o.started = true := by
    rw [(sound.handshake i o atI).forked, atChild]
    rfl
  refine ⟨c, atChild, same, own, started, fun unreaped elsewhere => ?_⟩
  rw [← same, sound.getpgid atI atChild unreaped elsewhere, own]

/-- The calls made in time are for prepared objects, and about to signal the group of their child. -/
def Aimed (g : GroupWorld) : Prop :=
  ∀ (k : Nat) (call : TreeCall), g.calls[k]? = some call → call.inTime = true →
    ∃ o, g.world.objects[call.object]? = some o ∧ o.prepared = true ∧
      ∀ gid, call.place = .killing gid → gid = o.pid

/-- A call made in time comes to `getpgid` or `kill`, and its child has been reaped meanwhile. -/
def ReapedMeanwhile (g : GroupWorld) (a : Action) : Prop :=
  ∃ k elsewhere fails call o, a = .tree k elsewhere fails ∧ g.calls[k]? = some call ∧ call.inTime = true ∧
    call.place ≠ .testing ∧ g.world.objects[call.object]? = some o ∧ o.Reaped

theorem Aimed.of_objects {objects : GroupWorld} (aimed : g.Aimed) (calls : objects.calls = g.calls)
    (kept : ∀ (i : Nat) o, g.world.objects[i]? = some o → o.prepared = true →
      ∃ q, objects.world.objects[i]? = some q ∧ q.prepared = true ∧ q.pid = o.pid) : objects.Aimed := by
  intro k call atK inTime
  obtain ⟨o, atI, prepared, aims⟩ := aimed k call (calls ▸ atK) inTime
  obtain ⟨q, atI', prepared', pid⟩ := kept _ o atI prepared
  exact ⟨q, atI', prepared', fun gid there => (aims gid there).trans pid.symm⟩

theorem Aimed.signal (aimed : g.Aimed) (gid : Pid) : (g.signal gid).Aimed := by
  refine aimed.of_objects rfl fun i o atI prepared => ?_
  obtain ⟨world, same, which, _⟩ := g.signal_world gid
  have kept : ∃ q, world.objects[i]? = some q ∧ q.prepared = true ∧ q.pid = o.pid := by
    rcases which with rfl | ends
    · exact ⟨o, atI, prepared, rfl⟩
    · simp only [SyncWorld.step, Option.ite_none_right_eq_some, Option.some.injEq] at ends
      rw [← ends.2]
      exact ⟨{ o with fds := [] }, by rw [List.getElem?_map, atI, Option.map_some], prepared, rfl⟩
  obtain ⟨q, atI', prepared', pid⟩ := kept
  refine ⟨q.signalled gid, ?_, prepared', pid⟩
  rw [same, List.getElem?_map, atI', Option.map_some]

theorem Aimed.step (aimed : g.Aimed) (sound : g.Sound) (meanwhile : ¬ g.ReapedMeanwhile a)
    (taken : g.step a = some g') : g'.Aimed := by
  rcases step_cases taken with ⟨b, world, rfl, may, moved, rfl⟩ | ⟨i, o, rfl, atI, rfl⟩ |
    ⟨k, elsewhere, fails, call, o, place, made, rfl, atK, atI, moved, rfl⟩ | ⟨i, o, c, rfl, atI, atChild, runs, rfl⟩ |
    ⟨k, d, rfl, atK, rfl⟩ | ⟨k, rfl, rfl⟩
  · refine aimed.of_objects rfl fun i o atI prepared => ?_
    obtain ⟨_, _, _, _, started, _⟩ := sound.prepared atI prepared
    exact SyncWorld.prepared_stays moved atI prepared started
  · intro j call atJ inTime
    rcases getElem?_append_singleton atJ with old | ⟨_, rfl⟩
    · exact aimed j call old inTime
    · exact ⟨o, atI, (Bool.and_eq_true_iff.mp inTime).1, by simp⟩
  · have before : made.Aimed ∧ made.calls = g.calls := by
      rcases callStep_cases moved with ⟨rfl, _⟩ | ⟨gid, _, _, _, rfl⟩
      · exact ⟨aimed, rfl⟩
      · exact ⟨aimed.signal gid, rfl⟩
    intro j call' atJ inTime
    have atJ' : (made.calls.set k { call with place })[j]? = some call' := atJ
    rw [List.getElem?_set] at atJ'
    split at atJ'
    · rename_i here
      subst here
      split at atJ'
      · cases Option.some.inj atJ'
        obtain ⟨q, atI', prepared', _⟩ := before.1 k call (before.2 ▸ atK) inTime
        refine ⟨q, atI', prepared', fun gid there => ?_⟩
        rcases callStep_cases moved with ⟨rfl, found⟩ | ⟨_, _, _, returned, _⟩
        · cases Option.some.inj (atI.symm.trans atI')
          obtain ⟨getting, group⟩ := found gid there
          obtain ⟨c, atChild, _, _, _, own⟩ := sound.prepared atI prepared'
          have unreaped : c.phase ≠ .reaped := fun reaped =>
            meanwhile ⟨k, elsewhere, fails, call, o, rfl, atK, inTime, by simp [getting], atI, c, atChild, reaped⟩
          rw [← group, own unreaped elsewhere]
        · have there' : place = .killing gid := there
          simp [returned] at there'
      · simp at atJ'
    · exact before.1 j call' atJ' inTime
  · exact aimed.of_objects rfl fun i o atI prepared => ⟨o, atI, prepared, rfl⟩
  · exact aimed.of_objects rfl fun i o atI prepared => ⟨o, atI, prepared, rfl⟩
  · exact aimed.of_objects rfl fun i o atI prepared => ⟨o, atI, prepared, rfl⟩

/-- What a call that is about to signal a group does, if it was made in time: the group is that of its own
process, and the signal is sent unless the kernel refuses it. -/
def OwnGroup (g : GroupWorld) (a : Action) (g' : GroupWorld) : Prop :=
  ∀ k elsewhere fails call gid, a = .tree k elsewhere fails → g.calls[k]? = some call → call.inTime = true →
    call.place = .killing gid → ∃ o, g.world.objects[call.object]? = some o ∧ gid = o.pid ∧
      g.InGroup gid (.child call.object) ∧ g.OnlyOf call.object gid ∧ g.world.pgid ≠ gid ∧
      (fails = none → g'.world = (g.signal gid).world ∧ g'.descendants = (g.signal gid).descendants)

theorem kill_occupied {c : Child} (member : c ∈ g.children) (elsewhere : List (Pid × Pid)) :
    g.kill elsewhere none c.pgid = .ok (g.signal c.pgid) :=
  if_pos (.inr (.inl (List.mem_map.mpr ⟨c, member, rfl⟩)))

theorem Aimed.ownGroup (aimed : g.Aimed) (sound : g.Sound) (meanwhile : ¬ g.ReapedMeanwhile a)
    (taken : g.step a = some g') : g.OwnGroup a g' := by
  rintro k elsewhere fails call gid rfl atK inTime killing
  obtain ⟨o, atI, prepared, aims⟩ := aimed k call atK inTime
  obtain ⟨c, atChild, same, own, _, _⟩ := sound.prepared atI prepared
  have unreaped : c.phase ≠ .reaped := fun reaped =>
    meanwhile ⟨k, elsewhere, fails, call, o, rfl, atK, inTime, by simp [killing], atI, c, atChild, reaped⟩
  cases aims gid killing
  refine ⟨o, atI, rfl, ⟨o, c, atI, atChild, unreaped, own.trans same⟩, same ▸ sound.onlyOf atI atChild unreaped, ?_, ?_⟩
  · rw [← same]
    exact ((sound.grouped _ o atI).pid atChild).2.symm
  · rintro rfl
    have sent := kill_occupied (mem_children atI atChild unreaped) elsewhere
    rw [own, same] at sent
    rcases step_cases taken with ⟨_, _, ⟨⟩, _⟩ | ⟨_, _, ⟨⟩, _⟩ |
      ⟨_, _, _, call', o', place, made, ⟨⟩, atK', atI', moved, rfl⟩ | ⟨_, _, _, ⟨⟩, _⟩ | ⟨_, _, ⟨⟩, _⟩ | ⟨_, ⟨⟩, _⟩
    cases Option.some.inj (atK.symm.trans atK')
    rw [killing] at moved
    simp only [callStep, sent, Option.some.injEq, Prod.mk.injEq] at moved
    rw [← moved.2]
    exact ⟨rfl, rfl⟩

/-- After a `prepare` that returned, the child leads a group of its own. A call of `kill_process` with
`kill_mode::TREE` made between that and the reaping signals that group, which the manager is not in, nor
any other child or what the command of one has started, as long as no such call goes on to `getpgid` and
`kill` with a child that was reaped meanwhile: the test of `terminated` does not see to that. -/
theorem kill_tree_own_group {pgid : Pid} {ts : List (Transition GroupWorld Action)}
    (run : Run step (init pgid) ts g) (spared : ∀ t ∈ ts, ¬ t.before.KilledFirst t.action) :
    (∀ (i : Nat) (o : SyncProcess), g.world.objects[i]? = some o → o.prepared = true →
      ∃ c, o.child = some c ∧ c.pid = o.pid ∧ c.pgid = c.pid) ∧
    ((∀ t ∈ ts, ¬ t.before.ReapedMeanwhile t.action) → ∀ t ∈ ts, t.before.OwnGroup t.action t.after) := by
  constructor
  · intro i o atI prepared
    have sound : g.Sound := run.invariant_of_guard (I := Sound) (G := fun g a => ¬ g.KilledFirst a)
      (sound_init pgid) (fun sound spared taken => sound.step spared taken) spared
    obtain ⟨c, atChild, same, own, _⟩ := sound.prepared atI prepared
    exact ⟨c, atChild, same, own⟩
  · intro meanwhile t member
    obtain ⟨taken, earlier, later, split, reached⟩ := run.transition member
    have before : t.before.Sound ∧ t.before.Aimed := reached.invariant_of_guard (I := fun g => g.Sound ∧ g.Aimed)
      (G := fun g a => ¬ g.KilledFirst a ∧ ¬ g.ReapedMeanwhile a) ⟨sound_init pgid, by simp [Aimed, init]⟩
      (fun both guard taken => ⟨both.1.step guard.1 taken, both.2.step both.1 guard.2 taken⟩)
      (fun t' member' => ⟨spared t' (by simp [split, member']), meanwhile t' (by simp [split, member'])⟩)
    exact before.2.ownGroup before.1 (meanwhile t member) taken

/-- Neither `kill_process` nor an outside signal ends a child in the step. -/
def Action.spares : Action → Bool
  | .world (.object _ .kill) | .world (.object _ (.childEnds _)) => false
  | _ => true

/-- No child is about to call `setpgid`. -/
def noneFirst (g : GroupWorld) : Bool :=
  g.world.objects.all fun o => o.child.all fun c => c.phase ≠ .waitForParent SyncOp.waitForParent

theorem not_killedFirst (spares : (a.spares || g.noneFirst) = true) : ¬ g.KilledFirst a := by
  rintro ⟨b, rfl, i, act, o, rfl, atI, ⟨c, todo, atChild, first, _⟩, signal⟩
  rcases Bool.or_eq_true_iff.mp spares with spares | none
  · rcases signal with rfl | ⟨status, rfl⟩
    · cases spares
    · cases spares
  · have later := List.all_eq_true.mp none o (List.mem_of_getElem? atI)
    simp only [atChild, Option.all_some, decide_eq_true_eq] at later
    exact later first

/-- The first process is executing its command. -/
def executeOne : List Action :=
  SyncWorld.prepareOne.map .world ++ [.world (.object 0 .start), .world (.object 0 .parent),
    .world (.object 0 .child), .world (.object 0 .parent), .world (.object 0 (.execvp none)),
    .world (.object 0 .parent)]

/-- The command of the first process has started another one, and the child of the second is still in
the group of the manager: the two of the first are killed. -/
theorem kill_tree_own_group_two : ∃ ts g, Run step (init 100) ts g ∧
    (∀ t ∈ ts, t.before.OwnGroup t.action t.after) ∧ g.world.alive = true ∧ g.descendants = [] ∧
    (g.world.objects[0]?.any fun o => o.child.any (·.phase = .ended sigkilled)) = true ∧
    (g.world.objects[1]?.any fun o => o.child.any fun c => c.running ∧ c.pgid = 100) = true := by
  obtain ⟨ts, g, run, test⟩ := run_of_trace_any step (init 100)
    (executeOne ++ [.spawns 0, .world (.construct ["sleep"] true), .world (.object 1 (.prepare true (.child 6))),
      .killTree 0, .tree 0 [] none, .tree 0 [] none, .tree 0 [] none])
    (fun ts => (ts.all fun t => t.action.spares &&
        t.before.world.objects.all fun o => o.child.all (·.phase ≠ .reaped)) &&
      ts.getLast?.any fun t => t.after.world.alive = true ∧ t.after.descendants = [] ∧
        (t.after.world.objects[0]?.any fun o => o.child.any (·.phase = .ended sigkilled)) = true ∧
        (t.after.world.objects[1]?.any fun o => o.child.any fun c => c.running ∧ c.pgid = 100) = true) rfl
  obtain ⟨each, last⟩ := Bool.and_eq_true_iff.mp test
  obtain ⟨t, atEnd, ends⟩ := (Option.any_eq_true _ _).mp last
  cases run.after_getLast atEnd
  have spared : ∀ t ∈ ts, ¬ t.before.KilledFirst t.action := by
    intro t member
    have spares := (Bool.and_eq_true_iff.mp (List.all_eq_true.mp each t member)).1
    exact not_killedFirst (by rw [spares]; rfl)
  refine ⟨ts, t.after, run, (kill_tree_own_group run spared).2 fun t member => ?_, of_decide_eq_true ends⟩
  rintro ⟨_, _, _, call, o, _, _, _, _, atI, c, atChild, reaped⟩
  have unreaped := (Bool.and_eq_true_iff.mp (List.all_eq_true.mp each t member)).2
  have here := List.all_eq_true.mp unreaped o (List.mem_of_getElem? atI)
  simp [atChild, reaped] at here

/-- A call for the first process, which has ended, has passed the test when another thread reaps the child;
the kernel gives the pid to the child of a second object, which is still in the group of the manager,
and the call signals that group. -/
theorem kill_tree_signals_manager : ∃ ts g, Run step (init 100) ts g ∧
    (∀ t ∈ ts, ¬ t.before.KilledFirst t.action) ∧ ∃ t ∈ ts, t.action = .tree 0 [] none ∧
      t.before.calls = [⟨0, true, .killing 100⟩] ∧ t.before.world.pgid = 100 ∧
      t.before.world.alive = true ∧ t.after.world.alive = false := by
  obtain ⟨ts, g, run, test⟩ := run_of_trace_any step (init 100)
    (executeOne ++ [.world (.object 0 .wait), .world (.object 0 (.childEnds 0)), .killTree 0, .tree 0 [] none,
      .world (.object 0 .waitpid), .world (.construct ["sleep"] true),
      .world (.object 1 (.prepare true (.child 5))), .tree 0 [] none, .tree 0 [] none])
    (fun ts => (ts.all fun t => t.action.spares || t.before.noneFirst) &&
      ts.any fun t => t.action = .tree 0 [] none ∧ t.before.calls = [⟨0, true, .killing 100⟩] ∧
        t.before.world.pgid = 100 ∧ t.before.world.alive = true ∧ t.after.world.alive = false) rfl
  obtain ⟨each, some⟩ := Bool.and_eq_true_iff.mp test
  obtain ⟨t, member, here⟩ := List.any_eq_true.mp some
  exact ⟨ts, g, run, fun t member => not_killedFirst (List.all_eq_true.mp each t member), t, member,
    of_decide_eq_true here⟩

end GroupWorld

end Aser
