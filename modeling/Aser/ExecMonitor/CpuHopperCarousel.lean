import Aser.ExecMonitor.CpuHopper
import Aser.Library.Carousel

namespace Aser

open Library

namespace CpuHopper

/-- Only the flags of the CPUs in `used` are set. -/
def Marks (flags : List Bool) (used : List Nat) : Prop :=
  ∀ cpu (within : cpu < flags.length), flags[cpu] = true ↔ cpu ∈ used

theorem Marks.set {flags : List Bool} {used used' : List Nat} {cpu : Nat} {flag : Bool}
    (marks : Marks flags used) (same : ∀ c, c ∈ used' ↔ if cpu = c then flag = true else c ∈ used) :
    Marks (flags.set cpu flag) used' := by
  intro c within
  rw [List.length_set] at within
  rw [List.getElem_set, same]
  by_cases here : cpu = c
  · simp only [here, if_true]
  · rw [if_neg here, if_neg here, marks c within]

theorem Marks.set_true {flags : List Bool} {used used' : List Nat} {cpu : Nat}
    (marks : Marks flags used) (same : ∀ c, c ∈ used' ↔ c = cpu ∨ c ∈ used) :
    Marks (flags.set cpu true) used' := by
  refine marks.set fun c => ?_
  rw [same]
  by_cases here : cpu = c
  · simp [here]
  · simp [here, Ne.symm here]

theorem Marks.set_false {flags : List Bool} {used used' : List Nat} {cpu : Nat}
    (marks : Marks flags used) (same : ∀ c, c ∈ used' ↔ c ≠ cpu ∧ c ∈ used) :
    Marks (flags.set cpu false) used' := by
  refine marks.set fun c => ?_
  rw [same]
  by_cases here : cpu = c
  · simp [here]
  · simp [here, Ne.symm here]

/-- The stronger invariant the policy rests on. With `k` processes the CPUs `0 .. k` are all in
use but one, `hole`; further CPUs have never been used. -/
structure Carousel (n : Nat) (h : CpuHopper) (hole : Nat) : Prop where
  spare : h.cpuMapping.size < n
  cpus : h.allocatedCpus.length = n
  ring : (hole :: h.cpuMapping.values).Perm (List.range (h.cpuMapping.size + 1))
  marks : Marks h.allocatedCpus h.cpuMapping.values
  calls : ∀ call ∈ h.bindCalls, call.2 ≤ h.cpuMapping.size

namespace Carousel

variable {n : Nat} {h : CpuHopper} {hole : Nat}

theorem mem_ring (c : Carousel n h hole) (cpu : Nat) :
    cpu = hole ∨ cpu ∈ h.cpuMapping.values ↔ cpu ≤ h.cpuMapping.size := by
  rw [← List.mem_cons, c.ring.mem_iff, List.mem_range, Nat.lt_succ_iff]

theorem nodup (c : Carousel n h hole) : (hole :: h.cpuMapping.values).Nodup :=
  c.ring.nodup_iff.mpr List.nodup_range

theorem hole_le (c : Carousel n h hole) : hole ≤ h.cpuMapping.size :=
  (c.mem_ring hole).mp (Or.inl rfl)

theorem value_le (c : Carousel n h hole) {cpu : Nat} (member : cpu ∈ h.cpuMapping.values) :
    cpu ≤ h.cpuMapping.size :=
  (c.mem_ring cpu).mp (Or.inr member)

theorem allocated_iff (c : Carousel n h hole) (cpu : Nat) :
    h.allocatedCpus[cpu]? = some true ↔ cpu ∈ h.cpuMapping.values := by
  rw [List.getElem?_eq_some_iff]
  constructor
  · intro marked
    obtain ⟨within, set⟩ := marked
    exact (c.marks cpu within).mp set
  · intro member
    have within : cpu < h.allocatedCpus.length := by
      have upper := c.value_le member
      have spare := c.spare
      have cpus := c.cpus
      omega
    exact ⟨within, (c.marks cpu within).mpr member⟩

theorem free_iff (c : Carousel n h hole) {cpu : Nat} (within : cpu ≤ h.cpuMapping.size) :
    h.allocatedCpus[cpu]? = some false ↔ cpu = hole := by
  have inside : cpu < h.allocatedCpus.length := by
    have spare := c.spare
    have cpus := c.cpus
    omega
  have member := (c.mem_ring cpu).mpr within
  have fresh := (List.nodup_cons.mp c.nodup).1
  rw [List.getElem?_eq_getElem inside, Option.some.injEq, ← Bool.not_eq_true, c.marks cpu inside]
  refine ⟨fun free => member.resolve_right free, ?_⟩
  intro same
  subst same
  exact fresh

/-- The first free CPU is the hole: everything below it is in use. -/
theorem findAvailableCpu (c : Carousel n h hole) : h.findAvailableCpu = .ok hole := by
  have free := (c.free_iff c.hole_le).mpr rfl
  obtain ⟨within, clear⟩ := List.getElem?_eq_some_iff.mp free
  have first : h.allocatedCpus.findIdx? (· == false) = some hole := by
    rw [List.findIdx?_eq_some_iff_getElem]
    refine ⟨within, by simp [clear], ?_⟩
    intro cpu below
    have used := ((c.mem_ring cpu).mpr (below.le.trans c.hole_le)).resolve_left below.ne
    simp [(c.marks cpu (by omega)).mpr used]
  simp only [CpuHopper.findAvailableCpu, first]

/-- The flags are a function of the mapping. -/
theorem allocatedCpus_eq {h' : CpuHopper} {hole' : Nat} (c : Carousel n h hole)
    (c' : Carousel n h' hole') (same : h'.cpuMapping.values = h.cpuMapping.values) :
    h'.allocatedCpus = h.allocatedCpus := by
  apply List.ext_getElem (c'.cpus.trans c.cpus.symm)
  intro cpu within' within
  rw [Bool.eq_iff_iff, c'.marks cpu within', c.marks cpu within, same]

end Carousel

theorem init_carousel {n : Nat} (positive : 0 < n) : Carousel n (init n) 0 where
  spare := positive
  cpus := List.length_replicate
  ring := .refl _
  marks := by
    intro cpu within
    simp [init, OrderedMap.values, OrderedMap.empty]
  calls := by simp [init]

variable {n : Nat} (osBind : Nat → Option String) {h : CpuHopper} {hole : Nat}

/-- One hop: the process takes the hole and leaves its own CPU as the new hole. -/
theorem Carousel.hopProcess (c : Carousel n h hole) {pid : Pid} {cpu : Nat}
    {before after : List (Pid × Nat)} (here : h.cpuMapping.entries = before ++ (pid, cpu) :: after) :
    ∃ h', h.hopProcess osBind pid cpu = (.ok (), h') ∧ Carousel n h' cpu ∧
      h'.cpuMapping.entries = before ++ (pid, hole) :: after := by
  have sorted := h.cpuMapping.sorted
  rw [here] at sorted
  have entries : (h.cpuMapping.insert pid hole).entries = before ++ (pid, hole) :: after := by
    simp only [OrderedMap.insert, here, insertEntry_overwrite sorted]
  have size : (h.cpuMapping.insert pid hole).size = h.cpuMapping.size := by
    simp only [OrderedMap.size, entries, here, List.length_append, List.length_cons]
  have values : (h.cpuMapping.insert pid hole).values =
      before.map Prod.snd ++ hole :: after.map Prod.snd := by
    simp [OrderedMap.values, entries]
  have oldValues : h.cpuMapping.values = before.map Prod.snd ++ cpu :: after.map Prod.snd := by
    simp [OrderedMap.values, here]
  have distinct := c.nodup
  rw [oldValues] at distinct
  refine ⟨_, by simp only [CpuHopper.hopProcess, c.findAvailableCpu]; rfl, ⟨?_, ?_, ?_, ?_, ?_⟩, entries⟩
  · change (h.cpuMapping.insert pid hole).size < n
    rw [size]
    exact c.spare
  · simpa [bindProcess] using c.cpus
  · have swapped : (cpu :: (before.map Prod.snd ++ hole :: after.map Prod.snd)).Perm
        (hole :: (before.map Prod.snd ++ cpu :: after.map Prod.snd)) := by
      refine (List.perm_middle.cons cpu).trans ((List.Perm.swap _ _ _).trans ?_)
      exact List.perm_middle.symm.cons hole
    change (cpu :: (h.cpuMapping.insert pid hole).values).Perm
      (List.range ((h.cpuMapping.insert pid hole).size + 1))
    rw [values, size]
    exact swapped.trans (oldValues ▸ c.ring)
  · change Marks ((h.allocatedCpus.set hole true).set cpu false) (h.cpuMapping.insert pid hole).values
    have bound : Marks (h.allocatedCpus.set hole true) (hole :: h.cpuMapping.values) :=
      c.marks.set_true (fun _ => List.mem_cons)
    refine bound.set_false (fun x => ?_)
    rw [values, oldValues]
    simp only [List.nodup_cons, List.mem_append, List.mem_cons, List.nodup_append] at distinct ⊢
    grind
  · intro call member
    change call.2 ≤ (h.cpuMapping.insert pid hole).size
    rw [size]
    rcases List.mem_append.mp member with old | new
    · exact c.calls call old
    · cases List.mem_singleton.mp new
      exact c.hole_le

/-- The loop of a round. The processes still to be visited shift by one place into the hole, and
what falls out at the end is the new hole. -/
theorem Carousel.hopFrom {visited todo : List (Pid × Nat)} (c : Carousel n h hole)
    (split : h.cpuMapping.entries = visited ++ todo) :
    ∃ h' hole' moved, h.hopFrom osBind (todo.map Prod.fst) = (.ok (), h') ∧ Carousel n h' hole' ∧
      h'.cpuMapping.entries = visited ++ moved ∧ moved.map Prod.fst = todo.map Prod.fst ∧
      moved.map Prod.snd ++ [hole'] = hole :: todo.map Prod.snd := by
  induction todo generalizing h hole visited with
  | nil => exact ⟨h, hole, [], rfl, c, split, rfl, rfl⟩
  | cons e rest ih =>
    obtain ⟨pid, cpu⟩ := e
    obtain ⟨h₁, hopped, c₁, entries⟩ := c.hopProcess osBind split
    have found : h.cpuMapping.find? pid = some cpu := by
      rw [OrderedMap.find?_eq_some, split]
      simp
    have split₁ : h₁.cpuMapping.entries = (visited ++ [(pid, hole)]) ++ rest := by simp [entries]
    obtain ⟨h', hole', moved, run, c', final, keys, shifted⟩ := ih c₁ split₁
    refine ⟨h', hole', (pid, hole) :: moved, ?_, c', by simp [final], by simp [keys], by simp [shifted]⟩
    simp only [List.map_cons, CpuHopper.hopFrom, found, hopped]
    exact run

/-- A round of `hop_processes` is one turn of the carousel. -/
theorem Carousel.hopProcesses (c : Carousel n h hole) :
    ∃ h' hole', h.hopProcesses osBind = (.ok (), h') ∧ Carousel n h' hole' ∧
      h'.cpuMapping.keys = h.cpuMapping.keys ∧
      hole' :: h'.cpuMapping.values = turn (hole :: h.cpuMapping.values) := by
  obtain ⟨h', hole', moved, run, c', entries, keys, shifted⟩ :=
    c.hopFrom osBind (List.nil_append h.cpuMapping.entries).symm
  refine ⟨h', hole', run, c', by simp [OrderedMap.keys, entries, keys], ?_⟩
  have after : h'.cpuMapping.values = moved.map Prod.snd := by simp [OrderedMap.values, entries]
  have before : h.cpuMapping.values = h.cpuMapping.entries.map Prod.snd := rfl
  rw [after, before, ← shifted, turn_append_singleton]

/-- A call of `add_process` that returns puts the new process into the hole and opens the CPU
after the last one used, which exists because one CPU had to be left over. -/
theorem Carousel.addProcess {pid : Pid} {h' : CpuHopper} (c : Carousel n h hole)
    (new : pid ∉ h.cpuMapping.keys) (added : h.addProcess osBind pid = (.ok (), h')) :
    Carousel n h' (h.cpuMapping.size + 1) ∧
      ∀ p, p ∈ h'.cpuMapping.keys ↔ p = pid ∨ p ∈ h.cpuMapping.keys := by
  have size := OrderedMap.size_insert_of_new (v := hole) new
  have values : (h.cpuMapping.insert pid hole).values.Perm (hole :: h.cpuMapping.values) :=
    (insertEntry_perm_of_new new).map Prod.snd
  have length : (h.allocatedCpus.set hole true).length = n := by simpa using c.cpus
  simp only [CpuHopper.addProcess, c.findAvailableCpu, bindProcess, length, size] at added
  split at added
  · simp at added
  · rename_i room
    cases added
    refine ⟨⟨?_, length, ?_, ?_, ?_⟩, fun p => OrderedMap.mem_keys_insert⟩
    · have spare := c.spare
      simp only [size]
      omega
    · simp only [size]
      rw [List.range_succ]
      exact ((values.trans c.ring).cons _).trans (List.perm_append_singleton _ _).symm
    · exact c.marks.set_true (fun cpu => by rw [values.mem_iff, List.mem_cons])
    · intro call member
      simp only [size]
      rcases List.mem_append.mp member with old | only
      · exact (c.calls call old).trans (Nat.le_succ _)
      · cases List.mem_singleton.mp only
        exact c.hole_le.trans (Nat.le_succ _)

end CpuHopper

end Aser
