import Aser.ExecMonitor.CpuHopperCarousel

namespace Aser

open Library

variable {n : Nat} {osBind : Nat → Option String} {pids : List Pid} {h : CpuHopper} {hole : Nat}

namespace CpuHopper

/-- The state after `r` consecutive rounds of `hop_processes`. -/
def rounds (osBind : Nat → Option String) (r : Nat) (h : CpuHopper) : CpuHopper :=
  (fun h => (h.hopProcesses osBind).2)^[r] h

/-- Consecutive rounds are consecutive turns of the carousel; the processes keep their order. -/
theorem Carousel.rounds (c : Carousel n h hole) (r : Nat) :
    ∃ hole', Carousel n (h.rounds osBind r) hole' ∧
      (h.rounds osBind r).cpuMapping.keys = h.cpuMapping.keys ∧
      hole' :: (h.rounds osBind r).cpuMapping.values = turn^[r] (hole :: h.cpuMapping.values) := by
  induction r with
  | zero => exact ⟨hole, c, rfl, rfl⟩
  | succ r ih =>
    obtain ⟨middle, cr, keys, ring⟩ := ih
    obtain ⟨h', hole', run, c', keys', ring'⟩ := cr.hopProcesses osBind
    have next : h.rounds osBind (r + 1) = h' := by
      simp only [CpuHopper.rounds, Function.iterate_succ_apply']
      exact congrArg Prod.snd run
    rw [next]
    exact ⟨hole', c', keys'.trans keys, by rw [ring', ring, Function.iterate_succ_apply']⟩

/-- A full set of rounds brings every process and every flag back. -/
theorem Carousel.rounds_full (c : Carousel n h hole) :
    (h.rounds osBind (h.cpuMapping.size + 1)).cpuMapping = h.cpuMapping ∧
      (h.rounds osBind (h.cpuMapping.size + 1)).allocatedCpus = h.allocatedCpus := by
  obtain ⟨hole', c', keys, ring⟩ := c.rounds (h.cpuMapping.size + 1)
  have places : h.cpuMapping.size + 1 = (hole :: h.cpuMapping.values).length := by
    simp [OrderedMap.size, OrderedMap.values]
  have back : hole' :: (h.rounds osBind (h.cpuMapping.size + 1)).cpuMapping.values =
      hole :: h.cpuMapping.values := by
    rw [ring, places, turn_iterate_full]
  have values := (List.cons.inj back).2
  exact ⟨OrderedMap.eq_of_keys_values keys values, c.allocatedCpus_eq c' values⟩

/-- During a full set of rounds each process is on each of the CPUs `0 .. k` exactly once. -/
theorem Carousel.rounds_visit (c : Carousel n h hole) {pid : Pid} (known : pid ∈ h.cpuMapping.keys)
    {cpu : Nat} (within : cpu ≤ h.cpuMapping.size) :
    ∃! r, r < h.cpuMapping.size + 1 ∧ (h.rounds osBind r).cpuMapping.find? pid = some cpu := by
  have places : (hole :: h.cpuMapping.values).length = h.cpuMapping.size + 1 := by
    simp [OrderedMap.size, OrderedMap.values]
  obtain ⟨i, bound, atPid⟩ := List.getElem_of_mem known
  rw [OrderedMap.size_keys] at bound
  have position (r : Nat) : (h.rounds osBind r).cpuMapping.find? pid =
      (turn^[r] (hole :: h.cpuMapping.values))[i + 1]? := by
    obtain ⟨hole', _, keys, ring⟩ := c.rounds r
    have sameKey : (h.rounds osBind r).cpuMapping.keys[i]? = some pid := by
      rw [keys, ← atPid]
      exact List.getElem?_eq_getElem _
    rw [OrderedMap.find?_of_getElem? sameKey, ← ring, List.getElem?_cons_succ]
  have rider : cpu ∈ hole :: h.cpuMapping.values :=
    List.mem_cons.mpr ((c.mem_ring cpu).mpr within)
  have once := turn_visits_once c.nodup rider (i := i + 1) (by omega)
  simpa only [places, position] using once

/-- Without processes a round does nothing, so no CPU is needed for it. -/
theorem hopProcesses_init : (init n).hopProcesses osBind = (.ok (), init n) := rfl

theorem Carousel.injective {p q : Pid} {cpu : Nat} (c : Carousel n h hole)
    (atP : h.cpuMapping.find? p = some cpu) (atQ : h.cpuMapping.find? q = some cpu) : p = q := by
  have distinct := (List.nodup_cons.mp c.nodup).2
  have same := List.inj_on_of_nodup_map distinct (OrderedMap.find?_eq_some.mp atP)
    (OrderedMap.find?_eq_some.mp atQ) rfl
  exact (Prod.mk.inj same).1

theorem Carousel.allocated_iff_mapped (c : Carousel n h hole) (cpu : Nat) :
    h.allocatedCpus[cpu]? = some true ↔ ∃ p, h.cpuMapping.find? p = some cpu := by
  rw [c.allocated_iff]
  simp [OrderedMap.values, OrderedMap.find?_eq_some]

/-- In one turn nobody stays where it was. -/
theorem Carousel.hopProcesses_moves {h' : CpuHopper} {hole' : Nat} (c : Carousel n h hole)
    (keys : h'.cpuMapping.keys = h.cpuMapping.keys)
    (ring : hole' :: h'.cpuMapping.values = turn (hole :: h.cpuMapping.values)) {p : Pid} {cpu : Nat}
    (atP : h.cpuMapping.find? p = some cpu) :
    ∃ cpu', h'.cpuMapping.find? p = some cpu' ∧ cpu' ≠ cpu := by
  obtain ⟨i, bound, key⟩ := List.getElem_of_mem (OrderedMap.mem_keys.mpr ⟨cpu, atP⟩)
  have before : (hole :: h.cpuMapping.values)[i + 1]? = some cpu := by
    rw [List.getElem?_cons_succ, ← OrderedMap.find?_of_getElem? (by rw [List.getElem?_eq_getElem bound, key]), atP]
  have places : i + 1 < (hole :: h.cpuMapping.values).length := (List.getElem?_eq_some_iff.mp before).1
  have after : h'.cpuMapping.find? p = (hole :: h.cpuMapping.values)[i]? := by
    have key' : h'.cpuMapping.keys[i]? = some p := by rw [keys, List.getElem?_eq_getElem bound, key]
    rw [OrderedMap.find?_of_getElem? key', ← List.getElem?_cons_succ (a := hole'), ring]
    have moved := turn_iterate_getElem? (r := 1) (by omega) places
    simpa using moved
  obtain ⟨cpu', atSeat⟩ : ∃ cpu', (hole :: h.cpuMapping.values)[i]? = some cpu' :=
    ⟨_, List.getElem?_eq_getElem (by omega)⟩
  refine ⟨cpu', after.trans atSeat, ?_⟩
  intro same
  subst same
  have same := (List.getElem?_inj (by omega) c.nodup).mp (atSeat.trans before.symm)
  omega

end CpuHopper

open CpuHopper

/-- On a machine that reports no CPUs nothing is ever added. -/
theorem HopperReach.no_cpus (reach : HopperReach 0 osBind pids h) : pids = [] ∧ h = init 0 := by
  induction reach with
  | start => exact ⟨rfl, rfl⟩
  | add _ added ih =>
    obtain ⟨_, rfl⟩ := ih
    simp [CpuHopper.addProcess, findAvailableCpu, init] at added
  | hop _ ih =>
    obtain ⟨empty, rfl⟩ := ih
    exact ⟨empty, rfl⟩

theorem HopperReach.carousel (reach : HopperReach n osBind pids h) (distinct : pids.Nodup)
    (positive : 0 < n) : ∃ hole, Carousel n h hole ∧ ∀ p, p ∈ h.cpuMapping.keys ↔ p ∈ pids := by
  induction reach with
  | start => exact ⟨0, init_carousel positive, fun p => Iff.rfl⟩
  | @add pids h h' pid _ added ih =>
    rw [List.nodup_append] at distinct
    obtain ⟨hole, c, known⟩ := ih distinct.1
    have new : pid ∉ h.cpuMapping.keys := by
      intro member
      exact distinct.2.2 pid ((known pid).mp member) pid (List.mem_singleton_self _) rfl
    obtain ⟨c', keys⟩ := c.addProcess osBind new added
    refine ⟨_, c', fun p => ?_⟩
    rw [keys, known, List.mem_append, List.mem_singleton, or_comm]
  | hop _ ih =>
    obtain ⟨hole, c, known⟩ := ih distinct
    obtain ⟨h', hole', run, c', keys, _⟩ := c.hopProcesses osBind
    rw [run]
    exact ⟨hole', c', fun p => by rw [keys, known]⟩

/-- No CPU is shared, the flags say which CPUs are in use, a CPU is left over on every machine
that has one, and therefore a round never fails and moves every process. -/
theorem HopperReach.exclusive_cpus (reach : HopperReach n osBind pids h) (distinct : pids.Nodup) :
    (∀ p, (∃ cpu, h.cpuMapping.find? p = some cpu) ↔ p ∈ pids) ∧
      (∀ p q cpu, h.cpuMapping.find? p = some cpu → h.cpuMapping.find? q = some cpu → p = q) ∧
      h.allocatedCpus.length = n ∧
      (∀ cpu : Nat, h.allocatedCpus[cpu]? = some true ↔ ∃ p, h.cpuMapping.find? p = some cpu) ∧
      (0 < n → ∃ cpu : Nat, h.allocatedCpus[cpu]? = some false) ∧
      ∃ h', h.hopProcesses osBind = (.ok (), h') ∧
        (∀ p, (∃ cpu, h'.cpuMapping.find? p = some cpu) ↔ ∃ cpu, h.cpuMapping.find? p = some cpu) ∧
        ∀ p cpu, h.cpuMapping.find? p = some cpu →
          ∃ cpu', h'.cpuMapping.find? p = some cpu' ∧ cpu' ≠ cpu := by
  rcases Nat.eq_zero_or_pos n with rfl | positive
  · obtain ⟨rfl, rfl⟩ := reach.no_cpus
    refine ⟨by simp [init], by simp [init], rfl, by simp [init], by simp, init 0, hopProcesses_init, ?_⟩
    simp [init]
  · obtain ⟨hole, c, known⟩ := reach.carousel distinct positive
    obtain ⟨h', hole', run, _, keys, ring⟩ := c.hopProcesses osBind
    refine ⟨fun p => by rw [← OrderedMap.mem_keys, known], fun p q cpu => c.injective, c.cpus,
      c.allocated_iff_mapped, fun _ => ⟨hole, (c.free_iff c.hole_le).mpr rfl⟩, h', run, ?_, ?_⟩
    · intro p
      rw [← OrderedMap.mem_keys, ← OrderedMap.mem_keys, keys]
    · exact fun p cpu atP => c.hopProcesses_moves keys ring atP

/-- Two processes on three CPUs, after a round. -/
theorem exclusive_cpus_two_processes :
    ∃ h, HopperReach 3 (fun _ => none) [7, 4] h ∧ ∃ h', h.hopProcesses (fun _ => none) = (.ok (), h') ∧
      ∀ p cpu, h.cpuMapping.find? p = some cpu →
        ∃ cpu', h'.cpuMapping.find? p = some cpu' ∧ cpu' ≠ cpu := by
  have reach : HopperReach 3 (fun _ => none) [7, 4] _ := .hop (.add (.add .start rfl) rfl)
  obtain ⟨_, _, _, _, _, h', run, _, moves⟩ := reach.exclusive_cpus (by decide)
  exact ⟨_, reach, h', run, moves⟩

/-- With `k` processes one CPU of `0 .. k` is free; a round moves each process to the CPU its
predecessor leaves, the first one to the free CPU; `k + 1` rounds bring everything back and put
each process on each of these CPUs once; no CPU after them is ever used. -/
theorem HopperReach.rotates (reach : HopperReach n osBind pids h) (distinct : pids.Nodup)
    (running : 1 ≤ h.cpuMapping.size) :
    (∀ cpu ∈ h.cpuMapping.values, cpu ≤ h.cpuMapping.size) ∧
      (∃ hole ≤ h.cpuMapping.size,
        (∀ cpu ≤ h.cpuMapping.size, h.allocatedCpus[cpu]? = some false ↔ cpu = hole) ∧
        ∃ h' last, h.hopProcesses osBind = (.ok (), h') ∧
          h'.cpuMapping.keys = h.cpuMapping.keys ∧
          h.cpuMapping.values.getLast? = some last ∧
          h'.cpuMapping.values = hole :: h.cpuMapping.values.dropLast ∧
          ∀ cpu ≤ h.cpuMapping.size, h'.allocatedCpus[cpu]? = some false ↔ cpu = last) ∧
      (h.rounds osBind (h.cpuMapping.size + 1)).cpuMapping = h.cpuMapping ∧
      (h.rounds osBind (h.cpuMapping.size + 1)).allocatedCpus = h.allocatedCpus ∧
      (∀ p ∈ h.cpuMapping.keys, ∀ cpu ≤ h.cpuMapping.size,
        ∃! r, r < h.cpuMapping.size + 1 ∧ (h.rounds osBind r).cpuMapping.find? p = some cpu) ∧
      (∀ call ∈ h.bindCalls, call.2 ≤ h.cpuMapping.size) ∧
      ∀ cpu > h.cpuMapping.size, h.allocatedCpus[cpu]? ≠ some true := by
  rcases Nat.eq_zero_or_pos n with rfl | positive
  · obtain ⟨_, rfl⟩ := reach.no_cpus
    simp [init, OrderedMap.size, OrderedMap.empty] at running
  obtain ⟨hole, c, _⟩ := reach.carousel distinct positive
  obtain ⟨h', hole', run, c', keys, ring⟩ := c.hopProcesses osBind
  have length : h.cpuMapping.values.length = h.cpuMapping.size := List.length_map ..
  have size : h'.cpuMapping.size = h.cpuMapping.size := by
    rw [← OrderedMap.size_keys, keys, OrderedMap.size_keys]
  have nonempty : h.cpuMapping.values ≠ [] := List.ne_nil_of_length_pos (by omega)
  have split := List.dropLast_append_getLast nonempty
  rw [← split, ← List.cons_append, turn_append_singleton] at ring
  obtain ⟨rfl, values⟩ := List.cons.inj ring
  refine ⟨fun cpu => c.value_le, ⟨hole, c.hole_le, fun cpu => c.free_iff, h', _, run, keys,
    List.getLast?_eq_some_getLast nonempty, values, fun cpu within => c'.free_iff (size ▸ within)⟩,
    c.rounds_full.1, c.rounds_full.2, fun p known cpu => c.rounds_visit known, c.calls, ?_⟩
  intro cpu beyond used
  have within := c.value_le ((c.allocated_iff cpu).mp used)
  omega

/-- Two processes on three CPUs are back after three rounds. -/
theorem rotates_two_processes :
    ∃ h, HopperReach 3 (fun _ => none) [7, 4] h ∧
      (h.rounds (fun _ => none) 3).cpuMapping = h.cpuMapping := by
  have reach : HopperReach 3 (fun _ => none) [7, 4] _ := .hop (.add (.add .start rfl) rfl)
  obtain ⟨_, _, back, _⟩ := reach.rotates (by decide) (by decide)
  exact ⟨_, reach, back⟩

end Aser
