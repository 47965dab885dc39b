import Aser.ExecMonitor.CpuHopperRounds
import Aser.Library.Run

namespace Aser

open Library

namespace CpuHopper

/-- The calls that change a `cpu_hopper`. -/
inductive Call
  | addProcess (pid : Pid)
  | hopProcesses

/-- What a call leaves behind, be it by an exception. -/
def call (osBind : Nat → Option String) (h : CpuHopper) : Call → Option CpuHopper
  | .addProcess pid => some (h.addProcess osBind pid).2
  | .hopProcesses => some (h.hopProcesses osBind).2

/-- The processes for which `add_process` was called, whether or not it threw. -/
def offered (ts : List (Transition CpuHopper Call)) : List Pid :=
  ts.filterMap fun t => match t.action with
    | .addProcess pid => some pid
    | .hopProcesses => none

/-- A call of `add_process` that throws leaves both stores alone and binds nothing; so a free CPU is
still free, and a round that would have worked still works. -/
def AddsOrKeeps (osBind : Nat → Option String) (h : CpuHopper) (pid : Pid) : Prop :=
  ∀ e h', h.addProcess osBind pid = (.error e, h') →
    h'.cpuMapping = h.cpuMapping ∧ h'.allocatedCpus = h.allocatedCpus ∧ h'.bindCalls = h.bindCalls ∧
      (false ∈ h.allocatedCpus → false ∈ h'.allocatedCpus) ∧
      ((h.hopProcesses osBind).1 = .ok () → (h'.hopProcesses osBind).1 = .ok ())

/-- There is a process on every CPU. -/
structure Full (n : Nat) (h : CpuHopper) : Prop where
  size : h.cpuMapping.size = n
  cpus : h.allocatedCpus.length = n
  taken : false ∉ h.allocatedCpus

variable {n : Nat} {osBind : Nat → Option String} {h h' : CpuHopper} {hole : Nat} {pid : Pid}

theorem Full.findAvailableCpu (full : Full n h) :
    h.findAvailableCpu = .error (.runtimeError "No available CPUs") := by
  have none : h.allocatedCpus.findIdx? (· == false) = none := by
    rw [List.findIdx?_eq_none_iff]
    intro flag member
    cases flag with
    | false => exact absurd member full.taken
    | true => rfl
  rw [CpuHopper.findAvailableCpu, none]

theorem Full.addProcess (full : Full n h) (pid : Pid) :
    h.addProcess osBind pid = (.error (.runtimeError "No available CPUs"), h) := by
  rw [CpuHopper.addProcess, full.findAvailableCpu]

/-- Then nothing moves any more: the first process of a round finds no CPU to hop to. -/
theorem Full.hopProcesses (full : Full n h) : h.hopProcesses osBind =
    (if n = 0 then .ok () else .error (.runtimeError "No available CPUs"), h) := by
  rw [← full.size, ← OrderedMap.size_keys]
  cases keys : h.cpuMapping.keys with
  | nil => rw [CpuHopper.hopProcesses, keys, hopFrom, List.length_nil, if_pos rfl]
  | cons first rest =>
    obtain ⟨cpu, found⟩ := OrderedMap.mem_keys.mp (keys ▸ List.mem_cons_self (a := first) (l := rest))
    rw [CpuHopper.hopProcesses, keys]
    simp only [hopFrom, found, CpuHopper.hopProcess, full.findAvailableCpu, List.length_cons, Nat.succ_ne_zero, if_false]

theorem Full.call {a : Call} (full : Full n h) (taken : h.call osBind a = some h') : h' = h := by
  cases a with
  | addProcess pid =>
    simp only [CpuHopper.call, full.addProcess, Option.some.injEq] at taken
    exact taken.symm
  | hopProcesses =>
    simp only [CpuHopper.call, full.hopProcesses, Option.some.injEq] at taken
    exact taken.symm

theorem init_full : Full 0 (init 0) where
  size := rfl
  cpus := rfl
  taken := by simp [init]

/-- The process that would take the last CPU is bound to it before the check that throws. -/
theorem Carousel.addProcess_eq (c : Carousel n h hole) (new : pid ∉ h.cpuMapping.keys) :
    h.addProcess osBind pid =
      (if h.cpuMapping.size + 1 = n then .error (.runtimeError "Too many processes") else .ok (),
        h.bindProcess osBind pid hole) := by
  have size := OrderedMap.size_insert_of_new (v := hole) new
  have length : (h.allocatedCpus.set hole true).length = n := by simpa using c.cpus
  simp only [CpuHopper.addProcess, c.findAvailableCpu, bindProcess, length, size]
  split <;> rfl

theorem Carousel.overflow (c : Carousel n h hole) (new : pid ∉ h.cpuMapping.keys)
    (last : h.cpuMapping.size + 1 = n) : Full n (h.bindProcess osBind pid hole) where
  size := (OrderedMap.size_insert_of_new new).trans last
  cpus := by simpa [bindProcess] using c.cpus
  taken := by
    have marks : Marks (h.allocatedCpus.set hole true) (hole :: h.cpuMapping.values) :=
      c.marks.set_true (fun _ => List.mem_cons)
    change false ∉ h.allocatedCpus.set hole true
    intro member
    obtain ⟨cpu, within, clear⟩ := List.getElem_of_mem member
    have bound : cpu ≤ h.cpuMapping.size := by
      have cpus := c.cpus
      rw [List.length_set] at within
      omega
    rw [(marks cpu within).mpr (List.mem_cons.mpr ((c.mem_ring cpu).mpr bound))] at clear
    cases clear

/-- The call does not add a process while exactly one CPU is left. -/
def LeavesRoom (h : CpuHopper) : Call → Prop
  | .addProcess _ => h.cpuMapping.size + 1 ≠ h.allocatedCpus.length
  | .hopProcesses => True

instance (h : CpuHopper) : (a : Call) → Decidable (h.LeavesRoom a)
  | .addProcess _ => inferInstanceAs (Decidable (_ ≠ _))
  | .hopProcesses => isTrue trivial

theorem Carousel.call {a : Call} (c : Carousel n h hole)
    (new : ∀ pid, a = .addProcess pid → pid ∉ h.cpuMapping.keys) (taken : h.call osBind a = some h') :
    (∀ p ∈ h'.cpuMapping.keys, p ∈ h.cpuMapping.keys ∨ a = .addProcess p) ∧
      (h.LeavesRoom a ∧ (∃ hole', Carousel n h' hole') ∨ ¬ h.LeavesRoom a ∧ Full n h') := by
  cases a with
  | hopProcesses =>
    obtain ⟨h₁, hole', run, c', keys, _⟩ := c.hopProcesses osBind
    simp only [CpuHopper.call, run, Option.some.injEq] at taken
    subst taken
    exact ⟨fun p member => .inl (keys ▸ member), .inl ⟨trivial, hole', c'⟩⟩
  | addProcess pid =>
    have fresh := new pid rfl
    have added : h.addProcess osBind pid = _ := c.addProcess_eq fresh
    have after : h' = h.bindProcess osBind pid hole := by
      simpa only [CpuHopper.call, added, Option.some.injEq, eq_comm] using taken
    refine ⟨fun p member => ?_, ?_⟩
    · rw [after] at member
      rcases OrderedMap.mem_keys_insert.mp member with same | old
      · exact .inr (by rw [same])
      · exact .inl old
    · by_cases last : h.cpuMapping.size + 1 = n
      · exact .inr ⟨fun room => room (last.trans c.cpus.symm), after ▸ c.overflow fresh last⟩
      · rw [if_neg last, ← after] at added
        exact .inl ⟨fun full => last (full.trans c.cpus), _, (c.addProcess osBind fresh added).1⟩

/-- Whatever is called, and whatever that throws: either the carousel turns, or all CPUs are taken.
It turns as long as no call takes the last CPU. -/
theorem reached {ts : List (Transition CpuHopper Call)} (run : Run (call osBind) (init n) ts h)
    (distinct : (offered ts).Nodup) :
    (∀ p ∈ h.cpuMapping.keys, p ∈ offered ts) ∧ (Full n h ∨ ∃ hole, Carousel n h hole) ∧
      ((∀ t ∈ ts, t.before.LeavesRoom t.action) → 0 < n → ∃ hole, Carousel n h hole) := by
  induction run with
  | start =>
    refine ⟨by simp [init, OrderedMap.keys, OrderedMap.empty], ?_, fun _ positive => ⟨0, init_carousel positive⟩⟩
    rcases Nat.eq_zero_or_pos n with rfl | positive
    · exact .inl init_full
    · exact .inr ⟨0, init_carousel positive⟩
  | @next ts h a h' _ taken ih =>
    have more : offered (ts ++ [⟨h, a, h'⟩]) = offered ts ++ offered [⟨h, a, h'⟩] := List.filterMap_append
    rw [more, List.nodup_append] at distinct
    obtain ⟨known, shape, roomy⟩ := ih distinct.1
    have offers (p : Pid) (adds : a = .addProcess p) : p ∈ offered [⟨h, a, h'⟩] := by
      simp [offered, adds]
    have new (pid : Pid) (adds : a = .addProcess pid) : pid ∉ h.cpuMapping.keys := by
      intro member
      exact distinct.2.2 pid (known pid member) pid (offers pid adds) rfl
    rw [more]
    rcases shape with full | ⟨hole, c⟩
    · obtain rfl := full.call taken
      refine ⟨fun p member => List.mem_append_left _ (known p member), .inl full, fun room positive => ?_⟩
      exact roomy (fun t member => room t (List.mem_append_left _ member)) positive
    · obtain ⟨keys, moved⟩ := c.call new taken
      refine ⟨fun p member => ?_, ?_, fun room _ => ?_⟩
      · rcases keys p member with old | adds
        · exact List.mem_append_left _ (known p old)
        · exact List.mem_append_right _ (offers p adds)
      · rcases moved with ⟨_, turns⟩ | ⟨_, full⟩
        · exact .inr turns
        · exact .inl full
      · have here := room ⟨h, a, h'⟩ (List.mem_append_right _ (List.mem_singleton_self _))
        rcases moved with ⟨_, turns⟩ | ⟨noRoom, _⟩
        · exact turns
        · exact absurd here noRoom

theorem Full.addsOrKeeps (full : Full n h) (pid : Pid) : h.AddsOrKeeps osBind pid := by
  intro e h' thrown
  rw [full.addProcess] at thrown
  obtain ⟨_, rfl⟩ := Prod.mk.inj thrown
  exact ⟨rfl, rfl, rfl, id, id⟩

theorem Carousel.addsOrKeeps_iff (c : Carousel n h hole) (new : pid ∉ h.cpuMapping.keys) :
    h.AddsOrKeeps osBind pid ↔ h.cpuMapping.size + 1 ≠ n := by
  have added : h.addProcess osBind pid = _ := c.addProcess_eq new
  constructor
  · intro keeps last
    rw [if_pos last] at added
    have same := congrArg OrderedMap.size (keeps _ _ added).1
    have grown : (h.bindProcess osBind pid hole).cpuMapping.size = h.cpuMapping.size + 1 :=
      OrderedMap.size_insert_of_new new
    omega
  · intro room e h' thrown
    rw [if_neg room, thrown] at added
    cases (Prod.mk.inj added).1

/-- For every process that was not added before: a call that throws leaves everything as it was if and
only if it is not the one for the last CPU. As long as there is no such call, a CPU stays free and
every round works. -/
theorem adds_or_keeps_iff {ts : List (Transition CpuHopper Call)} (run : Run (call osBind) (init n) ts h)
    (distinct : (offered ts).Nodup) (new : pid ∉ offered ts) :
    (h.AddsOrKeeps osBind pid ↔ h.cpuMapping.size + 1 ≠ h.allocatedCpus.length) ∧
      ((∀ t ∈ ts, t.before.LeavesRoom t.action) →
        (0 < n → false ∈ h.allocatedCpus) ∧ (h.hopProcesses osBind).1 = .ok ()) := by
  obtain ⟨known, shape, roomy⟩ := reached run distinct
  constructor
  · rcases shape with full | ⟨hole, c⟩
    · refine iff_of_true (full.addsOrKeeps pid) ?_
      rw [full.size, full.cpus]
      omega
    · rw [c.addsOrKeeps_iff (fun member => new (known pid member)), c.cpus]
  · intro room
    rcases Nat.eq_zero_or_pos n with rfl | positive
    · refine ⟨fun positive => absurd positive (Nat.lt_irrefl 0), ?_⟩
      rcases shape with full | ⟨hole, c⟩
      · rw [full.hopProcesses, if_pos rfl]
      · exact absurd c.spare (Nat.not_lt_zero _)
    · obtain ⟨hole, c⟩ := roomy room positive
      obtain ⟨h', hole', hopped, _⟩ := c.hopProcesses osBind
      refine ⟨fun _ => List.mem_of_getElem? ((c.free_iff c.hole_le).mpr rfl), ?_⟩
      rw [hopped]

/-- A second process on three CPUs. -/
theorem adds_or_keeps_iff_two : ∃ ts h, Run (call fun _ => none) (init 3) ts h ∧ offered ts = [7] ∧
    h.cpuMapping.size = 1 ∧ h.AddsOrKeeps (fun _ => none) 4 ∧ false ∈ h.allocatedCpus := by
  have run : Run (call fun _ => none) (init 3) _ _ :=
    .next (.next .start (a := .addProcess 7) rfl) (a := .hopProcesses) rfl
  obtain ⟨exact, room⟩ := adds_or_keeps_iff run (by decide) (show 4 ∉ _ by decide)
  exact ⟨_, _, run, rfl, rfl, exact.mpr (by decide), (room (by decide)).1 (by decide)⟩

/-- The second process on two CPUs: it is turned away, but stays on the last CPU, and no process can
hop any more. -/
theorem turned_away_but_bound : ∃ ts h h', Run (call fun _ => none) (init 2) ts h ∧ offered ts = [7] ∧
    h.addProcess (fun _ => none) 4 = (.error (.runtimeError "Too many processes"), h') ∧
    h.allocatedCpus = [true, false] ∧ h'.allocatedCpus = [true, true] ∧
    h'.cpuMapping.find? 4 = some 1 ∧ h'.bindCalls = [(7, 0), (4, 1)] ∧
    (h.hopProcesses fun _ => none).1 = .ok () ∧
    (h'.hopProcesses fun _ => none).1 = .error (.runtimeError "No available CPUs") ∧
    ¬ h.AddsOrKeeps (fun _ => none) 4 := by
  have run : Run (call fun _ => none) (init 2) _ _ := .next .start (a := .addProcess 7) rfl
  refine ⟨_, _, _, run, rfl, rfl, rfl, rfl, rfl, rfl, rfl, rfl, fun keeps => ?_⟩
  obtain ⟨_, flags, _⟩ := keeps _ _ rfl
  revert flags
  decide

end CpuHopper

end Aser
