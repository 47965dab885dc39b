import Aser.Perf.EventScale

namespace Aser.Perf

open Library

/-- What the kernel promises of a reading after `last`: the counters do not decrease, the event ran for
no longer than it was enabled, and counted only if it ran. -/
def Counts.Follows (count last : Counts) : Prop := last.GrowsTo count ∧ count.Consistent last

instance (count last : Counts) : Decidable (count.Follows last) := inferInstanceAs (Decidable (_ ∧ _))

theorem Counts.Follows.refl (count : Counts) : count.Follows count :=
  ⟨growsTo_refl count, by simp [Consistent]⟩

theorem Counts.Follows.trans {a b c : Counts} (second : c.Follows b) (first : b.Follows a) : c.Follows a := by
  obtain ⟨⟨raw, enabled, running⟩, time, value⟩ := first
  obtain ⟨⟨raw', enabled', running'⟩, time', value'⟩ := second
  refine ⟨GrowsTo.trans ⟨raw, enabled, running⟩ ⟨raw', enabled', running'⟩, ?_, ?_⟩
  · rw [UInt64.le_iff_toNat_le] at enabled running enabled' running'
    omega
  · intro still
    have between : b.timeRunning = a.timeRunning := UInt64.le_antisymm (still ▸ running') running
    rw [value' (still.trans between.symm), value between]

/-- The value that the scaling of a sample gives back; nothing for one that is no fraction. -/
def EventSample.scaled (sample : EventSample) : ℚ :=
  match sample.value, sample.scaling with
  | .finite value, .finite scaling => value * scaling
  | _, _ => 0

theorem EventSample.Represents.scaled {sample : EventSample} {raw : ℚ} (represents : sample.Represents raw) :
    sample.scaled = raw := by
  obtain ⟨value, scaling, isValue, isScaling, _, _, product⟩ := represents
  rw [EventSample.scaled, isValue, isScaling, ← product]

/-- An aggregated span is the interval from zero on. -/
theorem span_zero (count prev : Counts) : count.span .zero .relative = count.span prev .aggregated := by
  simp [Counts.span, Counts.zero]

theorem sample_enabled_iff {count base : Counts} (follows : count.Follows base) :
    (count.span base .relative).sample.enabled = true ↔ base.timeEnabled < count.timeEnabled := by
  obtain ⟨⟨_, enabled, running⟩, time, _⟩ := follows
  have span : (count.timeEnabled - base.timeEnabled).toNat = count.timeEnabled.toNat - base.timeEnabled.toNat :=
    UInt64.toNat_sub_of_le _ _ enabled
  have ran : (count.timeRunning - base.timeRunning).toNat = count.timeRunning.toNat - base.timeRunning.toNat :=
    UInt64.toNat_sub_of_le _ _ running
  rw [UInt64.le_iff_toNat_le] at enabled running
  by_cases still : count.timeRunning - base.timeRunning = 0
  · simp only [Counts.sample, Counts.span, if_pos still, decide_eq_true_eq, UInt64.lt_iff_toNat_lt, span, UInt64.toNat_zero]
    omega
  · have moved : (count.timeRunning - base.timeRunning).toNat ≠ 0 := fun same => still (UInt64.toNat_inj.mp same)
    simp only [Counts.sample, Counts.span, if_neg still, true_iff, UInt64.lt_iff_toNat_lt]
    omega

/-- A reading that follows what the kernel gave before passes the guards of `scale`. -/
theorem check_of_follows {count prev : Counts} (follows : count.Follows prev) (start : count.Follows .zero) :
    count.check prev = .ok () := by
  obtain ⟨⟨_, _, running⟩, _, value⟩ := follows
  obtain ⟨_, time, _⟩ := start
  rw [check_ok]
  constructor
  · rw [UInt64.le_iff_toNat_le]
    simpa [Counts.zero] using time
  · intro still
    exact value (UInt64.le_antisymm (still ▸ UInt64.zero_le) running)

namespace ScaledEvent

/-- The samples that the RELATIVE calls returned. -/
def relativeSamples (calls : List ScaleCall) : List EventSample :=
  calls.filterMap fun call => if call.mode = .relative then call.result.toOption else none

/-- A reading follows the one before, the first one follows zero. -/
def KernelContract (s : ScaledEvent) (a : Action) : Prop :=
  match a with
  | .read (.ok count) => count.Follows (s.event.count.getD .zero)
  | _ => True

/-- Where an interval that a call reports begins. -/
def base (s : ScaledEvent) : EventReadMode → Counts
  | .relative => lastReported s.calls
  | .aggregated => .zero

/-- What holds of an event whose readings obey the kernel's contract. -/
structure Telescopes (s : ScaledEvent) : Prop where
  reads : s.Reads
  follows : ∀ {count}, s.event.count = some count → count.Follows s.event.prev ∧ count.Follows .zero
  sum : ((relativeSamples s.calls).map EventSample.scaled).sum = (lastReported s.calls).rawValue.toNat

variable {s s' : ScaledEvent} {a : Action} {mode : EventReadMode}

theorem relativeSamples_append (calls : List ScaleCall) (call : ScaleCall) :
    relativeSamples (calls ++ [call]) =
      relativeSamples calls ++ (if call.mode = .relative then call.result.toOption else none).toList := by
  rw [relativeSamples, List.filterMap_append]
  cases h : (if call.mode = .relative then call.result.toOption else none) with
  | none => simp [relativeSamples, h]
  | some sample => simp [relativeSamples, h]

/-- The readings that the contract is about do not decrease. -/
theorem nondecreasing_of_contract (contract : s.KernelContract a) : s.Nondecreasing a := by
  cases a with
  | read answer =>
    cases answer with
    | error errno => trivial
    | ok count =>
      intro last atLast
      have follows : count.Follows (s.event.count.getD .zero) := contract
      rw [atLast] at follows
      exact follows.1
  | scale mode => trivial

/-- A call on such an event passes the guards; what it adds is its sample, and what it moves the
reference counters. -/
theorem Telescopes.call (h : s.Telescopes) (taken : s.step (.scale mode) = some s') :
    ∃ count, s.event.count = some count ∧ count.Follows (lastReported s.calls) ∧ count.Follows .zero ∧
      s' = { event := s.event.moveReference count mode
             calls := s.calls ++ [⟨mode, count, .ok (count.span (lastReported s.calls) mode).sample⟩] } := by
  obtain ⟨count, atCount, ⟨thrown, rejected, _⟩ | ⟨_, rfl⟩⟩ := scale_cases taken
  · have passed := check_of_follows (h.follows atCount).1 (h.follows atCount).2
    rw [passed] at rejected
    cases rejected
  · have follows := h.follows atCount
    rw [h.reads.prev] at follows
    exact ⟨count, atCount, follows.1, follows.2, by rw [h.reads.prev]⟩

theorem represents_span {count base : Counts} (follows : count.Follows base) :
    (count.span base .relative).sample.Represents (count.rawValue.toNat - base.rawValue.toNat) :=
  ((relative_represents_iff follows.1).mpr follows.2).1

theorem represents_aggregated {count : Counts} (prev : Counts) (start : count.Follows .zero) :
    (count.span prev .aggregated).sample.Represents count.rawValue.toNat := by
  have represents := represents_span start
  rw [span_zero count prev] at represents
  simpa [Counts.zero] using represents

theorem Telescopes.step (h : s.Telescopes) (contract : s.KernelContract a) (taken : s.step a = some s') :
    s'.Telescopes := by
  have reads := h.reads.step (nondecreasing_of_contract contract) taken
  cases a with
  | read answer =>
    cases Option.some.inj taken
    cases answer with
    | error errno => exact ⟨reads, h.follows, h.sum⟩
    | ok count =>
      have follows : count.Follows (s.event.count.getD .zero) := contract
      refine ⟨reads, ?_, h.sum⟩
      intro _ same
      cases same
      show count.Follows s.event.prev ∧ count.Follows .zero
      cases atCount : s.event.count with
      | none =>
        rw [atCount] at follows
        rw [h.reads.unread atCount]
        exact ⟨follows, follows⟩
      | some last =>
        rw [atCount] at follows
        exact ⟨follows.trans (h.follows atCount).1, follows.trans (h.follows atCount).2⟩
  | scale mode =>
    obtain ⟨count, atCount, follows, start, rfl⟩ := h.call taken
    cases mode with
    | aggregated =>
      refine ⟨reads, h.follows, ?_⟩
      rw [relativeSamples_append, lastReported_append]
      simpa using h.sum
    | relative =>
      refine ⟨reads, ?_, ?_⟩
      · intro _ same
        cases atCount.symm.trans same
        exact ⟨.refl count, start⟩
      · rw [relativeSamples_append, lastReported_append]
        -- the new sample makes up for the step from the old reference counters to the new ones
        have added := (represents_span follows).scaled
        simp [Except.toBool, Except.toOption, h.sum, added]

theorem telescopes_init (info : EventInfo) : (init info).Telescopes :=
  ⟨reads_init info, by simp [init], by simp [init, relativeSamples, lastReported, Counts.zero]⟩

/-- The AGGREGATED calls aside, a step depends on the event only. -/
theorem step_of_event {r : ScaledEvent} (same : r.event = s.event)
    (samples : relativeSamples r.calls = relativeSamples s.calls) (taken : s.step a = some s') :
    ∃ r', r.step a = some r' ∧ r'.event = s'.event ∧ relativeSamples r'.calls = relativeSamples s'.calls := by
  cases a with
  | read answer =>
    cases Option.some.inj taken
    exact ⟨_, rfl, by rw [same], samples⟩
  | scale mode =>
    obtain ⟨count, atCount, taken⟩ := Option.bind_eq_some_iff.mp taken
    obtain ⟨both, scaled, rfl⟩ := Option.map_eq_some_iff.mp taken
    refine ⟨{ event := both.2, calls := r.calls ++ [⟨mode, count, both.1⟩] }, ?_, rfl, ?_⟩
    · simp [step, same, atCount, scaled]
    · rw [relativeSamples_append, relativeSamples_append, samples]

theorem aggregated_step (taken : s.step (.scale .aggregated) = some s') :
    s'.event = s.event ∧ relativeSamples s'.calls = relativeSamples s.calls := by
  obtain ⟨count, _, ⟨thrown, _, rfl⟩ | ⟨_, rfl⟩⟩ := scale_cases taken
  · exact ⟨rfl, by simp [relativeSamples_append]⟩
  · exact ⟨rfl, by simp [relativeSamples_append]⟩

/-- Without its AGGREGATED calls a run comes to the same event, with the same RELATIVE samples. -/
theorem without_aggregated {start : ScaledEvent} {ts : List (Transition ScaledEvent Action)}
    (run : Run step start ts s) : ∃ rs r, Run step start rs r ∧
      rs.map Transition.action = (ts.map Transition.action).filter (· ≠ .scale .aggregated) ∧
      r.event = s.event ∧ relativeSamples r.calls = relativeSamples s.calls := by
  induction run with
  | start => exact ⟨[], _, .start, rfl, rfl, rfl⟩
  | @next ts s a s' previous taken ih =>
    obtain ⟨rs, r, run, labels, same, samples⟩ := ih
    by_cases aggregated : a = .scale .aggregated
    · subst aggregated
      obtain ⟨event, relative⟩ := aggregated_step taken
      exact ⟨rs, r, run, by simp [labels], same.trans event.symm, samples.trans relative.symm⟩
    · obtain ⟨r', moved, same', samples'⟩ := step_of_event same samples taken
      exact ⟨_, r', run.next moved, by simp [labels, aggregated], same', samples'⟩

theorem relative_samples_unique {start s₁ s₂ : ScaledEvent} {ts₁ ts₂ : List (Transition ScaledEvent Action)}
    (run₁ : Run step start ts₁ s₁) (run₂ : Run step start ts₂ s₂)
    (same : (ts₁.map Transition.action).filter (· ≠ .scale .aggregated) =
      (ts₂.map Transition.action).filter (· ≠ .scale .aggregated)) :
    relativeSamples s₁.calls = relativeSamples s₂.calls := by
  obtain ⟨rs₁, r₁, run₁, labels₁, _, samples₁⟩ := without_aggregated run₁
  obtain ⟨rs₂, r₂, run₂, labels₂, _, samples₂⟩ := without_aggregated run₂
  have ends := run₁.deterministic run₂ (labels₁.trans (same.trans labels₂.symm))
  rw [← samples₁, ← samples₂, ends]

/-- A call on readings that obey the kernel's contract returns a sample of its interval: no subtraction
wraps, the event is reported enabled if it was, and the value scales to the counts. The RELATIVE
samples add up to the count at the last RELATIVE call, and AGGREGATED calls do not change them. -/
theorem samples_telescope {info : EventInfo} {ts : List (Transition ScaledEvent Action)}
    (run : Run step (init info) ts s) (contract : ∀ t ∈ ts, t.before.KernelContract t.action) :
    (∀ t ∈ ts, ∀ mode, t.action = .scale mode → ∃ count sample, t.before.event.count = some count ∧
      t.after.calls = t.before.calls ++ [⟨mode, count, .ok sample⟩] ∧
      t.before.event.prev.GrowsTo count ∧
      (sample.enabled = true ↔ (t.before.base mode).timeEnabled < count.timeEnabled) ∧
      sample.Represents (count.rawValue.toNat - (t.before.base mode).rawValue.toNat)) ∧
    ((relativeSamples s.calls).map EventSample.scaled).sum = (lastReported s.calls).rawValue.toNat ∧
    ∀ (ts' : List (Transition ScaledEvent Action)) (s' : ScaledEvent), Run step (init info) ts' s' →
      (ts'.map Transition.action).filter (· ≠ .scale .aggregated) =
        (ts.map Transition.action).filter (· ≠ .scale .aggregated) →
      relativeSamples s'.calls = relativeSamples s.calls := by
  have telescopes : ∀ {ts s}, Run step (init info) ts s → (∀ t ∈ ts, t.before.KernelContract t.action) →
      s.Telescopes := fun run contract =>
    run.invariant_of_guard (telescopes_init info) (fun h contract taken => h.step contract taken) contract
  refine ⟨?_, (telescopes run contract).sum, fun ts' s' run' same => relative_samples_unique run' run same⟩
  intro t member mode action
  obtain ⟨taken, earlier, later, split, reached⟩ := run.transition member
  have h := telescopes reached (fun t' member' => contract t' (by simp [split, member']))
  obtain ⟨count, atCount, follows, start, after⟩ := h.call (action ▸ taken)
  refine ⟨count, _, atCount, by rw [after], h.reads.grows atCount, ?_, ?_⟩
  · cases mode with
    | relative => exact sample_enabled_iff follows
    | aggregated =>
      rw [← span_zero]
      exact sample_enabled_iff start
  · cases mode with
    | relative => exact represents_span follows
    | aggregated => simpa [base, Counts.zero] using represents_aggregated _ start

/-- The contract is kept by a transition. -/
def keepsContract (t : Transition ScaledEvent Action) : Bool :=
  match t.action with
  | .read (.ok count) => count.Follows (t.before.event.count.getD .zero)
  | _ => true

/-- An event that does not run in its second interval, and an AGGREGATED call in between. -/
theorem samples_telescope_idle : ∃ ts s, Run step (init ⟨.hardware, 0, 0⟩) ts s ∧
    s.calls.map ScaleCall.mode = [.relative, .relative, .aggregated, .relative] ∧
      ((relativeSamples s.calls).map EventSample.scaled).sum = 16 := by
  obtain ⟨ts, s, run, test⟩ := run_of_trace_any step (init ⟨.hardware, 0, 0⟩)
    [.read (.ok ⟨6, 10, 5⟩), .scale .relative, .read (.ok ⟨6, 20, 5⟩), .scale .relative, .scale .aggregated,
      .read (.error 4), .read (.ok ⟨16, 30, 15⟩), .scale .relative]
    (fun ts => ts.all keepsContract && ts.getLast?.any fun t => t.after.calls.map ScaleCall.mode =
        [.relative, .relative, .aggregated, .relative] ∧ lastReported t.after.calls = ⟨16, 30, 15⟩) (by decide +kernel)
  obtain ⟨keeps, last⟩ := Bool.and_eq_true_iff.mp test
  obtain ⟨t, atLast, known⟩ := (Option.any_eq_true _ _).mp last
  obtain ⟨modes, reported⟩ := of_decide_eq_true known
  rw [run.after_getLast atLast] at modes reported
  refine ⟨ts, s, run, modes, ?_⟩
  have contract : ∀ t ∈ ts, t.before.KernelContract t.action := by
    intro t member
    have kept := List.all_eq_true.mp keeps t member
    cases action : t.action with
    | scale mode => trivial
    | read answer =>
      cases answer with
      | error errno => trivial
      | ok count => simpa [keepsContract, action, KernelContract] using kept
  rw [(samples_telescope run contract).2.1, reported]
  rfl

end ScaledEvent

end Aser.Perf
