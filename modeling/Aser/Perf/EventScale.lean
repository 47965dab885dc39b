import Aser.Library.ExtendedNumber
import Aser.Library.Run
import Aser.Perf.Event
import Mathlib.Algebra.Order.Field.Rat
import Mathlib.Tactic.FieldSimp
import Mathlib.Tactic.Positivity

namespace Aser.Perf

open Library

/-- What the code keeps in a `double`, in exact arithmetic. -/
abbrev Double := ExtendedNumber ℚ

/-- `static_cast<double>`. -/
def toDouble (n : UInt64) : Double := .finite n.toNat

/-- `event_read_mode`. -/
inductive EventReadMode
  | relative
  | aggregated
  deriving DecidableEq

structure EventSample where
  value : Double
  scaling : Double
  enabled : Bool
  deriving DecidableEq

namespace Counts

def zero : Counts := ⟨0, 0, 0⟩

/-- The readings that `scale` rejects before it looks at the mode. -/
def check (count prev : Counts) : Except Exception Unit :=
  if count.timeRunning > count.timeEnabled then
    .error (.runtimeError "Event ran for longer than it was enabled")
  else if count.timeRunning = 0 ∧ count.rawValue ≠ prev.rawValue then
    .error (.runtimeError "Unexpected event value")
  else .ok ()

/-- The local `value`, `enabled` and `running` after the switch to the values of an interval. -/
def span (count prev : Counts) : EventReadMode → Counts
  | .relative =>
    ⟨count.rawValue - prev.rawValue, count.timeEnabled - prev.timeEnabled, count.timeRunning - prev.timeRunning⟩
  | .aggregated => count

/-- The sample that `scale` returns for them. -/
def sample (span : Counts) : EventSample :=
  if span.timeRunning = 0 then ⟨.finite 0, .finite 0, 0 < span.timeEnabled⟩
  else
    let scaling := (toDouble span.timeRunning).divide (toDouble span.timeEnabled)
    ⟨(toDouble span.rawValue).divide scaling, scaling, true⟩

end Counts

/-- `prev_` is moved in RELATIVE mode only. -/
def Event.moveReference (e : Event) (count : Counts) : EventReadMode → Event
  | .relative => { e with prev := count }
  | .aggregated => e

@[simp] theorem Event.moveReference_aggregated (e : Event) (count : Counts) :
    e.moveReference count .aggregated = e := rfl

@[simp] theorem Event.prev_moveReference (e : Event) (count : Counts) :
    (e.moveReference count .relative).prev = count := rfl

@[simp] theorem Event.count_moveReference (e : Event) (count : Counts) (mode : EventReadMode) :
    (e.moveReference count mode).count = e.count := by
  cases mode <;> rfl

/-- Not enabled before a `read`, when `count_` has no value yet. -/
def Event.scale (e : Event) (mode : EventReadMode) : Option (Except Exception EventSample × Event) :=
  e.count.map fun count => match count.check e.prev with
    | .error thrown => (.error thrown, e)
    | .ok () => (.ok (count.span e.prev mode).sample, e.moveReference count mode)

/-- A call of `scale` that came back: the counters it was made on, and what it returned or threw. -/
structure ScaleCall where
  mode : EventReadMode
  count : Counts
  result : Except Exception EventSample
  deriving DecidableEq

/-- An event with the calls of `scale` made on it so far. -/
structure ScaledEvent where
  event : Event
  calls : List ScaleCall := []

namespace ScaledEvent

inductive Action
  | read (answer : Except Int Counts)
  | scale (mode : EventReadMode)
  deriving DecidableEq

def step (s : ScaledEvent) : Action → Option ScaledEvent
  | .read answer => some { s with event := (s.event.read fun _ => answer).2 }
  | .scale mode => s.event.count.bind fun count => (s.event.scale mode).map fun (result, event) =>
      { event, calls := s.calls ++ [⟨mode, count, result⟩] }

def init (info : EventInfo) : ScaledEvent where event := { info }

/-- The counters at the last RELATIVE call that returned, zero before there is one. -/
def lastReported (calls : List ScaleCall) : Counts :=
  ((calls.filter fun call => call.mode = .relative && call.result.toBool).getLast?.map ScaleCall.count).getD .zero

end ScaledEvent

/-- No counter is smaller in the second reading. -/
def Counts.GrowsTo (a b : Counts) : Prop :=
  a.rawValue ≤ b.rawValue ∧ a.timeEnabled ≤ b.timeEnabled ∧ a.timeRunning ≤ b.timeRunning

theorem Counts.growsTo_refl (count : Counts) : count.GrowsTo count :=
  ⟨UInt64.le_refl _, UInt64.le_refl _, UInt64.le_refl _⟩

theorem Counts.GrowsTo.trans {a b c : Counts} (first : a.GrowsTo b) (second : b.GrowsTo c) : a.GrowsTo c :=
  ⟨UInt64.le_trans first.1 second.1, UInt64.le_trans first.2.1 second.2.1, UInt64.le_trans first.2.2 second.2.2⟩

theorem Counts.zero_growsTo (count : Counts) : zero.GrowsTo count :=
  ⟨UInt64.zero_le, UInt64.zero_le, UInt64.zero_le⟩

instance (a b : Counts) : Decidable (a.GrowsTo b) := inferInstanceAs (Decidable (_ ∧ _ ∧ _))

/-- The divisor is not zero, the scaling is a fraction and scales the value to `raw`. -/
def EventSample.Represents (sample : EventSample) (raw : ℚ) : Prop :=
  ∃ value scaling : ℚ, sample.value = .finite value ∧ sample.scaling = .finite scaling ∧
    0 ≤ scaling ∧ scaling ≤ 1 ∧ value * scaling = raw

theorem sample_represents_iff (span : Counts) (raw : ℚ) :
    (span.sample.Represents raw ∧ (span.timeRunning ≠ 0 → span.timeEnabled ≠ 0)) ↔
      span.timeRunning ≤ span.timeEnabled ∧ raw = if span.timeRunning = 0 then 0 else span.rawValue.toNat := by
  by_cases idle : span.timeRunning = 0
  · have least : span.timeRunning ≤ span.timeEnabled := by
      rw [idle]
      exact UInt64.zero_le
    simp only [Counts.sample, EventSample.Represents, idle, if_true]
    constructor
    · intro both
      obtain ⟨⟨value, scaling, isValue, isScaling, _, _, product⟩, _⟩ := both
      cases isValue
      cases isScaling
      exact ⟨idle ▸ least, by simpa using product.symm⟩
    · intro both
      exact ⟨⟨0, 0, rfl, rfl, le_refl 0, by norm_num, by simp [both.2]⟩, by simp⟩
  · have positive : 0 < (span.timeRunning.toNat : ℚ) := by
      have nonzero : span.timeRunning.toNat ≠ 0 := fun same => idle (UInt64.toNat_inj.mp same)
      exact_mod_cast Nat.pos_of_ne_zero nonzero
    simp only [Counts.sample, EventSample.Represents, idle, if_false, toDouble]
    by_cases disabled : span.timeEnabled = 0
    · simp [disabled, idle]
    · have nonzero : (span.timeEnabled.toNat : ℚ) ≠ 0 := by
        have nonzero : span.timeEnabled.toNat ≠ 0 := fun same => disabled (UInt64.toNat_inj.mp same)
        exact_mod_cast nonzero
      have enabled : 0 < (span.timeEnabled.toNat : ℚ) := lt_of_le_of_ne (by positivity) nonzero.symm
      have scaling : (span.timeRunning.toNat / span.timeEnabled.toNat : ℚ) ≠ 0 := (div_pos positive enabled).ne'
      have fraction : (span.timeRunning.toNat / span.timeEnabled.toNat : ℚ) ≤ 1 ↔
          span.timeRunning ≤ span.timeEnabled := by
        rw [div_le_one enabled, Nat.cast_le, UInt64.le_iff_toNat_le]
      rw [ExtendedNumber.divide_finite nonzero, ExtendedNumber.divide_finite scaling]
      constructor
      · intro both
        obtain ⟨⟨value, factor, isValue, isScaling, _, least, product⟩, _⟩ := both
        cases isValue
        cases isScaling
        rw [div_mul_cancel₀ _ scaling] at product
        exact ⟨fraction.mp least, product.symm⟩
      · intro both
        refine ⟨⟨_, _, rfl, rfl, by positivity, fraction.mpr both.1, ?_⟩, fun _ => disabled⟩
        rw [div_mul_cancel₀ _ scaling, both.2]

/-- The counts of the interval since `base`, or from the start, that a call is to report. -/
def ScaleCall.raw (call : ScaleCall) (base : Counts) : ℚ :=
  match call.mode with
  | .relative => call.count.rawValue.toNat - base.rawValue.toNat
  | .aggregated => call.count.rawValue.toNat

/-- Unless it throws, the call divides by a number other than zero and its sample represents the counts
since `base`, where the mode is RELATIVE. -/
def ScaleCall.Faithful (call : ScaleCall) (base : Counts) : Prop :=
  ∀ sample, call.result = .ok sample →
    ((call.count.span base call.mode).timeRunning ≠ 0 → (call.count.span base call.mode).timeEnabled ≠ 0) ∧
      sample.Represents (call.raw base)

/-- Over the interval from `prev` on, the event ran for no longer than it was enabled, and counted only
if it ran. -/
def Counts.Consistent (count prev : Counts) : Prop :=
  count.timeRunning.toNat - prev.timeRunning.toNat ≤ count.timeEnabled.toNat - prev.timeEnabled.toNat ∧
    (count.timeRunning = prev.timeRunning → count.rawValue = prev.rawValue)

instance (count prev : Counts) : Decidable (count.Consistent prev) := inferInstanceAs (Decidable (_ ∧ _))

variable {count prev : Counts}

theorem check_ok : count.check prev = .ok () ↔ count.timeRunning ≤ count.timeEnabled ∧
    (count.timeRunning = 0 → count.rawValue = prev.rawValue) := by
  unfold Counts.check
  split
  · rename_i longer
    simp [UInt64.not_le.mpr longer]
  · rename_i least
    split
    · rename_i unexpected
      simp [unexpected]
    · rename_i expected
      simp only [true_iff]
      refine ⟨UInt64.not_lt.mp least, fun idle => ?_⟩
      by_contra other
      exact expected ⟨idle, other⟩

/-- What a RELATIVE call reports of a reading that passed is right exactly if the interval is
consistent. -/
theorem relative_represents_iff (grows : prev.GrowsTo count) :
    ((count.span prev .relative).sample.Represents (count.rawValue.toNat - prev.rawValue.toNat) ∧
      ((count.span prev .relative).timeRunning ≠ 0 → (count.span prev .relative).timeEnabled ≠ 0)) ↔
      count.Consistent prev := by
  obtain ⟨raw, enabled, running⟩ := grows
  have value : ((count.rawValue - prev.rawValue).toNat : ℚ) = count.rawValue.toNat - prev.rawValue.toNat := by
    rw [UInt64.toNat_sub_of_le _ _ raw, Nat.cast_sub (UInt64.le_iff_toNat_le.mp raw)]
  have still : count.timeRunning - prev.timeRunning = 0 ↔ count.timeRunning = prev.timeRunning := by
    rw [UInt64.sub_eq_iff_eq_add, UInt64.zero_add]
  have same : (count.rawValue.toNat - prev.rawValue.toNat : ℚ) = 0 ↔ count.rawValue = prev.rawValue := by
    rw [sub_eq_zero, Nat.cast_inj, UInt64.toNat_inj]
  rw [sample_represents_iff]
  simp only [Counts.span, Counts.Consistent, still]
  rw [UInt64.le_iff_toNat_le, UInt64.toNat_sub_of_le _ _ running, UInt64.toNat_sub_of_le _ _ enabled]
  refine and_congr Iff.rfl ?_
  split
  · rename_i here
    simp [here, same]
  · rename_i moved
    simp [moved, value]

/-- An AGGREGATED call reports the current counts; nothing was counted as long as nothing ran. -/
theorem aggregated_represents (passed : count.check prev = .ok ()) (running : prev.timeRunning ≤ count.timeRunning)
    (idle : prev.timeRunning = 0 → prev.rawValue = 0) :
    count.sample.Represents count.rawValue.toNat ∧ (count.timeRunning ≠ 0 → count.timeEnabled ≠ 0) := by
  obtain ⟨least, expected⟩ := check_ok.mp passed
  rw [sample_represents_iff]
  refine ⟨least, ?_⟩
  split
  · rename_i still
    have before : prev.timeRunning = 0 := UInt64.le_zero_iff.mp (still ▸ running)
    rw [expected still, idle before]
    rfl
  · rfl

namespace ScaledEvent

/-- What the counters of the event have to do with the calls made. -/
structure Reads (s : ScaledEvent) : Prop where
  prev : s.event.prev = lastReported s.calls
  unread : s.event.count = none → s.event.prev = .zero
  grows : ∀ {count}, s.event.count = some count → s.event.prev.GrowsTo count
  idle : s.event.prev.timeRunning = 0 → s.event.prev.rawValue = 0

/-- A reading is no smaller than the one before. -/
def Nondecreasing (s : ScaledEvent) (a : Action) : Prop :=
  match a with
  | .read (.ok count) => ∀ last, s.event.count = some last → last.GrowsTo count
  | _ => True

variable {s s' : ScaledEvent} {a : Action} {mode : EventReadMode}

theorem lastReported_append (calls : List ScaleCall) (call : ScaleCall) :
    lastReported (calls ++ [call]) =
      if call.mode = .relative ∧ call.result.toBool = true then call.count else lastReported calls := by
  unfold lastReported
  rw [List.filter_append]
  by_cases reports : call.mode = .relative ∧ call.result.toBool = true
  · simp [reports]
  · have none : (call.mode = .relative && call.result.toBool) = false := by simpa using reports
    rw [if_neg reports, List.filter_singleton, none]
    simp

/-- A call of `scale` is rejected and changes nothing, or reports its span; only a RELATIVE call that
reports moves the reference counters. -/
theorem scale_cases (taken : s.step (.scale mode) = some s') : ∃ count, s.event.count = some count ∧
    ((∃ thrown, count.check s.event.prev = .error thrown ∧
        s' = { s with calls := s.calls ++ [⟨mode, count, .error thrown⟩] }) ∨
      count.check s.event.prev = .ok () ∧
        s' = {
          event := s.event.moveReference count mode
          calls := s.calls ++ [⟨mode, count, .ok (count.span s.event.prev mode).sample⟩] }) := by
  obtain ⟨count, atCount, taken⟩ := Option.bind_eq_some_iff.mp taken
  obtain ⟨⟨result, event⟩, scaled, rfl⟩ := Option.map_eq_some_iff.mp taken
  rw [Event.scale, atCount, Option.map_some, Option.some.injEq] at scaled
  refine ⟨count, atCount, ?_⟩
  cases check : count.check s.event.prev with
  | error thrown =>
    rw [check] at scaled
    cases scaled
    exact .inl ⟨thrown, rfl, rfl⟩
  | ok passed =>
    rw [check] at scaled
    cases scaled
    exact .inr ⟨rfl, rfl⟩

theorem Reads.step (h : s.Reads) (nondecreasing : s.Nondecreasing a) (taken : s.step a = some s') :
    s'.Reads := by
  cases a with
  | read answer =>
    cases Option.some.inj taken
    cases answer with
    | error errno => exact ⟨h.prev, h.unread, h.grows, h.idle⟩
    | ok count =>
      refine ⟨h.prev, by simp [Event.read, EventLinuxImpl.read], ?_, h.idle⟩
      intro _ same
      cases same
      show s.event.prev.GrowsTo count
      cases atCount : s.event.count with
      | none =>
        rw [h.unread atCount]
        exact Counts.zero_growsTo count
      | some last => exact (h.grows atCount).trans (nondecreasing last atCount)
  | scale mode =>
    obtain ⟨count, atCount, ⟨thrown, _, rfl⟩ | ⟨passed, rfl⟩⟩ := scale_cases taken
    · refine ⟨?_, h.unread, h.grows, h.idle⟩
      rw [lastReported_append]
      simpa [Except.toBool] using h.prev
    · cases mode with
      | aggregated =>
        refine ⟨?_, h.unread, h.grows, h.idle⟩
        rw [lastReported_append]
        simpa using h.prev
      | relative =>
        refine ⟨by simp [lastReported_append, Except.toBool], by simp [atCount], ?_, ?_⟩
        · intro _ same
          cases atCount.symm.trans same
          exact Counts.growsTo_refl count
        · intro still
          have still : count.timeRunning = 0 := still
          show count.rawValue = 0
          have before : s.event.prev.timeRunning = 0 := UInt64.le_zero_iff.mp (still ▸ (h.grows atCount).2.2)
          rw [(check_ok.mp passed).2 still, h.idle before]

theorem reads_init (info : EventInfo) : (init info).Reads :=
  ⟨rfl, fun _ => rfl, by simp [init], fun _ => rfl⟩

/-- What the call reports is right: it is AGGREGATED, or it is rejected, or the interval is consistent. -/
def ScalesConsistently (s : ScaledEvent) (mode : EventReadMode) : Prop :=
  mode = .aggregated ∨ ∀ count, s.event.count = some count →
    (∃ thrown, count.check s.event.prev = .error thrown) ∨ count.Consistent s.event.prev

theorem faithful_iff (h : s.Reads) (taken : s.step (.scale mode) = some s') :
    ∃ call, s'.calls = s.calls ++ [call] ∧ call.mode = mode ∧ s.event.count = some call.count ∧
      (call.Faithful (lastReported s.calls) ↔ s.ScalesConsistently mode) := by
  obtain ⟨count, atCount, ⟨thrown, rejected, rfl⟩ | ⟨passed, rfl⟩⟩ := scale_cases taken
  · refine ⟨_, rfl, rfl, atCount, iff_of_true (by simp [ScaleCall.Faithful]) ?_⟩
    refine .inr fun other same => .inl ?_
    cases atCount.symm.trans same
    exact ⟨thrown, rejected⟩
  · refine ⟨_, rfl, rfl, atCount, ?_⟩
    unfold ScaleCall.Faithful ScaleCall.raw ScalesConsistently
    rw [← h.prev]
    cases mode with
    | aggregated =>
      have right := aggregated_represents passed (h.grows atCount).2.2 h.idle
      simp only [true_or, iff_true]
      intro sample same
      cases same
      exact ⟨right.2, right.1⟩
    | relative =>
      have right := relative_represents_iff (h.grows atCount)
      constructor
      · intro faithful
        have both := faithful _ rfl
        refine .inr fun other same => .inr ?_
        cases atCount.symm.trans same
        exact right.mp ⟨both.2, both.1⟩
      · intro consistent
        rcases consistent with ⟨⟨⟩⟩ | consistent
        rcases consistent count atCount with ⟨thrown, rejected⟩ | consistent
        · rw [passed] at rejected
          cases rejected
        · intro sample same
          cases same
          have both := right.mpr consistent
          exact ⟨both.2, both.1⟩

/-- A call of `scale` on readings that do not decrease is right if and only if it scales consistently;
so all of them are in a run in which all do. -/
theorem scale_faithful_iff {info : EventInfo} {ts : List (Transition ScaledEvent Action)}
    (run : Run step (init info) ts s) (reads : ∀ t ∈ ts, t.before.Nondecreasing t.action) :
    ∀ t ∈ ts, ∀ mode, t.action = .scale mode →
      ∃ call, t.after.calls = t.before.calls ++ [call] ∧ call.mode = mode ∧
        t.before.event.count = some call.count ∧
        (call.Faithful (lastReported t.before.calls) ↔ t.before.ScalesConsistently mode) := by
  intro t member mode action
  obtain ⟨taken, earlier, later, split, reached⟩ := run.transition member
  have known : t.before.Reads := reached.invariant_of_guard (G := Nondecreasing) (reads_init info)
    (fun h nondecreasing taken => h.step nondecreasing taken) (fun t' member' => reads t' (by simp [split, member']))
  exact faithful_iff known (action ▸ taken)

/-- A transition whose readings are in order. -/
def inOrder (t : Transition ScaledEvent Action) : Bool :=
  match t.action with
  | .read (.ok count) => t.before.event.count.all fun last => last.GrowsTo count
  | .read (.error _) => true
  | .scale _ => t.before.event.count.all fun count => count.Consistent t.before.event.prev

theorem nondecreasing_of_inOrder {t : Transition ScaledEvent Action} (order : inOrder t = true) :
    t.before.Nondecreasing t.action := by
  cases action : t.action with
  | read answer =>
    cases answer with
    | error errno => trivial
    | ok count =>
      intro last atLast
      simpa [inOrder, action, atLast] using order
  | scale mode => trivial

/-- An event that counts for half of the time, in two intervals. -/
theorem scale_faithful_iff_half : ∃ ts s, Run step (init ⟨.hardware, 0, 0⟩) ts s ∧
    (∃ t ∈ ts, t.action = .scale .relative ∧ t.after.calls.length = 2) ∧
      ∀ t ∈ ts, ∀ mode, t.action = .scale mode →
        ∃ call, t.after.calls = t.before.calls ++ [call] ∧ call.Faithful (lastReported t.before.calls) := by
  obtain ⟨ts, s, run, test⟩ := run_of_trace_any step (init ⟨.hardware, 0, 0⟩)
    [.read (.ok ⟨6, 10, 5⟩), .scale .relative, .read (.ok ⟨16, 20, 10⟩), .scale .relative, .scale .aggregated]
    (fun ts => ts.all inOrder && ts.any fun t => t.action = .scale .relative ∧ t.after.calls.length = 2)
    (by decide +kernel)
  obtain ⟨order, second⟩ := Bool.and_eq_true_iff.mp test
  obtain ⟨t, member, known⟩ := List.any_eq_true.mp second
  refine ⟨ts, s, run, ⟨t, member, of_decide_eq_true known⟩, fun t member mode action => ?_⟩
  have inOrder' := List.all_eq_true.mp order
  obtain ⟨call, appended, _, atCount, right⟩ :=
    scale_faithful_iff run (fun t member => nondecreasing_of_inOrder (inOrder' t member)) t member mode action
  refine ⟨call, appended, right.mpr (.inr fun count same => .inr ?_)⟩
  simpa [inOrder, action, same] using inOrder' t member

/-- Counts from an interval in which the event did not run are lost, and an interval in which it ran for
longer than it was enabled makes the scaling infinite: nothing rejects them once earlier readings
make up for it. -/
theorem scale_not_faithful :
    (∃ ts s, Run step (init ⟨.hardware, 0, 0⟩) ts s ∧
      ts.map Transition.action =
        [.read (.ok ⟨0, 10, 5⟩), .scale .relative, .read (.ok ⟨7, 12, 5⟩), .scale .relative] ∧
      Counts.GrowsTo ⟨0, 10, 5⟩ ⟨7, 12, 5⟩ ∧
      s.calls = [⟨.relative, ⟨0, 10, 5⟩, .ok ⟨.finite 0, .finite (1 / 2), true⟩⟩,
        ⟨.relative, ⟨7, 12, 5⟩, .ok ⟨.finite 0, .finite 0, true⟩⟩] ∧
      ¬ ScaleCall.Faithful ⟨.relative, ⟨7, 12, 5⟩, .ok ⟨.finite 0, .finite 0, true⟩⟩ ⟨0, 10, 5⟩) ∧
    ∃ ts s, Run step (init ⟨.hardware, 0, 0⟩) ts s ∧
      ts.map Transition.action =
        [.read (.ok ⟨5, 10, 5⟩), .scale .relative, .read (.ok ⟨7, 10, 10⟩), .scale .relative] ∧
      Counts.GrowsTo ⟨5, 10, 5⟩ ⟨7, 10, 10⟩ ∧
      s.calls = [⟨.relative, ⟨5, 10, 5⟩, .ok ⟨.finite 10, .finite (1 / 2), true⟩⟩,
        ⟨.relative, ⟨7, 10, 10⟩, .ok ⟨.finite 0, .infinite, true⟩⟩] ∧
      ¬ ScaleCall.Faithful ⟨.relative, ⟨7, 10, 10⟩, .ok ⟨.finite 0, .infinite, true⟩⟩ ⟨5, 10, 5⟩ := by
  constructor
  · obtain ⟨ts, s, run, labels, calls⟩ := run_of_exec_any step (init ⟨.hardware, 0, 0⟩)
      [.read (.ok ⟨0, 10, 5⟩), .scale .relative, .read (.ok ⟨7, 12, 5⟩), .scale .relative]
      (fun s => s.calls = [⟨.relative, ⟨0, 10, 5⟩, .ok ⟨.finite 0, .finite (1 / 2), true⟩⟩,
        ⟨.relative, ⟨7, 12, 5⟩, .ok ⟨.finite 0, .finite 0, true⟩⟩]) (by decide +kernel)
    refine ⟨ts, s, run, labels, by decide, of_decide_eq_true calls, fun faithful => ?_⟩
    obtain ⟨_, value, scaling, isValue, _, _, _, product⟩ := faithful _ rfl
    cases isValue
    have counts : 0 * scaling = ((7 : UInt64).toNat : ℚ) - ((0 : UInt64).toNat : ℚ) := product
    rw [zero_mul] at counts
    exact absurd counts (by decide +kernel)
  · obtain ⟨ts, s, run, labels, calls⟩ := run_of_exec_any step (init ⟨.hardware, 0, 0⟩)
      [.read (.ok ⟨5, 10, 5⟩), .scale .relative, .read (.ok ⟨7, 10, 10⟩), .scale .relative]
      (fun s => s.calls = [⟨.relative, ⟨5, 10, 5⟩, .ok ⟨.finite 10, .finite (1 / 2), true⟩⟩,
        ⟨.relative, ⟨7, 10, 10⟩, .ok ⟨.finite 0, .infinite, true⟩⟩]) (by decide +kernel)
    refine ⟨ts, s, run, labels, by decide, of_decide_eq_true calls, fun faithful => ?_⟩
    obtain ⟨_, value, scaling, _, isScaling, _⟩ := faithful _ rfl
    cases isScaling

end ScaledEvent

end Aser.Perf
