import Mathlib.Data.List.Basic
import Mathlib.Data.List.Induction

namespace Aser.Library

variable {σ α : Type*}

/-- One step of a run: the state it was taken in, the action, the state it led to. -/
structure Transition (σ α : Type*) where
  before : σ
  action : α
  after : σ

/-- Finite runs of a system whose actions are partial functions on its states.
The transitions are listed oldest first; `none` means that an action is not enabled. -/
inductive Run (step : σ → α → Option σ) (initial : σ) : List (Transition σ α) → σ → Prop
  | start : Run step initial [] initial
  | next {ts s a s'} : Run step initial ts s → step s a = some s' →
      Run step initial (ts ++ [⟨s, a, s'⟩]) s'

variable {step : σ → α → Option σ} {initial s : σ} {ts : List (Transition σ α)}

theorem Run.single {a : α} {s' : σ} (taken : step s a = some s') : Run step s [⟨s, a, s'⟩] s' := by
  simpa only [List.nil_append] using Run.next .start taken

theorem Run.trans {middle : σ} {more : List (Transition σ α)} (first : Run step initial ts middle)
    (second : Run step middle more s) : Run step initial (ts ++ more) s := by
  induction second with
  | start => simpa only [List.append_nil] using first
  | next _ taken ih =>
    rw [← List.append_assoc]
    exact .next ih taken

theorem Run.last {t : Transition σ α} (run : Run step initial (ts ++ [t]) s) :
    Run step initial ts t.before ∧ step t.before t.action = some t.after ∧ t.after = s := by
  generalize all : ts ++ [t] = whole at run
  cases run with
  | start => simp at all
  | next previous taken =>
    obtain ⟨rfl, same⟩ := List.append_inj' all rfl
    cases List.singleton_inj.mp same
    exact ⟨previous, taken, rfl⟩

/-- A run can be cut anywhere. -/
theorem Run.split {more : List (Transition σ α)} (run : Run step initial (ts ++ more) s) :
    ∃ middle, Run step initial ts middle ∧ Run step middle more s := by
  induction more using List.reverseRecOn generalizing s with
  | nil => exact ⟨s, by simpa only [List.append_nil] using run, .start⟩
  | append_singleton more t ih =>
    rw [← List.append_assoc] at run
    obtain ⟨previous, taken, rfl⟩ := run.last
    obtain ⟨middle, first, second⟩ := ih previous
    exact ⟨middle, first, second.next taken⟩

theorem Run.eq_of_nil (run : Run step initial [] s) : s = initial := by
  generalize none : ([] : List (Transition σ α)) = ts at run
  cases run with
  | start => rfl
  | next => simp at none

theorem Run.head {t : Transition σ α} (run : Run step initial (t :: ts) s) :
    t.before = initial ∧ step t.before t.action = some t.after ∧ Run step t.after ts s := by
  have cut : Run step initial ([t] ++ ts) s := run
  obtain ⟨middle, first, rest⟩ := cut.split
  have single : Run step initial ([] ++ [t]) middle := first
  obtain ⟨none, taken, rfl⟩ := single.last
  exact ⟨none.eq_of_nil, taken, rest⟩

theorem Run.after_getLast {t : Transition σ α} (run : Run step initial ts s) (last : ts.getLast? = some t) :
    t.after = s := by
  cases run with
  | start => simp at last
  | next =>
    rw [List.getLast?_concat] at last
    cases last
    rfl

/-- Every transition of a run was taken in a state that an earlier part of the run reached. -/
theorem Run.transition (run : Run step initial ts s) {t : Transition σ α} (member : t ∈ ts) :
    step t.before t.action = some t.after ∧
      ∃ earlier later, ts = earlier ++ t :: later ∧ Run step initial earlier t.before := by
  induction run with
  | start => simp at member
  | @next ts s a s' previous taken ih =>
    rcases List.mem_append.mp member with old | new
    · obtain ⟨step, earlier, later, split, reached⟩ := ih old
      exact ⟨step, earlier, later ++ [⟨s, a, s'⟩], by simp [split], reached⟩
    · cases List.mem_singleton.mp new
      exact ⟨taken, ts, [], rfl, previous⟩

/-- A property of the initial state that every step keeps holds in every state reached. -/
theorem Run.invariant {I : σ → Prop} (atStart : I initial)
    (keep : ∀ {s a s'}, I s → step s a = some s' → I s') (run : Run step initial ts s) : I s := by
  induction run with
  | start => exact atStart
  | next _ taken ih => exact keep ih taken

/-- The same for a property that only the steps meeting a guard keep. -/
theorem Run.invariant_of_guard {I : σ → Prop} {G : σ → α → Prop} (atStart : I initial)
    (keep : ∀ {s a s'}, I s → G s a → step s a = some s' → I s') (run : Run step initial ts s)
    (guarded : ∀ t ∈ ts, G t.before t.action) : I s := by
  induction run with
  | start => exact atStart
  | next _ taken ih =>
    rw [List.forall_mem_append] at guarded
    exact keep (ih guarded.1) (guarded.2 _ (List.mem_singleton_self _)) taken

theorem Run.invariant_after {I : σ → Prop} {G : σ → α → Prop} (atStart : I initial)
    (keep : ∀ {s a s'}, I s → G s a → step s a = some s' → I s') (run : Run step initial ts s)
    (guarded : ∀ t ∈ ts, G t.before t.action) : ∀ t ∈ ts, I t.after := by
  intro t member
  obtain ⟨taken, earlier, later, split, reached⟩ := run.transition member
  have before := reached.invariant_of_guard atStart keep
    (fun t' member' => guarded t' (by simp [split, member']))
  exact keep before (guarded t member) taken

/-- When, from states with the property `P`, exactly the steps meeting the guard `G` lead to `P`
again and fulfil the contract `Q`, a run stays within `P` and `Q` exactly if all of its steps
meet the guard. `I` is whatever else is known of the states reached. -/
theorem Run.contract_iff_guard {I P : σ → Prop} {Q : σ → α → σ → Prop} {G : σ → α → Prop}
    (inv : ∀ {ts s}, Run step initial ts s → I s) (atStart : P initial)
    (exact : ∀ {s a s'}, I s → P s → step s a = some s' → (P s' ∧ Q s a s' ↔ G s a))
    (run : Run step initial ts s) :
    (∀ t ∈ ts, P t.after ∧ Q t.before t.action t.after) ↔ ∀ t ∈ ts, G t.before t.action := by
  suffices (∀ t ∈ ts, P t.after ∧ Q t.before t.action t.after) → P s ∧ ∀ t ∈ ts, G t.before t.action by
    refine ⟨fun within => (this within).2, fun guarded => ?_⟩
    clear this
    have reached : P s ∧ ∀ t ∈ ts, P t.after ∧ Q t.before t.action t.after := by
      induction run with
      | start => exact ⟨atStart, by simp⟩
      | next previous taken ih =>
        rw [List.forall_mem_append] at guarded
        obtain ⟨held, within⟩ := ih guarded.1
        have now := (exact (inv previous) held taken).mpr (guarded.2 _ (List.mem_singleton_self _))
        exact ⟨now.1, List.forall_mem_append.mpr ⟨within, by simpa using now⟩⟩
    exact reached.2
  intro within
  induction run with
  | start => exact ⟨atStart, by simp⟩
  | next previous taken ih =>
    rw [List.forall_mem_append] at within
    obtain ⟨held, guarded⟩ := ih within.1
    have now := within.2 _ (List.mem_singleton_self _)
    have guard := (exact (inv previous) held taken).mp now
    exact ⟨now.1, List.forall_mem_append.mpr ⟨guarded, by simpa using guard⟩⟩

theorem Run.property_iff_guard {I P : σ → Prop} {G : σ → α → Prop}
    (inv : ∀ {ts s}, Run step initial ts s → I s) (atStart : P initial)
    (exact : ∀ {s a s'}, I s → P s → step s a = some s' → (P s' ↔ G s a))
    (run : Run step initial ts s) : (∀ t ∈ ts, P t.after) ↔ ∀ t ∈ ts, G t.before t.action := by
  have both := Run.contract_iff_guard (Q := fun _ _ _ => True) inv atStart
    (fun known held taken => by simpa only [and_true] using exact known held taken) run
  simpa only [and_true] using both

/-- The same for a property that never comes back once it is lost: it holds at the end of a run exactly
if all of its steps meet the guard. -/
theorem Run.kept_iff_guard {I P : σ → Prop} {G : σ → α → Prop}
    (inv : ∀ {ts s}, Run step initial ts s → I s) (atStart : P initial)
    (exact : ∀ {s a s'}, I s → step s a = some s' → (P s' ↔ P s ∧ G s a))
    (run : Run step initial ts s) : P s ↔ ∀ t ∈ ts, G t.before t.action := by
  induction run with
  | start => simpa using atStart
  | next previous taken ih => rw [exact (inv previous) taken, ih, List.forall_mem_append, List.forall_mem_singleton]

/-- A step of a system in which one of its components makes a step, or none. -/
def optionalStep (step : σ → α → Option σ) (s : σ) : Option α → Option σ
  | none => some s
  | some a => step s a

theorem optionalStep_cases {a : Option α} {s' : σ} (taken : optionalStep step s a = some s') :
    (a = none ∧ s' = s) ∨ ∃ b, a = some b ∧ step s b = some s' := by
  cases a with
  | none => exact .inl ⟨rfl, (Option.some.inj taken).symm⟩
  | some b => exact .inr ⟨b, rfl, taken⟩

/-- What every step of a component keeps, it keeps when it may rest as well. -/
theorem optionalStep_keeps {I : σ → Prop} (keep : ∀ {s a s'}, I s → step s a = some s' → I s')
    {a : Option α} {s' : σ} (atS : I s) (taken : optionalStep step s a = some s') : I s' := by
  rcases optionalStep_cases taken with ⟨_, rfl⟩ | ⟨b, _, moved⟩
  · exact atS
  · exact keep atS moved

variable {τ β : Type*} {step' : τ → β → Option τ} {f : σ → τ} {g : σ → α → Option β}

/-- What a step is in a component, for which `g` tells the action, if it takes part. -/
def Transition.project (f : σ → τ) (g : σ → α → Option β) (t : Transition σ α) :
    Option (Transition τ β) :=
  (g t.before t.action).map fun b => ⟨f t.before, b, f t.after⟩

/-- When every step, from what is known of the states reached, is one of a component or leaves that alone,
a run is one of the component. -/
theorem Run.project {I : σ → Prop} (inv : ∀ {ts s}, Run step initial ts s → I s)
    (follows : ∀ {s a s'}, I s → step s a = some s' → optionalStep step' (f s) (g s a) = some (f s'))
    (run : Run step initial ts s) :
    Run step' (f initial) (ts.filterMap (Transition.project f g)) (f s) := by
  induction run with
  | start => exact .start
  | @next ts s a s' previous taken ih =>
    rw [List.filterMap_append]
    have moved := follows (inv previous) taken
    cases acts : g s a with
    | none =>
      rw [acts] at moved
      have rests : f s = f s' := Option.some.inj moved
      simpa [Transition.project, acts, ← rests] using ih
    | some b =>
      rw [acts] at moved
      simpa [Transition.project, acts] using ih.next moved

/-- When a run of the whole, from one state of rest to another, can make each step of the component, every
run of the component is one of the whole. -/
theorem Run.lift {I : σ → Prop} (atStart : I initial)
    (makes : ∀ {s b u}, I s → step' (f s) b = some u → ∃ ts s', Run step s ts s' ∧
      ts.filterMap (Transition.project f g) = [⟨f s, b, u⟩] ∧ f s' = u ∧ I s')
    {us : List (Transition τ β)} {u : τ} (run : Run step' (f initial) us u) :
    ∃ ts s, Run step initial ts s ∧ ts.filterMap (Transition.project f g) = us ∧ f s = u ∧ I s := by
  induction run with
  | start => exact ⟨[], initial, .start, rfl, rfl, atStart⟩
  | next _ taken ih =>
    obtain ⟨ts, s, run, rfl, rfl, rests⟩ := ih
    obtain ⟨more, s', later, same, rfl, rests'⟩ := makes rests taken
    exact ⟨ts ++ more, s', run.trans later, by rw [List.filterMap_append, same], rfl, rests'⟩

/-- Executes a list of actions; `none` as soon as one of them is not enabled. -/
def exec (step : σ → α → Option σ) : σ → List α → Option σ
  | s, [] => some s
  | s, a :: rest => (step s a).bind fun s' => exec step s' rest

theorem run_of_exec {actions : List α} {s s' : σ} (run : exec step s actions = some s') :
    ∃ ts, Run step s ts s' ∧ ts.map Transition.action = actions := by
  induction actions generalizing s with
  | nil =>
    cases Option.some.inj run
    exact ⟨[], .start, rfl⟩
  | cons a rest ih =>
    obtain ⟨middle, taken, run⟩ := Option.bind_eq_some_iff.mp run
    obtain ⟨ts, later, labels⟩ := ih run
    exact ⟨⟨s, a, middle⟩ :: ts, (Run.single taken).trans later, by simp [labels]⟩

theorem exec_append (step : σ → α → Option σ) (s : σ) (first second : List α) :
    exec step s (first ++ second) = (exec step s first).bind fun s' => exec step s' second := by
  induction first generalizing s with
  | nil => rfl
  | cons a rest ih =>
    simp only [List.cons_append, exec]
    cases step s a with
    | none => rfl
    | some s' => exact ih s'

theorem Run.exec_eq (run : Run step initial ts s) : exec step initial (ts.map Transition.action) = some s := by
  induction run with
  | start => rfl
  | next _ taken ih =>
    rw [List.map_append, exec_append, ih, Option.bind_some]
    simp [exec, taken]

/-- The actions of a run determine where it leads. -/
theorem Run.deterministic {ts' : List (Transition σ α)} {s' : σ} (run : Run step initial ts s)
    (run' : Run step initial ts' s') (same : ts.map Transition.action = ts'.map Transition.action) : s = s' := by
  have ends := run.exec_eq
  rw [same, run'.exec_eq] at ends
  exact (Option.some.inj ends).symm

/-- The run that a list of actions makes, with a test of the state at its end. -/
theorem run_of_exec_any (step : σ → α → Option σ) (s : σ) (actions : List α) (test : σ → Bool)
    (passes : (exec step s actions).any test = true) :
    ∃ ts s', Run step s ts s' ∧ ts.map Transition.action = actions ∧ test s' = true := by
  obtain ⟨s', done, passed⟩ := (Option.any_eq_true _ _).mp passes
  obtain ⟨ts, run, labels⟩ := run_of_exec done
  exact ⟨ts, s', run, labels, passed⟩

/-- The transitions that a list of actions makes. -/
def trace (step : σ → α → Option σ) : σ → List α → Option (List (Transition σ α))
  | _, [] => some []
  | s, a :: rest => (step s a).bind fun s' => (trace step s' rest).map (⟨s, a, s'⟩ :: ·)

theorem run_of_trace {actions : List α} {s : σ} {ts : List (Transition σ α)}
    (made : trace step s actions = some ts) : ∃ s', Run step s ts s' := by
  induction actions generalizing s ts with
  | nil =>
    cases Option.some.inj made
    exact ⟨s, .start⟩
  | cons a rest ih =>
    obtain ⟨middle, taken, made⟩ := Option.bind_eq_some_iff.mp made
    obtain ⟨more, later, rfl⟩ := Option.map_eq_some_iff.mp made
    obtain ⟨s', run⟩ := ih later
    exact ⟨s', (Run.single taken).trans run⟩

/-- The same, with a test of all its transitions. -/
theorem run_of_trace_any (step : σ → α → Option σ) (s : σ) (actions : List α)
    (test : List (Transition σ α) → Bool) (passes : (trace step s actions).any test = true) :
    ∃ ts s', Run step s ts s' ∧ test ts = true := by
  obtain ⟨ts, made, passed⟩ := (Option.any_eq_true _ _).mp passes
  obtain ⟨s', run⟩ := run_of_trace made
  exact ⟨ts, s', run, passed⟩

end Aser.Library
