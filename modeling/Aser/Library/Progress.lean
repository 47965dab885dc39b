import Aser.Library.Run
import Mathlib.Algebra.GroupWithZero.Nat

namespace Aser.Library

variable {σ α : Type*} {step : σ → α → Option σ} {initial s s' : σ} {ts : List (Transition σ α)}
  {I : σ → Prop} {G : σ → α → Prop} {work : σ → Nat}

/-- When every step that meets the guard leaves less work, a run of such steps is no longer than the work
there was. -/
theorem Run.length_add_work_le (atStart : I initial)
    (less : ∀ {s a s'}, I s → G s a → step s a = some s' → I s' ∧ work s' < work s)
    (run : Run step initial ts s) (guarded : ∀ t ∈ ts, G t.before t.action) :
    I s ∧ ts.length + work s ≤ work initial := by
  induction run with
  | start => exact ⟨atStart, by simp⟩
  | next previous taken ih =>
    rw [List.forall_mem_append, List.forall_mem_singleton] at guarded
    obtain ⟨held, bound⟩ := ih guarded.1
    obtain ⟨held', fewer⟩ := less held guarded.2 taken
    refine ⟨held', ?_⟩
    simp only [List.length_append, List.length_singleton]
    omega

/-- When no step leaves more work, and those that are counted leave less, no more of them happen than there was
work. -/
theorem Run.countP_add_work_le {counts : Transition σ α → Bool} (atStart : I initial)
    (less : ∀ {s a s'}, I s → step s a = some s' → I s' ∧ work s' + (counts ⟨s, a, s'⟩).toNat ≤ work s)
    (run : Run step initial ts s) : I s ∧ ts.countP counts + work s ≤ work initial := by
  induction run with
  | start => exact ⟨atStart, by simp⟩
  | @next ts s a s' previous taken ih =>
    obtain ⟨held, bound⟩ := ih
    obtain ⟨held', fewer⟩ := less held taken
    refine ⟨held', ?_⟩
    rw [List.countP_append, List.countP_singleton]
    cases counted : counts ⟨s, a, s'⟩ with
    | true =>
      rw [counted, Bool.toNat_true] at fewer
      simp only [if_true]
      omega
    | false =>
      rw [counted, Bool.toNat_false] at fewer
      simp only [Bool.false_eq_true, if_false]
      omega

/-- Such steps lead to a state in which none of them is enabled any more. -/
theorem exists_run_stuck (atS : I s)
    (less : ∀ {s a s'}, I s → G s a → step s a = some s' → I s' ∧ work s' < work s) :
    ∃ ts s', Run step s ts s' ∧ (∀ t ∈ ts, G t.before t.action) ∧ I s' ∧ ∀ a, G s' a → step s' a = none := by
  induction bound : work s using Nat.strongRecOn generalizing s with
  | ind n ih =>
    by_cases stuck : ∀ a, G s a → step s a = none
    · exact ⟨[], s, .start, by simp, atS, stuck⟩
    · push Not at stuck
      obtain ⟨a, guard, enabled⟩ := stuck
      obtain ⟨middle, taken⟩ := Option.ne_none_iff_exists'.mp enabled
      obtain ⟨held, fewer⟩ := less atS guard taken
      obtain ⟨ts, s', run, guarded, held', stuck'⟩ := ih (work middle) (bound ▸ fewer) held rfl
      refine ⟨⟨s, a, middle⟩ :: ts, s', (Run.single taken).trans run, ?_, held', stuck'⟩
      exact List.forall_mem_cons.mpr ⟨guard, guarded⟩

/-- What one component does, or leaves, is paid for with its price. -/
theorem optionalStep_pays {price gain : α → Nat}
    (pays : ∀ {a s'}, step s a = some s' → work s' + gain a ≤ work s + price a) {a : Option α}
    (taken : optionalStep step s a = some s') :
    work s' + (a.map gain).getD 0 ≤ work s + (a.map price).getD 0 := by
  rcases optionalStep_cases taken with ⟨rfl, rfl⟩ | ⟨a, rfl, moved⟩
  · exact Nat.le_refl _
  · exact pays moved

/-- One element changes: what it leaves and what it enters is all that a sum notices. -/
theorem sum_map_set_balance {β : Type*} {l : List β} {k : Nat} {a : β} (atK : l[k]? = some a) (f : β → Nat)
    (b : β) : ((l.set k b).map f).sum + f a = (l.map f).sum + f b := by
  induction l generalizing k with
  | nil => simp at atK
  | cons head rest ih =>
    cases k with
    | zero =>
      obtain rfl : head = a := by simpa using atK
      simp only [List.set_cons_zero, List.map_cons, List.sum_cons]
      omega
    | succ k =>
      have balance := ih (k := k) (by simpa using atK)
      simp only [List.set_cons_succ, List.map_cons, List.sum_cons]
      omega

end Aser.Library
