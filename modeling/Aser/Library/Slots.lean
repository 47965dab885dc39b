import Mathlib.Data.List.Basic

namespace Aser.Library

variable {α : Type*}

/-- What stands in a place of a list with one more element at its end. -/
theorem getElem?_append_singleton {l : List α} {a b : α} {j : Nat} (atJ : (l ++ [b])[j]? = some a) :
    l[j]? = some a ∨ j = l.length ∧ a = b := by
  rw [List.getElem?_append] at atJ
  split at atJ
  · exact .inl atJ
  · rename_i beyond
    have bound := (List.getElem?_eq_some_iff.mp atJ).1
    simp only [List.length_singleton] at bound
    have last : j = l.length := by omega
    subst last
    simp only [Nat.sub_self, List.getElem?_cons_zero, Option.some.injEq] at atJ
    exact .inr ⟨rfl, atJ.symm⟩

/-- The object in place `o` of a list of numbered objects, unless it is gone or was never there. -/
def slot (l : List (Option α)) (o : Nat) : Option α := l[o]?.join

@[simp] theorem slot_nil (o : Nat) : slot ([] : List (Option α)) o = none := rfl

@[simp] theorem slot_length (l : List (Option α)) : slot l l.length = none := by
  simp [slot]

theorem slot_lt {l : List (Option α)} {o : Nat} {a : α} (there : slot l o = some a) : o < l.length := by
  by_contra beyond
  have none : l[o]? = none := List.getElem?_eq_none (by omega)
  simp [slot, none] at there

theorem slot_set {l : List (Option α)} {o : Nat} {a : α} (there : slot l o = some a) (b : Option α)
    (j : Nat) : slot (l.set o b) j = if j = o then b else slot l j := by
  have within := slot_lt there
  by_cases same : j = o
  · simp [slot, same, within]
  · simp [slot, same, List.getElem?_set_ne (Ne.symm same)]

theorem slot_append (l : List (Option α)) (b : Option α) (j : Nat) :
    slot (l ++ [b]) j = if j = l.length then b else slot l j := by
  by_cases same : j = l.length
  · simp [slot, same]
  · by_cases within : j < l.length
    · simp [slot, same, List.getElem?_append_left within]
    · have beyond : (l ++ [b])[j]? = none := List.getElem?_eq_none (by simp; omega)
      have beyond' : l[j]? = none := List.getElem?_eq_none (by omega)
      simp [slot, same, beyond, beyond']

/-- One element changes: what it leaves and what it enters is all that a count notices. -/
theorem countP_set_balance {l : List α} {k : Nat} {a : α} (atK : l[k]? = some a) (p : α → Bool) (b : α) :
    (l.set k b).countP p + (if p a then 1 else 0) = l.countP p + (if p b then 1 else 0) := by
  induction l generalizing k with
  | nil => simp at atK
  | cons head rest ih =>
    cases k with
    | zero =>
      obtain rfl : head = a := by simpa using atK
      simp only [List.set_cons_zero, List.countP_cons]
      omega
    | succ k =>
      have balance := ih (k := k) (by simpa using atK)
      simp only [List.set_cons_succ, List.countP_cons]
      omega

end Aser.Library
