import Mathlib.Logic.Basic
import Mathlib.Logic.ExistsUnique

namespace Aser.Library

variable {ι ρ : Type*}

/-- Who holds which resource, and which resources are there to be held: every one of them has a
holder, nothing has two, and nobody holds what is gone. -/
structure Exclusive (holds : ι → ρ → Prop) (live : ρ → Prop) : Prop where
  owned : ∀ {r}, live r → ∃ i, holds i r
  single : ∀ {i j r}, holds i r → holds j r → i = j
  present : ∀ {i r}, holds i r → live r

namespace Exclusive

variable {holds holds' : ι → ρ → Prop} {live live' : ρ → Prop}

theorem existsUnique (E : Exclusive holds live) {r : ρ} (there : live r) : ∃! i, holds i r := by
  obtain ⟨i, held⟩ := E.owned there
  exact ⟨i, held, fun j other => E.single other held⟩

theorem congr (E : Exclusive holds live) (sameHolds : ∀ i r, holds' i r ↔ holds i r)
    (sameLive : ∀ r, live' r ↔ live r) : Exclusive holds' live' where
  owned there := by
    obtain ⟨i, held⟩ := E.owned ((sameLive _).mp there)
    exact ⟨i, (sameHolds _ _).mpr held⟩
  single held held' := E.single ((sameHolds _ _).mp held) ((sameHolds _ _).mp held')
  present held := (sameLive _).mpr (E.present ((sameHolds _ _).mp held))

/-- A resource that was not there appears in one pair of hands. -/
theorem acquire (E : Exclusive holds live) {i : ι} {r : ρ} (fresh : ¬ live r)
    (newHolds : ∀ j s, holds' j s ↔ holds j s ∨ j = i ∧ s = r)
    (newLive : ∀ s, live' s ↔ live s ∨ s = r) : Exclusive holds' live' where
  owned {s} there := by
    rcases (newLive s).mp there with old | rfl
    · obtain ⟨j, held⟩ := E.owned old
      exact ⟨j, (newHolds j s).mpr (Or.inl held)⟩
    · exact ⟨i, (newHolds i s).mpr (Or.inr ⟨rfl, rfl⟩)⟩
  single {j k s} held held' := by
    rcases (newHolds j s).mp held with old | ⟨rfl, rfl⟩
    · rcases (newHolds k s).mp held' with old' | ⟨rfl, rfl⟩
      · exact E.single old old'
      · exact absurd (E.present old) fresh
    · rcases (newHolds k s).mp held' with old' | ⟨rfl, _⟩
      · exact absurd (E.present old') fresh
      · rfl
  present {j s} held := by
    rcases (newHolds j s).mp held with old | ⟨_, rfl⟩
    · exact (newLive s).mpr (Or.inl (E.present old))
    · exact (newLive s).mpr (Or.inr rfl)

/-- The holder of a resource gives it up, and it is gone. -/
theorem release (E : Exclusive holds live) {i : ι} {r : ρ} (held : holds i r)
    (newHolds : ∀ j s, holds' j s ↔ holds j s ∧ ¬ (j = i ∧ s = r))
    (newLive : ∀ s, live' s ↔ live s ∧ s ≠ r) : Exclusive holds' live' where
  owned {s} there := by
    obtain ⟨old, other⟩ := (newLive s).mp there
    obtain ⟨j, held⟩ := E.owned old
    exact ⟨j, (newHolds j s).mpr ⟨held, fun gone => other gone.2⟩⟩
  single held held' := E.single ((newHolds _ _).mp held).1 ((newHolds _ _).mp held').1
  present {j s} still := by
    obtain ⟨old, other⟩ := (newHolds j s).mp still
    refine (newLive s).mpr ⟨E.present old, ?_⟩
    intro same
    subst same
    exact other ⟨E.single old held, rfl⟩

/-- What a holder has passes to another one, for every holder at once. -/
theorem rename (E : Exclusive holds live) (f : ι → ι) (forward : ∀ {i r}, holds i r → holds' (f i) r)
    (back : ∀ {j r}, holds' j r → ∃ i, f i = j ∧ holds i r) : Exclusive holds' live where
  owned there := by
    obtain ⟨i, held⟩ := E.owned there
    exact ⟨f i, forward held⟩
  single held held' := by
    obtain ⟨i, rfl, before⟩ := back held
    obtain ⟨j, rfl, before'⟩ := back held'
    rw [E.single before before']
  present held := by
    obtain ⟨i, _, before⟩ := back held
    exact E.present before

end Exclusive

end Aser.Library
