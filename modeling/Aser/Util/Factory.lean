import Aser.Library.OrderedMap
import Aser.Util.LibcWrapper
import Mathlib.Data.String.Basic

namespace Aser

open Library

/-- A `factory` of objects `β` from constructor arguments `α`. A creator is the constructor of the derived
class, which may throw. -/
structure Factory (α β : Type*) where
  creators : OrderedMap String (α → Except Exception β) := .empty

namespace Factory

variable {α β : Type*}

/-- `none` where the assertion fails: the id is taken. -/
def registerCreator (f : Factory α β) (id : String) (creator : α → Except Exception β) : Option (Factory α β) :=
  match f.creators.find? id with
  | some _ => none
  | none => some { creators := f.creators.insert id creator }

/-- The constructors of the registars, in the order in which they run before `main`. -/
def registerAll (f : Factory α β) : List (String × (α → Except Exception β)) → Option (Factory α β)
  | [] => some f
  | (id, creator) :: rest => (f.registerCreator id creator).bind fun f => f.registerAll rest

def create (f : Factory α β) (id : String) (args : α) : Except Exception β :=
  match f.creators.find? id with
  | some creator => creator args
  | none => .error (.invalidArgument ("Invalid id: " ++ id))

variable {f f' : Factory α β} {id : String} {creator : α → Except Exception β}
  {registars order : List (String × (α → Except Exception β))}

theorem registerCreator_eq_some (registered : f.registerCreator id creator = some f') :
    f.creators.find? id = none ∧ f' = { creators := f.creators.insert id creator } := by
  unfold registerCreator at registered
  split at registered
  · simp at registered
  · rename_i new
    exact ⟨new, (Option.some.inj registered).symm⟩

/-- A factory knows the creators it had and those that were registered with it. -/
theorem find?_registerAll (registered : f.registerAll registars = some f') (id : String)
    (creator : α → Except Exception β) :
    f'.creators.find? id = some creator ↔ f.creators.find? id = some creator ∨ (id, creator) ∈ registars := by
  induction registars generalizing f with
  | nil =>
    cases Option.some.inj registered
    simp
  | cons e rest ih =>
    obtain ⟨g, first, later⟩ := Option.bind_eq_some_iff.mp registered
    obtain ⟨new, rfl⟩ := registerCreator_eq_some first
    rw [ih later, OrderedMap.find?_insert, List.mem_cons, ← or_assoc]
    refine or_congr_left ?_
    by_cases same : id = e.1
    · subst same
      simp [new, Prod.ext_iff, eq_comm]
    · simp [same, Prod.ext_iff]

/-- Registration fails exactly if an id is taken, or comes twice. -/
theorem registerAll_isSome_iff : (f.registerAll registars).isSome ↔
    (registars.map Prod.fst).Nodup ∧ ∀ id ∈ registars.map Prod.fst, f.creators.find? id = none := by
  induction registars generalizing f with
  | nil => simp [registerAll]
  | cons e rest ih =>
    rw [registerAll]
    cases first : f.registerCreator e.1 e.2 with
    | none =>
      have taken : f.creators.find? e.1 ≠ none := by
        intro new
        simp [registerCreator, new] at first
      simp [taken]
    | some g =>
      obtain ⟨new, rfl⟩ := registerCreator_eq_some first
      rw [Option.bind_some, ih, List.map_cons, List.nodup_cons, List.forall_mem_cons]
      constructor
      · rintro ⟨distinct, free⟩
        refine ⟨⟨fun member => ?_, distinct⟩, new, fun id member => ?_⟩
        · have gone := free e.1 member
          simp [OrderedMap.find?_insert] at gone
        · have free := free id member
          rw [OrderedMap.find?_insert] at free
          split at free
          · cases free
          · exact free
      · rintro ⟨⟨fresh, distinct⟩, _, free⟩
        refine ⟨distinct, fun id member => ?_⟩
        have other : id ≠ e.1 := fun same => fresh (same ▸ member)
        rw [OrderedMap.find?_insert, if_neg other]
        exact free id member

/-- What a factory creates after registration, in whatever order that was. -/
theorem create_of_mem (registered : registerAll {} order = some f) (perm : order.Perm registars)
    (member : (id, creator) ∈ registars) : f.create id = creator := by
  funext args
  have found := (find?_registerAll registered id creator).mpr (.inr (perm.mem_iff.mpr member))
  rw [create, found]

theorem create_of_notMem (registered : registerAll {} order = some f) (perm : order.Perm registars)
    (unknown : id ∉ registars.map Prod.fst) (args : α) :
    f.create id args = .error (.invalidArgument ("Invalid id: " ++ id)) := by
  rw [create]
  split
  · rename_i creator known
    rcases (find?_registerAll registered id creator).mp known with before | member
    · simp at before
    · exact absurd (List.mem_map_of_mem (perm.mem_iff.mp member)) unknown
  · rfl

/-- Registars of different translation units run in no particular order. Whatever it is, registration
succeeds exactly if their ids are distinct, and then every id creates what its registar stands for, and any
other one is refused. -/
theorem create_in_any_order (perm : order.Perm registars) :
    ((registerAll {} order).isSome ↔ (registars.map Prod.fst).Nodup) ∧
    ∀ f : Factory α β, registerAll {} order = some f →
      (∀ id creator, (id, creator) ∈ registars → f.create id = creator) ∧
      ∀ id args, id ∉ registars.map Prod.fst → f.create id args = .error (.invalidArgument ("Invalid id: " ++ id)) := by
  constructor
  · rw [registerAll_isSome_iff, (perm.map Prod.fst).nodup_iff]
    simp
  · intro f registered
    exact ⟨fun id creator => create_of_mem registered perm, fun id args unknown =>
      create_of_notMem registered perm unknown args⟩

/-- Two registars, the one of the later id first. -/
theorem create_in_any_order_two : ∃ f : Factory Nat Nat,
    registerAll {} [("simple", fun n => .ok (n + 1)), ("cpu-hopper", fun n => .ok n)] = some f ∧
      f.create "simple" 1 = .ok 2 ∧ f.create "fancy" 1 = .error (.invalidArgument "Invalid id: fancy") := by
  obtain ⟨succeeds, creates⟩ := create_in_any_order (α := Nat) (β := Nat)
    (List.Perm.swap ("simple", fun n => .ok (n + 1)) ("cpu-hopper", fun n => .ok n) [])
  obtain ⟨f, registered⟩ := Option.isSome_iff_exists.mp (succeeds.mpr (by decide))
  obtain ⟨known, unknown⟩ := creates f registered
  refine ⟨f, registered, ?_, unknown "fancy" 1 (by decide)⟩
  rw [known "simple" (fun n => .ok (n + 1)) (by simp)]

end Factory

end Aser
