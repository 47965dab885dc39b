import Mathlib.Order.Lattice
import Mathlib.Data.List.Basic
import Mathlib.Data.List.Pairwise
import Mathlib.Data.List.Nodup

namespace Aser.Library

variable {κ β : Type*} [LinearOrder κ]

/-- A map kept in strictly increasing order of its keys, the order in which it is traversed. -/
@[ext] structure OrderedMap (κ β : Type*) [LinearOrder κ] where
  entries : List (κ × β)
  sorted : (entries.map Prod.fst).Pairwise (· < ·)

/-- Binds a key in a list of entries: overwrites the entry of the key, or inserts one before the
first larger key. -/
def insertEntry (k : κ) (v : β) : List (κ × β) → List (κ × β)
  | [] => [(k, v)]
  | e :: rest =>
    if k < e.1 then (k, v) :: e :: rest
    else if k = e.1 then (k, v) :: rest
    else e :: insertEntry k v rest

theorem mem_keys_insertEntry {k : κ} {v : β} {l : List (κ × β)} {x : κ} :
    x ∈ (insertEntry k v l).map Prod.fst ↔ x = k ∨ x ∈ l.map Prod.fst := by
  induction l with
  | nil => simp [insertEntry]
  | cons e rest ih =>
    unfold insertEntry
    split
    · simp
    · split
      · rename_i same
        simp only [List.map_cons, List.mem_cons, ← same]
        tauto
      · simp only [List.map_cons, List.mem_cons, ih]
        tauto

theorem insertEntry_sorted {k : κ} {v : β} {l : List (κ × β)}
    (sorted : (l.map Prod.fst).Pairwise (· < ·)) :
    ((insertEntry k v l).map Prod.fst).Pairwise (· < ·) := by
  induction l with
  | nil => simp [insertEntry]
  | cons e rest ih =>
    simp only [List.map_cons, List.pairwise_cons] at sorted
    obtain ⟨below, sortedRest⟩ := sorted
    unfold insertEntry
    split
    · rename_i before
      simp only [List.map_cons, List.pairwise_cons, List.mem_cons]
      refine ⟨?_, below, sortedRest⟩
      intro x member
      rcases member with rfl | member
      · exact before
      · exact before.trans (below x member)
    · split
      · rename_i same
        simp only [List.map_cons, List.pairwise_cons, same]
        exact ⟨below, sortedRest⟩
      · rename_i notBefore notSame
        simp only [List.map_cons, List.pairwise_cons]
        refine ⟨?_, ih sortedRest⟩
        intro x member
        rcases mem_keys_insertEntry.mp member with rfl | old
        · exact lt_of_le_of_ne (not_lt.mp notBefore) (Ne.symm notSame)
        · exact below x old

/-- Binding a key that is already there overwrites its value where it stands. -/
theorem insertEntry_overwrite {k : κ} {v old : β} {before after : List (κ × β)}
    (sorted : ((before ++ (k, old) :: after).map Prod.fst).Pairwise (· < ·)) :
    insertEntry k v (before ++ (k, old) :: after) = before ++ (k, v) :: after := by
  induction before with
  | nil => simp [insertEntry]
  | cons e rest ih =>
    simp only [List.cons_append, List.map_cons, List.pairwise_cons] at sorted
    have below : e.1 < k := sorted.1 k (by simp)
    simp only [List.cons_append, insertEntry, if_neg below.not_gt, if_neg below.ne']
    rw [ih sorted.2]

theorem insertEntry_perm_of_new {k : κ} {v : β} {l : List (κ × β)}
    (new : k ∉ l.map Prod.fst) : (insertEntry k v l).Perm ((k, v) :: l) := by
  induction l with
  | nil => exact .refl _
  | cons e rest ih =>
    simp only [List.map_cons, List.mem_cons, not_or] at new
    unfold insertEntry
    split
    · exact .refl _
    · rw [if_neg new.1]
      exact ((ih new.2).cons e).trans (.swap _ _ _)

namespace OrderedMap

def empty : OrderedMap κ β := ⟨[], by simp⟩

def keys (m : OrderedMap κ β) : List κ := m.entries.map Prod.fst

def values (m : OrderedMap κ β) : List β := m.entries.map Prod.snd

def size (m : OrderedMap κ β) : Nat := m.entries.length

def find? (m : OrderedMap κ β) (k : κ) : Option β := m.entries.lookup k

def insert (m : OrderedMap κ β) (k : κ) (v : β) : OrderedMap κ β :=
  ⟨insertEntry k v m.entries, insertEntry_sorted m.sorted⟩

def erase (m : OrderedMap κ β) (k : κ) : OrderedMap κ β :=
  ⟨m.entries.filter (fun e => e.1 != k), m.sorted.sublist (List.filter_sublist.map Prod.fst)⟩

theorem nodup_keys (m : OrderedMap κ β) : m.keys.Nodup :=
  m.sorted.imp ne_of_lt

/-- A key has at most one entry. -/
theorem entry_unique (m : OrderedMap κ β) {k : κ} {v w : β} (atV : (k, v) ∈ m.entries)
    (atW : (k, w) ∈ m.entries) : v = w := by
  have same := List.inj_on_of_nodup_map m.nodup_keys atV atW rfl
  exact (Prod.mk.inj same).2

theorem find?_eq_some {m : OrderedMap κ β} {k : κ} {v : β} :
    m.find? k = some v ↔ (k, v) ∈ m.entries := by
  constructor
  · intro found
    obtain ⟨before, after, split, _⟩ := List.lookup_eq_some_iff.mp found
    simp [split]
  · intro member
    cases found : m.entries.lookup k with
    | none =>
      have absent := List.lookup_eq_none_iff.mp found (k, v) member
      simp at absent
    | some w =>
      obtain ⟨before, after, split, _⟩ := List.lookup_eq_some_iff.mp found
      have atW : (k, w) ∈ m.entries := by simp [split]
      exact (m.entry_unique member atW) ▸ found

theorem find?_eq_none {m : OrderedMap κ β} {k : κ} : m.find? k = none ↔ k ∉ m.keys := by
  simp only [find?, List.lookup_eq_none_iff, keys, List.mem_map, not_exists, not_and]
  exact ⟨fun absent e member same => by simpa [same] using absent e member,
    fun absent e member => by simpa using fun same => absent e member same.symm⟩

theorem mem_keys {m : OrderedMap κ β} {k : κ} : k ∈ m.keys ↔ ∃ v, m.find? k = some v := by
  rw [← Option.isSome_iff_exists, ← not_iff_not, Option.not_isSome_iff_eq_none, find?_eq_none]

theorem mem_keys_insert {m : OrderedMap κ β} {k x : κ} {v : β} :
    x ∈ (m.insert k v).keys ↔ x = k ∨ x ∈ m.keys := mem_keys_insertEntry

@[simp] theorem find?_empty (k : κ) : (empty : OrderedMap κ β).find? k = none := rfl

theorem lookup_cons_ite (x y : κ) (w : β) (rest : List (κ × β)) :
    ((y, w) :: rest).lookup x = if x = y then some w else rest.lookup x := by
  by_cases same : x = y
  · simp [same]
  · simp [List.lookup_cons, same, beq_eq_false_iff_ne.mpr same]

theorem lookup_insertEntry (k x : κ) (v : β) (l : List (κ × β)) :
    (insertEntry k v l).lookup x = if x = k then some v else l.lookup x := by
  induction l with
  | nil => rw [insertEntry, lookup_cons_ite]
  | cons e rest ih =>
    obtain ⟨y, w⟩ := e
    unfold insertEntry
    split
    · rw [lookup_cons_ite]
    · split
      · rename_i atKey
        change k = y at atKey
        subst atKey
        rw [lookup_cons_ite, lookup_cons_ite]
        by_cases same : x = k
        · rw [if_pos same, if_pos same]
        · rw [if_neg same, if_neg same, if_neg same]
      · rename_i other
        rw [lookup_cons_ite, lookup_cons_ite, ih]
        by_cases same : x = y
        · rw [if_pos same, if_pos same, if_neg (fun atKey => other (atKey.symm.trans same))]
        · rw [if_neg same, if_neg same]

@[simp] theorem find?_insert (m : OrderedMap κ β) (k x : κ) (v : β) :
    (m.insert k v).find? x = if x = k then some v else m.find? x :=
  lookup_insertEntry k x v m.entries

@[simp] theorem find?_erase (m : OrderedMap κ β) (k x : κ) :
    (m.erase k).find? x = if x = k then none else m.find? x := by
  apply Option.ext
  intro v
  rw [find?_eq_some]
  by_cases same : x = k
  · simp [erase, same]
  · rw [if_neg same, find?_eq_some]
    simp [erase, same]

/-- The entry of the `i`-th smallest key. -/
theorem find?_of_getElem? {m : OrderedMap κ β} {k : κ} {i : Nat} (atKey : m.keys[i]? = some k) :
    m.find? k = m.values[i]? := by
  simp only [keys, List.getElem?_map, Option.map_eq_some_iff] at atKey
  obtain ⟨⟨k', v⟩, entry, rfl⟩ := atKey
  rw [find?_eq_some.mpr (List.mem_of_getElem? entry), values, List.getElem?_map, entry]
  rfl

theorem mem_values_of_find? {m : OrderedMap κ β} {k : κ} {v : β} (found : m.find? k = some v) :
    v ∈ m.values :=
  List.mem_map.mpr ⟨(k, v), find?_eq_some.mp found, rfl⟩

theorem eq_of_keys_values {m m' : OrderedMap κ β} (keys : m.keys = m'.keys)
    (values : m.values = m'.values) : m = m' := by
  apply OrderedMap.ext
  rw [List.zip_of_prod (rfl : _ = m.keys) (rfl : _ = m.values), keys, values]
  exact (List.zip_of_prod rfl rfl).symm

theorem eq_empty {m : OrderedMap κ β} (none : ∀ k, m.find? k = none) : m = empty := by
  have keys : m.keys = (empty : OrderedMap κ β).keys :=
    List.eq_nil_iff_forall_not_mem.mpr fun k => find?_eq_none.mp (none k)
  have values : m.values = (empty : OrderedMap κ β).values := by
    have entries : m.entries = [] := List.map_eq_nil_iff.mp keys
    simp [OrderedMap.values, entries, empty]
  exact eq_of_keys_values keys values

theorem size_insert_of_new {m : OrderedMap κ β} {k : κ} {v : β} (new : k ∉ m.keys) :
    (m.insert k v).size = m.size + 1 :=
  (insertEntry_perm_of_new new).length_eq

theorem size_keys (m : OrderedMap κ β) : m.keys.length = m.size := List.length_map ..

end OrderedMap

end Aser.Library
