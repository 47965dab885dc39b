import Mathlib.Algebra.GroupWithZero.Nat
import Mathlib.Data.List.Basic

namespace Aser.Library

variable {α : Type*} {sep : α}

/-- A word: it has no separator in it, and something else. -/
structure Word (sep : α) where
  letters : List α
  nonempty : letters ≠ []
  unseparated : sep ∉ letters

/-- A way to write one or more words in a line: `lead` separators before the first word, `trail` after
the last one, and before each word of `rest` so many more than one. -/
structure Line (sep : α) where
  lead : Nat
  first : Word sep
  rest : List (Nat × Word sep)
  trail : Nat

namespace Line

def words (line : Line sep) : List (List α) := line.first.letters :: line.rest.map fun e => e.2.letters

/-- The line from behind a word on. -/
def continuation (trail : Nat) : List (Nat × Word sep) → List α
  | [] => List.replicate trail sep
  | (extra, word) :: rest => sep :: List.replicate extra sep ++ word.letters ++ continuation trail rest

def text (line : Line sep) : List α :=
  List.replicate line.lead sep ++ line.first.letters ++ continuation line.trail line.rest

/-- Nothing but one separator between words. -/
def Tight (line : Line sep) : Prop := line.lead = 0 ∧ line.trail = 0 ∧ ∀ e ∈ line.rest, e.1 = 0

/-- How many separators there are too many. -/
def surplus (line : Line sep) : Nat := line.lead + (line.rest.map Prod.fst).sum + line.trail

/-- What a cut at every separator leaves behind a word. -/
def tokensAfter (trail : Nat) : List (Nat × Word sep) → List (List α)
  | [] => List.replicate trail []
  | (extra, word) :: rest => List.replicate extra [] ++ word.letters :: tokensAfter trail rest

def tokens (line : Line sep) : List (List α) :=
  List.replicate line.lead [] ++ line.first.letters :: tokensAfter line.trail line.rest

theorem length_tokensAfter (trail : Nat) (rest : List (Nat × Word sep)) :
    (tokensAfter trail rest).length = rest.length + (rest.map Prod.fst).sum + trail := by
  induction rest with
  | nil => simp [tokensAfter]
  | cons e rest ih =>
    simp only [tokensAfter, List.length_append, List.length_replicate, List.length_cons, ih, List.map_cons,
      List.sum_cons]
    omega

theorem length_tokens (line : Line sep) : line.tokens.length = line.words.length + line.surplus := by
  simp only [tokens, words, surplus, List.length_append, List.length_replicate, List.length_cons,
    length_tokensAfter, List.length_map]
  omega

theorem surplus_eq_zero (line : Line sep) : line.surplus = 0 ↔ line.Tight := by
  simp only [surplus, Tight, Nat.add_eq_zero_iff, List.sum_eq_zero_iff_forall_eq_nat, List.mem_map]
  constructor
  · intro ⟨⟨lead, rest⟩, trail⟩
    exact ⟨lead, trail, fun e member => rest _ ⟨e, member, rfl⟩⟩
  · intro ⟨lead, trail, rest⟩
    refine ⟨⟨lead, ?_⟩, trail⟩
    rintro _ ⟨e, member, rfl⟩
    exact rest e member

theorem tokensAfter_of_tight {rest : List (Nat × Word sep)} (tight : ∀ e ∈ rest, e.1 = 0) :
    tokensAfter 0 rest = rest.map fun e => e.2.letters := by
  induction rest with
  | nil => rfl
  | cons e rest ih =>
    rw [List.forall_mem_cons] at tight
    obtain ⟨extra, word⟩ := e
    obtain rfl : extra = 0 := tight.1
    rw [tokensAfter, ih tight.2]
    rfl

theorem tight_of_nil_notMem {trail : Nat} {rest : List (Nat × Word sep)} (none : [] ∉ tokensAfter trail rest) :
    trail = 0 ∧ ∀ e ∈ rest, e.1 = 0 := by
  induction rest with
  | nil => simpa [tokensAfter, List.mem_replicate] using none
  | cons e rest ih =>
    obtain ⟨extra, word⟩ := e
    simp only [tokensAfter, List.mem_append, List.mem_cons, List.mem_replicate, not_or, not_and, not_true,
      imp_false, Decidable.not_not] at none
    obtain ⟨here, _, after⟩ := none
    obtain ⟨trail, later⟩ := ih after
    exact ⟨trail, List.forall_mem_cons.mpr ⟨here, later⟩⟩

/-- The words come out of the cut exactly if there is no separator too many. -/
theorem tokens_eq_words_iff (line : Line sep) : line.tokens = line.words ↔ line.Tight := by
  constructor
  · intro same
    have length := line.length_tokens
    rw [same] at length
    exact line.surplus_eq_zero.mp (by omega)
  · intro ⟨lead, trail, rest⟩
    rw [tokens, words, lead, trail, tokensAfter_of_tight rest]
    rfl

/-- Otherwise there are empty tokens, which no word is. -/
theorem nil_mem_tokens_iff (line : Line sep) : [] ∈ line.tokens ↔ ¬ line.Tight := by
  constructor
  · intro member tight
    rw [line.tokens_eq_words_iff.mpr tight, words, List.mem_cons, List.mem_map] at member
    rcases member with first | ⟨e, _, empty⟩
    · exact line.first.nonempty first.symm
    · exact e.2.nonempty empty
  · intro loose
    by_contra none
    refine loose ?_
    simp only [tokens, List.mem_append, List.mem_cons, List.mem_replicate, not_or, not_and, not_true, imp_false,
      Decidable.not_not] at none
    obtain ⟨lead, _, after⟩ := none
    obtain ⟨trail, rest⟩ := tight_of_nil_notMem after
    exact ⟨lead, trail, rest⟩

/-- The first token is the first word exactly if nothing stands before it. -/
theorem head?_tokens_iff (line : Line sep) : line.tokens.head? = some line.first.letters ↔ line.lead = 0 := by
  rw [tokens]
  cases line.lead with
  | zero => simp
  | succ n =>
    have other := line.first.nonempty
    simpa [List.replicate_succ] using other.symm

section
variable [DecidableEq α]

theorem splitOn_replicate_append (n : Nat) (l : List α) :
    (List.replicate n sep ++ l).splitOn sep = List.replicate n [] ++ l.splitOn sep := by
  induction n with
  | zero => rfl
  | succ n ih =>
    rw [List.replicate_succ, List.cons_append, List.splitOn_cons_eq_if_modifyHead, if_pos BEq.rfl, ih]
    rfl

theorem splitOn_word_append (word : Word sep) (trail : Nat) (rest : List (Nat × Word sep)) :
    (word.letters ++ continuation trail rest).splitOn sep = word.letters :: tokensAfter trail rest := by
  induction rest generalizing word with
  | nil =>
    cases trail with
    | zero => simpa [continuation, tokensAfter] using List.splitOn_eq_singleton word.unseparated
    | succ trail =>
      have cut : (List.replicate trail sep ++ []).splitOn sep = _ := splitOn_replicate_append trail []
      rw [List.append_nil] at cut
      rw [continuation, List.replicate_succ, List.splitOn_append_cons_self_of_not_mem word.unseparated, cut]
      simp [tokensAfter, List.replicate_succ']
  | cons e rest ih =>
    obtain ⟨extra, next⟩ := e
    rw [continuation, List.append_assoc, List.cons_append,
      List.splitOn_append_cons_self_of_not_mem word.unseparated, splitOn_replicate_append, ih]
    rfl

/-- Every separator too many makes an empty token. -/
theorem splitOn_text (line : Line sep) : line.text.splitOn sep = line.tokens := by
  rw [text, List.append_assoc, splitOn_replicate_append, splitOn_word_append]
  rfl

end

end Line

end Aser.Library
