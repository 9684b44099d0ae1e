/-!
# String tables

The distinct texts that have been used so far.  A text is numbered when it is first
interned, from zero upwards, and keeps its number.
-/

namespace Interconnect

/-- Distinct texts, in the order in which they were first interned. -/
structure StringTable where
  texts : List String
  deriving DecidableEq

namespace StringTable

/-- The table without texts. -/
def empty : StringTable := ⟨[]⟩

/-- The number of distinct texts. -/
def size (t : StringTable) : Nat :=
  t.texts.length

/-- The text has been interned. -/
def contains (t : StringTable) (s : String) : Bool :=
  t.texts.contains s

/-- The number of an interned text. -/
def number? (t : StringTable) (s : String) : Option Nat :=
  t.texts.idxOf? s

/-- The number that a text has, or gets when it is interned. -/
def number (t : StringTable) (s : String) : Nat :=
  t.texts.idxOf s

/-- The text with a number. -/
def text? (t : StringTable) (n : Nat) : Option String :=
  t.texts[n]?

/-- Adds a text that is not there yet. -/
def intern (t : StringTable) (s : String) : StringTable :=
  if t.contains s then t else ⟨t.texts ++ [s]⟩

/-- Interns several texts, one after the other. -/
def internAll (t : StringTable) (ss : List String) : StringTable :=
  ss.foldl intern t

/-- The one-line summary of a table. -/
def summary (t : StringTable) : String :=
  "Interner \x7b strings: " ++ toString t.size ++ " \x7d"

theorem mem_intern (t : StringTable) (s s' : String) :
    s' ∈ (t.intern s).texts ↔ s' ∈ t.texts ∨ s' = s := by
  unfold intern contains
  split
  · rename_i h
    simp only [List.contains_iff_mem] at h
    constructor
    · exact Or.inl
    · rintro (h' | rfl)
      · exact h'
      · exact h
  · simp

theorem mem_internAll (t : StringTable) (ss : List String) (s : String) :
    s ∈ (t.internAll ss).texts ↔ s ∈ t.texts ∨ s ∈ ss := by
  unfold internAll
  induction ss generalizing t with
  | nil => simp
  | cons x rest ih => rw [List.foldl_cons, ih, mem_intern, List.mem_cons, or_assoc]

end StringTable

end Interconnect
