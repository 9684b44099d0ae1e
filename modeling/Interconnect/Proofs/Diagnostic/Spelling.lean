import Mathlib.Algebra.Group.Nat.Defs
import Mathlib.Data.List.Induction
import Mathlib.Data.List.Basic
import Interconnect.Diagnostic.Code

/-!
# The spellings of a code

`Numeral` is the grammar of decimal numerals: a digit, or a numeral and a digit.  A number has many
numerals, one for each length that it fits in, and the zeros in front make up the difference.  A
code is spelled by the letter of its category and a numeral of its number (`Code.Spells`).

Reading follows the grammar (`parse?_eq_some_iff`), and writing picks one of the spellings: the
shortest one with three digits or more (`padded_eq_iff`).
-/

namespace Interconnect

namespace Decimal

/-! ## Numerals -/

/-- The digits `ds` stand for the number.  There may be zeros in front. -/
inductive Numeral : List Char → Nat → Prop
  | digit {k : Nat} (hk : k < 10) : Numeral [Nat.digitChar k] k
  | snoc {ds : List Char} {n k : Nat} (hn : Numeral ds n) (hk : k < 10) :
    Numeral (ds ++ [Nat.digitChar k]) (10 * n + k)

theorem digitValue_digitChar {k : Nat} (hk : k < 10) : digitValue (Nat.digitChar k) = k := by
  revert k
  decide

theorem toNat_digitChar {k : Nat} (hk : k < 10) : (Nat.digitChar k).toNat = '0'.toNat + k := by
  revert k
  decide

/-- A digit is the character of its value. -/
theorem digitChar_digitValue {d : Char} (hd : d.isDigit = true) :
    digitValue d < 10 ∧ Nat.digitChar (digitValue d) = d := by
  obtain ⟨hfirst, hlast⟩ := Char.isDigit_iff_toNat.1 hd
  have hlt : digitValue d < 10 := by
    have hten : '9'.toNat = '0'.toNat + 9 := rfl
    unfold digitValue
    omega
  refine ⟨hlt, Char.toNat_inj.1 ?_⟩
  rw [toNat_digitChar hlt, digitValue]
  omega

theorem isDigit_digitChar {k : Nat} (hk : k < 10) : (Nat.digitChar k).isDigit = true := by
  revert k
  decide

theorem value_append_singleton (ds : List Char) (d : Char) :
    value (ds ++ [d]) = 10 * value ds + digitValue d := by
  simp [value]

namespace Numeral

variable {ds ds' : List Char} {n : Nat}

theorem ne_nil (h : Numeral ds n) : ds ≠ [] := by
  cases h <;> simp

theorem isDigit (h : Numeral ds n) : ∀ d ∈ ds, d.isDigit = true := by
  induction h with
  | digit hk => simpa using isDigit_digitChar hk
  | snoc hn hk ih =>
    intro d hd
    rcases List.mem_append.1 hd with hd | hd
    · exact ih d hd
    · rw [List.mem_singleton.1 hd]
      exact isDigit_digitChar hk

theorem value_eq (h : Numeral ds n) : value ds = n := by
  induction h with
  | digit hk => simp [value, digitValue_digitChar hk]
  | snoc hn hk ih => rw [value_append_singleton, ih, digitValue_digitChar hk]

/-- Any digits are a numeral of their value. -/
theorem of_isDigit (hne : ds ≠ []) (hdigit : ∀ d ∈ ds, d.isDigit = true) :
    Numeral ds (value ds) := by
  induction ds using List.reverseRecOn with
  | nil => exact absurd rfl hne
  | append_singleton ds d ih =>
    obtain ⟨hlt, hchar⟩ := digitChar_digitValue (hdigit d (by simp))
    rw [value_append_singleton, ← hchar, digitValue_digitChar hlt]
    by_cases hnil : ds = []
    · subst hnil
      simpa [value] using digit hlt
    · exact snoc (ih hnil fun c hc => hdigit c (by simp [hc])) hlt

/-- A numeral's length bounds its number. -/
theorem lt_pow (h : Numeral ds n) : n < 10 ^ ds.length := by
  induction h with
  | digit hk => simpa using hk
  | snoc hn hk ih =>
    rw [List.length_append, List.length_singleton, Nat.pow_succ]
    omega

/-- A numeral has no zero in front if and only if its number needs all of its digits. -/
theorem head?_ne_zero_iff (h : Numeral ds n) :
    ds.head? ≠ some '0' ↔ 10 ^ (ds.length - 1) ≤ n := by
  induction h with
  | @digit k hk =>
    revert k
    decide
  | @snoc ds n k hn hk ih =>
    have hlength : ds.length - 1 + 1 = ds.length :=
      Nat.sub_add_cancel (List.length_pos_iff.2 hn.ne_nil)
    rw [List.head?_append_of_ne_nil _ hn.ne_nil, ih, List.length_append, List.length_singleton,
      Nat.add_sub_cancel, ← hlength, Nat.pow_succ, hlength]
    omega

/-- A number has one numeral of each length at most. -/
theorem eq_of_length_eq (h : Numeral ds n) (h' : Numeral ds' n) (hlength : ds.length = ds'.length) :
    ds = ds' := by
  induction h generalizing ds' with
  | digit hk =>
    cases h' with
    | digit => rfl
    | snoc hn' => simp [hn'.ne_nil] at hlength
  | @snoc ds n k hn hk ih =>
    generalize hm : 10 * n + k = m at h'
    cases h' with
    | digit => simp [hn.ne_nil] at hlength
    | @snoc ds' n' k' hn' hk' =>
      have hnumber : n = n' := by omega
      have hdigit : k = k' := by omega
      subst hnumber hdigit
      rw [ih hn' (by simpa using hlength)]

end Numeral

/-! ## Reading and writing numerals -/

/-- Reading is right on numerals and on nothing else. -/
theorem numeral_iff {ds : List Char} {n : Nat} :
    Numeral ds n ↔ ds ≠ [] ∧ (∀ d ∈ ds, d.isDigit = true) ∧ value ds = n := by
  constructor
  · intro h
    exact ⟨h.ne_nil, h.isDigit, h.value_eq⟩
  · rintro ⟨hne, hdigit, rfl⟩
    exact .of_isDigit hne hdigit

theorem numeral_digits (n : Nat) : Numeral (digits n) n := by
  refine numeral_iff.2 ⟨?_, fun d hd => ?_, ?_⟩
  · exact Nat.toDigits_ne_nil
  · exact Nat.isDigit_of_mem_toDigits (by decide) (by decide) hd
  · have hread := Nat.ofDigitChars_toDigits (b := 10) (n := n) (by decide) (by decide)
    rwa [Nat.ofDigitChars_eq_foldl] at hread

/-- Zeros in front do not count. -/
theorem numeral_zeros {ds : List Char} {n : Nat} (h : Numeral ds n) (k : Nat) :
    Numeral (List.replicate k '0' ++ ds) n := by
  obtain ⟨hne, hdigit, hvalue⟩ := numeral_iff.1 h
  refine numeral_iff.2 ⟨by simp [hne], fun d hd => ?_, ?_⟩
  · rcases List.mem_append.1 hd with hd | hd
    · rw [List.eq_of_mem_replicate hd]
      rfl
    · exact hdigit d hd
  · rw [← hvalue]
    induction k with
    | zero => rfl
    | succ k ih => simpa [List.replicate_succ, value, digitValue] using ih

theorem numeral_padded (width n : Nat) : Numeral (padded width n) n :=
  numeral_zeros (numeral_digits n) _

theorem length_padded (width n : Nat) : (padded width n).length = max width (digits n).length := by
  simp only [padded, List.length_append, List.length_replicate]
  omega

/-- Of the numerals of a number, the one with just the zeros in front that fill the width is
written. -/
theorem padded_eq_iff {width : Nat} {ds : List Char} {n : Nat} (hwidth : 0 < width)
    (h : Numeral ds n) :
    padded width n = ds ↔ width ≤ ds.length ∧ (width < ds.length → ds.head? ≠ some '0') := by
  have hlength : padded width n = ds ↔ max width (digits n).length = ds.length := by
    rw [← length_padded]
    exact ⟨congrArg List.length, (numeral_padded width n).eq_of_length_eq h⟩
  -- A number needs no more digits than any of its numerals has, and all of them if the numeral
  -- has no zero in front.
  have hleast : (digits n).length ≤ ds.length :=
    (Nat.length_toDigits_le_iff (by decide) (List.length_pos_iff.2 h.ne_nil)).2 h.lt_pow
  have hhead : width < ds.length →
      (ds.head? ≠ some '0' ↔ ¬ (digits n).length ≤ ds.length - 1) := by
    intro hlong
    rw [h.head?_ne_zero_iff, digits, Nat.length_toDigits_le_iff (by decide) (by omega), Nat.not_lt]
  rw [hlength]
  constructor
  · intro heq
    exact ⟨by omega, fun hlong => (hhead hlong).2 (by omega)⟩
  · rintro ⟨hle, hzero⟩
    rcases Nat.eq_or_lt_of_le hle with heq | hlong
    · omega
    · have := (hhead hlong).1 (hzero hlong)
      omega

end Decimal

/-! ## Codes -/

theorem Category.ofLetter?_eq_some_iff {letter : Char} {category : Category} :
    ofLetter? letter = some category ↔ letter = category.letter := by
  constructor
  · intro h
    unfold ofLetter? at h
    split at h <;> cases h <;> rfl
  · rintro rfl
    exact ofLetter?_letter category

namespace Code

open Decimal

/-- The text is the letter of the category and a numeral of the number. -/
def Spells (s : String) (category : Category) (n : Nat) : Prop :=
  ∃ ds, s.toList = category.letter :: ds ∧ Numeral ds n

/-- The numbers of codes are those up to the greatest one. -/
theorem number_eq_iff {number : UInt16} {n : Nat} :
    number.toNat = n ↔ n ≤ maxNumber ∧ UInt16.ofNat n = number := by
  constructor
  · rintro rfl
    exact ⟨Nat.le_of_lt_succ number.toNat_lt, UInt16.ofNat_toNat⟩
  · rintro ⟨hle, rfl⟩
    exact UInt16.toNat_ofNat_of_lt (Nat.lt_succ_of_le hle)

theorem ofChars?_cons_eq_some_iff {first : Char} {ds : List Char} {c : Code} :
    ofChars? (first :: ds) = some c ↔
      first = c.category.letter ∧ Numeral ds c.number.toNat := by
  constructor
  · intro h
    rw [ofChars?] at h
    split at h
    case h_1 => cases h
    case h_2 category hcategory =>
      split at h
      case isTrue => cases h
      case isFalse hdigits =>
        split at h
        case isTrue hle =>
          cases h
          obtain ⟨hne, hdigits⟩ : ds ≠ [] ∧ ∀ d ∈ ds, d.isDigit = true := by simpa using hdigits
          exact ⟨Category.ofLetter?_eq_some_iff.1 hcategory,
            numeral_iff.2 ⟨hne, hdigits, (number_eq_iff.2 ⟨hle, rfl⟩).symm⟩⟩
        case isFalse => cases h
  · rintro ⟨rfl, hnumeral⟩
    obtain ⟨hne, hdigits, hvalue⟩ := numeral_iff.1 hnumeral
    obtain ⟨hle, hnumber⟩ := number_eq_iff.1 hvalue.symm
    have hsome : ¬ (ds.isEmpty || !ds.all Char.isDigit) = true := by simpa using ⟨hne, hdigits⟩
    simp only [ofChars?, Category.ofLetter?_letter]
    rw [if_neg hsome, if_pos hle, hnumber]

/-- A text is read as a code if and only if it spells the code. -/
theorem parse?_eq_some_iff {s : String} {c : Code} :
    parse? s = some c ↔ Spells s c.category c.number.toNat := by
  unfold parse? Spells
  cases s.toList with
  | nil => simp [ofChars?]
  | cons first ds =>
    rw [ofChars?_cons_eq_some_iff]
    constructor
    · rintro ⟨rfl, hnumeral⟩
      exact ⟨ds, rfl, hnumeral⟩
    · rintro ⟨ds', heq, hnumeral⟩
      obtain ⟨rfl, rfl⟩ := List.cons.inj heq
      exact ⟨rfl, hnumeral⟩

theorem spells_text (c : Code) : Spells c.text c.category c.number.toNat :=
  ⟨_, String.toList_ofList, numeral_padded 3 _⟩

/-- What is written for a code is read as the code. -/
theorem parse?_text (c : Code) : parse? c.text = some c :=
  parse?_eq_some_iff.2 (spells_text c)

theorem text_inj {c c' : Code} (h : c.text = c'.text) : c = c' := by
  have hparse := parse?_text c
  rw [h, parse?_text c'] at hparse
  exact (Option.some.inj hparse).symm

theorem eq_or_isDigit_of_mem_text {c : Code} {x : Char} (hx : x ∈ c.text.toList) :
    x = c.category.letter ∨ x.isDigit = true := by
  obtain ⟨ds, hlist, hnumeral⟩ := spells_text c
  rw [hlist] at hx
  exact (List.mem_cons.1 hx).imp_right (hnumeral.isDigit x)

/-- A code is written with capitals and digits. -/
theorem notMem_text (c : Code) {x : Char} (hletter : ∀ category : Category, x ≠ category.letter)
    (hdigit : x.isDigit = false) : x ∉ c.text.toList := by
  intro hx
  rcases eq_or_isDigit_of_mem_text hx with heq | htrue
  · exact hletter _ heq
  · rw [hdigit] at htrue
    cases htrue

/-- What is written for a code that was read is what was read if and only if that has three digits
or more, and no zero in front of more than three. -/
theorem text_eq_iff {s : String} {c : Code} (h : parse? s = some c) :
    c.text = s ↔ 3 ≤ s.toList.tail.length ∧
      (3 < s.toList.tail.length → s.toList.tail.head? ≠ some '0') := by
  obtain ⟨ds, hlist, hnumeral⟩ := parse?_eq_some_iff.1 h
  have hchars : c.text = s ↔ padded 3 c.number.toNat = ds := by
    rw [← String.toList_inj, text, String.toList_ofList, hlist, chars, List.cons_inj_right]
  rw [hchars, padded_eq_iff (by decide) hnumeral, hlist, List.tail_cons]

/-- A text is read as a code if and only if it is the letter of a category and a numeral of a
number up to 65535, with any number of zeros in front, and then it is read as the code of the two.
What is written for a code is read as the code.  What is written for the code that was read is the
text itself if and only if the text has three digits or more, and no zero in front of more than
three. -/
theorem parse_iff_spells (s : String) :
    ((parse? s).isSome = true ↔ ∃ category n, n ≤ 65535 ∧ Spells s category n) ∧
    (∀ c, parse? s = some c ↔ Spells s c.category c.number.toNat) ∧
    (∀ c : Code, parse? c.text = some c) ∧
    ∀ c, parse? s = some c →
      (c.text = s ↔ 3 ≤ s.toList.tail.length ∧
        (3 < s.toList.tail.length → s.toList.tail.head? ≠ some '0')) := by
  refine ⟨?_, fun c => parse?_eq_some_iff, parse?_text, fun c h => text_eq_iff h⟩
  rw [Option.isSome_iff_exists]
  constructor
  · rintro ⟨c, h⟩
    exact ⟨c.category, c.number.toNat, Nat.le_of_lt_succ c.number.toNat_lt,
      parse?_eq_some_iff.1 h⟩
  · rintro ⟨category, n, hle, hspells⟩
    have hnumber : (UInt16.ofNat n).toNat = n := number_eq_iff.2 ⟨hle, rfl⟩
    exact ⟨⟨category, UInt16.ofNat n⟩, parse?_eq_some_iff.2 (by rwa [hnumber])⟩

/-- A fourth digit is one too many if it is a zero in front. -/
theorem parse_iff_spells_padded :
    parse? "W0007" = some ⟨.warning, 7⟩ ∧
      ((⟨.warning, 7⟩ : Code).text = "W0007" ↔ 3 ≤ "W0007".toList.tail.length ∧
        (3 < "W0007".toList.tail.length → "W0007".toList.tail.head? ≠ some '0')) := by
  obtain ⟨-, -, -, hcanonical⟩ := parse_iff_spells "W0007"
  have hread : parse? "W0007" = some ⟨.warning, 7⟩ := by decide
  exact ⟨hread, hcanonical _ hread⟩

end Code

end Interconnect
