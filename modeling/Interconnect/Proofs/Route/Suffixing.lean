import Mathlib.Data.List.Basic
import Interconnect.Route.Naming

/-!
# Names with direction suffixes

The name of a pin is what its base is without a direction suffix, followed by the suffix of the
pin's own direction (`pinName_eq`).  Stripping takes off one suffix at most, and only where
something is left before it (`stripChars_cases`).  So it takes off the suffix that was put on
(`stripDirection_append`), and the name of a pin can itself be the base of a name.

Whether the suffix is in capitals depends on the letters of what is left, and which characters are
letters is a matter of the version of Unicode.  No law of these names depends on it: `pinNameBy`
takes any classification of characters.
-/

namespace Interconnect

/-- The letter that stands for a direction. -/
def PortDirection.letter : PortDirection → Char
  | .input => 'i'
  | .output => 'o'
  | .bidirectional => 'b'

namespace Naming

/-! ## Suffixes -/

/-- A name with a suffix is not empty. -/
theorem withSuffix_ne (base : String) (letter : Char) : withSuffix base letter ≠ "" := by
  intro h
  have hlist := congrArg String.toList h
  simp [withSuffix] at hlist

/-- The suffix of a direction, in lower case or in capitals. -/
def directionSuffix : Bool → PortDirection → String
  | false, .input => "_i"
  | false, .output => "_o"
  | false, .bidirectional => "_b"
  | true, .input => "_I"
  | true, .output => "_O"
  | true, .bidirectional => "_B"

theorem directionSuffix_eq (capital : Bool) (direction : PortDirection) :
    directionSuffix capital direction
      = String.ofList ['_', if capital then direction.letter.toUpper else direction.letter] := by
  cases capital <;> cases direction <;> rfl

theorem exists_letter_directionSuffix (capital : Bool) (direction : PortDirection) :
    ∃ letter ∈ directionLetters, (directionSuffix capital direction).toList = ['_', letter] := by
  cases capital <;> cases direction <;> exact ⟨_, by decide, rfl⟩

/-- A name tells the suffix that it ends in, and what stands before. -/
theorem append_directionSuffix_inj {stem stem' : String} {capital capital' : Bool}
    {direction direction' : PortDirection}
    (h : stem ++ directionSuffix capital direction = stem' ++ directionSuffix capital' direction') :
    stem = stem' ∧ capital = capital' ∧ direction = direction' := by
  have hlist := congrArg String.toList h
  obtain ⟨letter, -, hletter⟩ := exists_letter_directionSuffix capital direction
  obtain ⟨letter', -, hletter'⟩ := exists_letter_directionSuffix capital' direction'
  rw [String.toList_append, String.toList_append] at hlist
  have hlength : (directionSuffix capital direction).toList.length
      = (directionSuffix capital' direction').toList.length := by
    rw [hletter, hletter']
    rfl
  have hstem := String.toList_inj.1 (List.append_inj_left' hlist hlength)
  have hsuffix := String.toList_inj.1 (List.append_inj_right' hlist hlength)
  refine ⟨hstem, ?_⟩
  revert hsuffix
  cases capital <;> cases direction <;> cases capital' <;> cases direction' <;> decide

/-! ## Stripping -/

theorem stripChars_append {stem : List Char} {letter : Char} (hstem : stem ≠ [])
    (hletter : letter ∈ directionLetters) : stripChars (stem ++ ['_', letter]) = stem := by
  obtain ⟨rest, c, rfl⟩ := List.eq_nil_or_concat stem |>.resolve_left hstem
  simp [stripChars, hletter]

/-- Either there is no suffix to strip, or one suffix goes and something is left. -/
theorem stripChars_cases (cs : List Char) :
    stripChars cs = cs ∨
      stripChars cs ≠ [] ∧ ∃ letter ∈ directionLetters, cs = stripChars cs ++ ['_', letter] := by
  unfold stripChars
  split
  case h_1 letter c rest hreverse =>
    split
    case isTrue hletter =>
      refine Or.inr ⟨by simp, letter, List.contains_iff_mem.1 hletter, ?_⟩
      rw [← List.reverse_reverse cs, hreverse]
      simp
    case isFalse => exact Or.inl rfl
  case h_2 => exact Or.inl rfl

theorem stripDirection_append {stem : String} (hstem : stem ≠ "") (capital : Bool)
    (direction : PortDirection) :
    stripDirection (stem ++ directionSuffix capital direction) = stem := by
  obtain ⟨letter, hletter, heq⟩ := exists_letter_directionSuffix capital direction
  rw [stripDirection, String.toList_append, heq, stripChars_append _ hletter, String.ofList_toList]
  simpa using hstem

/-- Something is left of a name that is not empty. -/
theorem stripDirection_ne {name : String} (h : name ≠ "") : stripDirection name ≠ "" := by
  have hlist : stripChars name.toList ≠ [] := by
    rcases stripChars_cases name.toList with hsame | ⟨hne, -⟩
    · rw [hsame]
      simpa using h
    · exact hne
  simpa [stripDirection] using hlist

/-! ## Names of pins -/

/-- The name of a pin is what is left of its base and the suffix of its direction, in capitals if
what is left is upper case. -/
theorem pinName_eq (base : String) (heading : Heading) :
    pinName base heading = stripDirection base
      ++ directionSuffix (isUpperCase (stripDirection base)) heading.portDirection := by
  rw [pinName, withSuffix, directionSuffix_eq]
  cases heading <;> rfl

/-- The name ends in the suffix of a direction, which is in lower case or in upper case. -/
def EndsIn (name : String) (direction : PortDirection) : Prop :=
  ∃ base, name = base ++ String.ofList ['_', direction.letter] ∨
    name = base ++ String.ofList ['_', direction.letter.toUpper]

theorem endsIn_iff {name : String} {direction : PortDirection} :
    EndsIn name direction ↔ ∃ base capital, name = base ++ directionSuffix capital direction := by
  simp only [EndsIn, directionSuffix_eq, Bool.exists_bool]
  rfl

/-- A name ends in the suffix of one direction at most. -/
theorem EndsIn.unique {name : String} {direction direction' : PortDirection}
    (h : EndsIn name direction) (h' : EndsIn name direction') : direction = direction' := by
  obtain ⟨base, capital, rfl⟩ := endsIn_iff.1 h
  obtain ⟨base', capital', heq⟩ := endsIn_iff.1 h'
  exact (append_directionSuffix_inj heq).2.2

/-- The name of a pin ends in the suffix of its direction. -/
theorem endsIn_pinName_iff {base : String} {heading : Heading} {direction : PortDirection} :
    EndsIn (pinName base heading) direction ↔ direction = heading.portDirection := by
  have hends : EndsIn (pinName base heading) heading.portDirection :=
    endsIn_iff.2 ⟨_, _, pinName_eq base heading⟩
  constructor
  · intro h
    exact h.unique hends
  · rintro rfl
    exact hends

/-- Names of pins on bases without a direction suffix tell the bases. -/
theorem pinName_inj {base base' : String} {heading heading' : Heading}
    (hbase : stripDirection base = base) (hbase' : stripDirection base' = base')
    (h : pinName base heading = pinName base' heading') : base = base' := by
  rw [pinName_eq, pinName_eq, hbase, hbase'] at h
  exact (append_directionSuffix_inj h).1

/-! ## Any classification of characters -/

/-- The base has characters that count as letters, and none that counts as lower case. -/
def capitals (alphabetic lowercase : Char → Bool) (base : String) : Bool :=
  base.toList.any alphabetic && !base.toList.any lowercase

/-- The name of a pin, where `alphabetic` and `lowercase` classify the characters. -/
def pinNameBy (alphabetic lowercase : Char → Bool) (base : String) (heading : Heading) : String :=
  stripDirection base
    ++ directionSuffix (capitals alphabetic lowercase (stripDirection base)) heading.portDirection

/-- Names of pins go by the letters and the lower-case letters of Unicode. -/
theorem pinName_eq_pinNameBy : pinName = pinNameBy Letters.isAlphabetic Letters.isLowercase := by
  funext base heading
  exact pinName_eq base heading

section Laws

variable {alphabetic lowercase : Char → Bool} {base base' : String} {heading heading' : Heading}

/-- What is left of the name of a pin is what was left of its base. -/
theorem stripDirection_pinNameBy (h : base ≠ "") :
    stripDirection (pinNameBy alphabetic lowercase base heading) = stripDirection base :=
  stripDirection_append (stripDirection_ne h) _ _

theorem pinNameBy_ne_stripDirection :
    pinNameBy alphabetic lowercase base heading ≠ stripDirection base := by
  intro h
  obtain ⟨letter, -, heq⟩ := exists_letter_directionSuffix
    (capitals alphabetic lowercase (stripDirection base)) heading.portDirection
  have hlist := congrArg String.toList h
  simp [pinNameBy, heq] at hlist

theorem pinNameBy_eq_iff (hbase : stripDirection base = base)
    (hbase' : stripDirection base' = base') :
    pinNameBy alphabetic lowercase base heading = pinNameBy alphabetic lowercase base' heading' ↔
      base = base' ∧ heading.portDirection = heading'.portDirection := by
  rw [pinNameBy, pinNameBy, hbase, hbase']
  constructor
  · intro h
    obtain ⟨rfl, -, hdirection⟩ := append_directionSuffix_inj h
    exact ⟨rfl, hdirection⟩
  · rintro ⟨rfl, hdirection⟩
    rw [hdirection]

end Laws

/-- The names of pins are an instance of the names for any classification of characters, and all of
these keep the following laws.  If the base is not empty, what is left of a pin's name is what was
left of its base, and so the name serves as a base as well as the base that it was made of.  A pin's
name ends in the suffix of its direction, in capitals if what is left is upper case, and is never
just what is left.  On bases without a direction suffix, names are the same only for the same base
and the same direction of ports. -/
theorem pinName_roundTrip (alphabetic lowercase : Char → Bool) :
    pinName = pinNameBy Letters.isAlphabetic Letters.isLowercase ∧
    (∀ base heading heading', base ≠ "" →
      stripDirection (pinNameBy alphabetic lowercase base heading) = stripDirection base ∧
      pinNameBy alphabetic lowercase (pinNameBy alphabetic lowercase base heading) heading'
        = pinNameBy alphabetic lowercase base heading') ∧
    (∀ base heading,
      (∃ stem, pinNameBy alphabetic lowercase base heading = stem ++ directionSuffix
        (capitals alphabetic lowercase (stripDirection base)) heading.portDirection) ∧
      pinNameBy alphabetic lowercase base heading ≠ stripDirection base) ∧
    ∀ base base' heading heading',
      stripDirection base = base → stripDirection base' = base' →
      (pinNameBy alphabetic lowercase base heading
          = pinNameBy alphabetic lowercase base' heading' ↔
        base = base' ∧ heading.portDirection = heading'.portDirection) := by
  refine ⟨pinName_eq_pinNameBy, fun base heading heading' hne => ?_, fun base heading => ?_, ?_⟩
  · have hstrip : stripDirection (pinNameBy alphabetic lowercase base heading)
        = stripDirection base := stripDirection_pinNameBy hne
    refine ⟨hstrip, ?_⟩
    rw [pinNameBy, hstrip]
    rfl
  · exact ⟨⟨_, rfl⟩, pinNameBy_ne_stripDirection⟩
  · intro base base' heading heading' hbase hbase'
    exact pinNameBy_eq_iff hbase hbase'

/-- A base that is nothing but a suffix keeps it, and gets another one. -/
theorem pinName_roundTrip_bare :
    "_o" ≠ "" ∧ stripDirection (pinNameBy Letters.isAlphabetic Letters.isLowercase "_o" .up)
        = stripDirection "_o" ∧
      stripDirection "_o" = "_o" ∧
      (pinNameBy Letters.isAlphabetic Letters.isLowercase "_o" .down
          = pinNameBy Letters.isAlphabetic Letters.isLowercase "_o" .unset ↔
        "_o" = "_o" ∧ Heading.down.portDirection = Heading.unset.portDirection) := by
  obtain ⟨-, hround, -, hsame⟩ := pinName_roundTrip Letters.isAlphabetic Letters.isLowercase
  have hbase : stripDirection "_o" = "_o" := by decide
  exact ⟨by decide, (hround "_o" .up .up (by decide)).1, hbase,
    hsame "_o" "_o" .down .unset hbase hbase⟩

end Naming

end Interconnect
