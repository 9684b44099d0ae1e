import Interconnect.Proofs.Route.Joining

/-!
# What joint hops amount to

A joint hop has a flag if one of the hops has it that are joined, and its heading is what their
headings are joined to.  It tells of a clash if one of them does or if two of them have different
headings that are both set (`Hop.SumsUp`).  Its name is the smallest there is, or that of the
request (`IsSmallest`).
-/

namespace Interconnect

/-! ## Headings and flags -/

namespace Heading

/-- Headings are joined in any order. -/
theorem joins_join : Joins (fun _ : Heading => True) join where
  closed _ _ := trivial
  comm _ _ := join_comm _ _
  assoc := join_assoc
  self := join_self

theorem clashes_iff {a b : Heading} :
    a.clashes b = true ↔ a ≠ .unset ∧ b ≠ .unset ∧ a ≠ b := by
  simp [clashes, and_assoc]

/-- What does not clash clashes jointly with what one of the two clashes with. -/
theorem clashes_join_left {a b : Heading} (h : a.clashes b = false) (c : Heading) :
    (a.join b).clashes c = (a.clashes c || b.clashes c) := by
  cases a <;> cases b <;> cases c <;> first | rfl | cases h

end Heading

/-- The hop asks for what some hops ask for together, apart from its object and its name. -/
structure Hop.SumsUp (hop : Hop) (hops : List Hop) : Prop where
  explicit : hop.explicit = true ↔ ∃ a ∈ hops, a.explicit = true
  forced : hop.forced = true ↔ ∃ a ∈ hops, a.forced = true
  inverted : hop.inverted = true ↔ ∃ a ∈ hops, a.inverted = true
  heading : hop.heading = (hops.map Hop.heading).foldl Heading.join .unset
  clash : hop.clash = true ↔ (∃ a ∈ hops, a.clash = true) ∨
    ∃ a ∈ hops, ∃ b ∈ hops, a.heading ≠ .unset ∧ b.heading ≠ .unset ∧ a.heading ≠ b.heading

theorem Hop.SumsUp.congr {hop : Hop} {hops hops' : List Hop} (h : hop.SumsUp hops)
    (hsame : SameMembers hops hops') : hop.SumsUp hops' := by
  have hheadings :
      SameMembers (.unset :: hops.map Hop.heading) (.unset :: hops'.map Hop.heading) := by
    intro x
    rw [List.mem_cons, List.mem_cons, hsame.map Hop.heading x]
  constructor
  · simpa only [hsame _] using h.explicit
  · simpa only [hsame _] using h.forced
  · simpa only [hsame _] using h.inverted
  · rw [h.heading]
    exact Heading.joins_join.foldl_eq (fun _ _ => trivial) hheadings
  · simpa only [hsame _] using h.clash

/-- The name is the smallest of some names or, if there is none, that of the request. -/
def IsSmallest (request : String) (names : List String) (name : Option String) : Prop :=
  (names = [] ∧ name = some request) ∨ ∃ n ∈ names, name = some n ∧ ∀ m ∈ names, n ≤ m

theorem IsSmallest.congr {request : String} {names names' : List String} {name : Option String}
    (h : IsSmallest request names name) (hsame : SameMembers names names') :
    IsSmallest request names' name := by
  rcases h with ⟨hnone, hname⟩ | ⟨n, hn, hname, hle⟩
  · exact Or.inl ⟨hsame.eq_nil_iff.1 hnone, hname⟩
  · exact Or.inr ⟨n, (hsame n).1 hn, hname, fun m hm => hle m ((hsame m).2 hm)⟩

/-- If all names are one, this is the smallest. -/
theorem IsSmallest.eq_of_forall {request n : String} {names : List String} {name : Option String}
    (h : IsSmallest request names name) (hn : n ∈ names) (hall : ∀ m ∈ names, m = n) :
    name = some n := by
  rcases h with ⟨hnone, -⟩ | ⟨m, hm, hname, -⟩
  · rw [hnone] at hn
    cases hn
  · rw [hname, hall m hm]

/-- More names have the same smallest if none of them is smaller than all of the former. -/
theorem IsSmallest.of_subset {request : String} {names names' : List String} {name : Option String}
    (h : IsSmallest request names name) (hsub : names ⊆ names')
    (hle : ∀ m ∈ names', ∃ n ∈ names, n ≤ m) : IsSmallest request names' name := by
  rcases h with ⟨rfl, hname⟩ | ⟨n, hn, hname, hleast⟩
  · refine Or.inl ⟨List.eq_nil_iff_forall_not_mem.2 fun m hm => ?_, hname⟩
    obtain ⟨n, hn, -⟩ := hle m hm
    cases hn
  · refine Or.inr ⟨n, hsub hn, hname, fun m hm => ?_⟩
    obtain ⟨k, hk, hkm⟩ := hle m hm
    exact String.le_trans (hleast k hk) hkm

namespace Chain

theorem heading_foldl_absorb (hop : Hop) (chains : List Chain) :
    (chains.foldl (fun hop c => hop.absorb c.head) hop).heading
      = (chains.map fun c => c.head.heading).foldl Heading.join hop.heading := by
  induction chains generalizing hop with
  | nil => rfl
  | cons c rest ih =>
    rw [List.foldl_cons, ih, List.map_cons, List.foldl_cons]
    rfl

/-- Where hops are joined, one of them tells of a clash, or two of them clash. -/
theorem clash_foldl_absorb (hop : Hop) (hops : List Hop) :
    (hops.foldl Hop.absorb hop).clash = true ↔ (∃ a ∈ hop :: hops, a.clash = true) ∨
      ∃ a ∈ hop :: hops, ∃ b ∈ hop :: hops, a.heading.clashes b.heading = true := by
  induction hops generalizing hop with
  | nil => simp [Heading.clashes_self]
  | cons other rest ih =>
    rw [List.foldl_cons, ih]
    cases hclash : hop.heading.clashes other.heading with
    | true =>
      refine iff_of_true (Or.inl ⟨_, List.mem_cons_self, ?_⟩)
        (Or.inr ⟨hop, by simp, other, by simp, hclash⟩)
      rw [Hop.absorb, hclash, Bool.true_or, Bool.or_true]
    | false =>
      -- What the two clash with is what they clash with together.
      have hleft := Heading.clashes_join_left hclash
      have hright : ∀ c, Heading.clashes c (hop.heading.join other.heading)
          = (c.clashes hop.heading || c.clashes other.heading) := by
        intro c
        rw [Heading.clashes_comm, hleft, Heading.clashes_comm c, Heading.clashes_comm c]
      have hclash' : other.heading.clashes hop.heading = false := by
        rw [Heading.clashes_comm, hclash]
      simp only [List.mem_cons, exists_eq_or_imp, Hop.absorb, hclash, hleft, hright,
        Heading.clashes_self, Bool.or_eq_true, Bool.false_or]
      grind

/-- A joint hop asks for what the first hops of its chains ask for. -/
theorem sumsUp_jointHop (request : String) (first : Chain) (others : List Chain) :
    (jointHop request first others).SumsUp ((first :: others).map head) := by
  have hmap : ∀ p : Hop → Prop, (∃ a ∈ (first :: others).map head, p a) ↔
      ∃ c ∈ first :: others, p c.head := fun p => by
    simp only [List.mem_map, exists_exists_and_eq_and]
  constructor
  · rw [hmap]
    exact ⟨exists_of_explicit_jointHop, fun ⟨c, hc, h⟩ => explicit_jointHop hc h⟩
  · rw [hmap]
    exact forced_jointHop
  · rw [hmap]
    exact inverted_jointHop
  · have hheading := heading_foldl_absorb first.head others
    rw [List.map_map, List.map_cons, List.foldl_cons]
    exact hheading
  · have hclash := clash_foldl_absorb first.head (others.map head)
    rw [List.foldl_map] at hclash
    simp only [Heading.clashes_iff] at hclash
    exact hclash

/-! ## The name of a joint hop -/

/-- The smaller of two names is at most either. -/
theorem smallerName_le {a b : Option String} {m : String} (h : a = some m ∨ b = some m) :
    ∃ n, smallerName a b = some n ∧ n ≤ m := by
  rcases a with _ | x
  · exact ⟨m, by simpa [smallerName] using h, String.le_refl m⟩
  · rcases b with _ | y
    · exact ⟨m, by simpa [smallerName] using h, String.le_refl m⟩
    · simp only [Option.some.injEq] at h
      by_cases hlt : y < x
      · refine ⟨y, by simp [smallerName, hlt], ?_⟩
        rcases h with rfl | rfl
        · exact String.not_lt.1 (Std.Asymm.asymm _ _ hlt)
        · exact String.le_refl y
      · refine ⟨x, by simp [smallerName, hlt], ?_⟩
        rcases h with rfl | rfl
        · exact String.le_refl x
        · exact String.not_lt.1 hlt

/-- No name that is joined is smaller than what the names are joined to. -/
theorem exists_name_foldl_absorb_le {chains : List Chain} {m : String} (hop : Hop)
    (hm : hop.name = some m ∨ ∃ c ∈ chains, c.head.name = some m) :
    ∃ n, (chains.foldl (fun hop c => hop.absorb c.head) hop).name = some n ∧ n ≤ m := by
  induction chains generalizing hop m with
  | nil =>
    rcases hm with hm | ⟨c, hc, -⟩
    · exact ⟨m, hm, String.le_refl m⟩
    · cases hc
  | cons c rest ih =>
    rw [List.foldl_cons]
    rw [List.exists_mem_cons_iff, ← or_assoc] at hm
    rcases hm with hm | hm
    · obtain ⟨k, hk, hle⟩ := smallerName_le hm
      obtain ⟨n, hn, hle'⟩ := ih (hop.absorb c.head) (Or.inl hk)
      exact ⟨n, hn, String.le_trans hle' hle⟩
    · exact ih _ (Or.inr hm)

/-- A joint hop has the smallest of the names that its chains have at their first hops. -/
theorem smallest_jointHop (request : String) (first : Chain) (others : List Chain) :
    IsSmallest request (((first :: others).map head).filterMap Hop.name)
      (jointHop request first others).name := by
  rw [List.filterMap_map]
  rcases name_jointHop request first others with ⟨hnone, hname⟩ | ⟨c, hc, n, hn, hname⟩
  · exact Or.inl ⟨List.filterMap_eq_nil_iff.2 hnone, hname⟩
  · refine Or.inr ⟨n, List.mem_filterMap.2 ⟨c, hc, hn⟩, hname, fun m hm => ?_⟩
    obtain ⟨c', hc', hm'⟩ := List.mem_filterMap.1 hm
    have hsupplied : first.head.name = some m ∨ ∃ c ∈ others, c.head.name = some m := by
      rcases List.mem_cons.1 hc' with rfl | hc'
      · exact Or.inl hm'
      · exact Or.inr ⟨c', hc', hm'⟩
    obtain ⟨k, hk, hle⟩ := exists_name_foldl_absorb_le _ hsupplied
    have hjoint : (jointHop request first others).name = some k := by
      simp only [jointHop, hk, Option.getD_some]
    cases hname.symm.trans hjoint
    exact hle

end Chain

end Interconnect
