import Interconnect.Proofs.Route.Forks

/-!
# Headings that meet

Where chains are joined into a hop, their headings meet.  `Settled` says what they amount to and
whether they clash, in terms of which headings there are and not of the order in which they are
joined.

All hops of a chain have one heading.  Below a default instance all chains go on to its module, and
so, if the tree does not fork there, the same headings meet at both (`Doorway`).  In the same way a
name that is forced at the one is forced at the other.
-/

namespace Interconnect

namespace Heading

/-- The headings amount to `a`, and `clash` says whether two different ones are set. -/
structure Settled (heads : Heading → Prop) (a : Heading) (clash : Bool) : Prop where
  up : a = .up ↔ heads .up ∧ ¬ heads .down ∧ ¬ heads .bidir
  down : a = .down ↔ heads .down ∧ ¬ heads .up ∧ ¬ heads .bidir
  bidir : a = .bidir ↔ heads .bidir ∨ heads .up ∧ heads .down
  clash : clash = true ↔
    heads .up ∧ heads .down ∨ heads .up ∧ heads .bidir ∨ heads .down ∧ heads .bidir

namespace Settled

variable {heads heads' : Heading → Prop} {a a' : Heading} {clash clash' : Bool}

theorem congr (h : Settled heads a clash) (hsame : ∀ x, heads x ↔ heads' x) :
    Settled heads' a clash := by
  obtain rfl : heads = heads' := funext fun x => propext (hsame x)
  exact h

/-- Headings settle in one way. -/
theorem unique (h : Settled heads a clash) (h' : Settled heads a' clash') :
    a = a' ∧ clash = clash' := by
  constructor
  · have hup := h.up.trans h'.up.symm
    have hdown := h.down.trans h'.down.symm
    have hbidir := h.bidir.trans h'.bidir.symm
    cases a <;> cases a' <;> simp_all
  · rw [Bool.eq_iff_iff, h.clash, h'.clash]

/-- One heading is what it is. -/
theorem single (a : Heading) : Settled (fun x => a = x) a false := by
  constructor <;> cases a <;> simp

/-- One more heading is joined to what the others amount to. -/
theorem join (h : Settled heads a clash) (b : Heading) :
    Settled (fun x => heads x ∨ b = x) (a.join b) (clash || a.clashes b) := by
  obtain ⟨hup, hdown, hbidir, hclash⟩ := h
  cases a <;> cases b <;> constructor <;> grind [Heading.join, Heading.clashes]

end Settled

end Heading

namespace Chain

/-! ## The heading of a joint hop -/

theorem settled_foldl_absorb {heads : Heading → Prop} {hop : Hop} {chains : List Chain}
    (h : Heading.Settled heads hop.heading hop.clash)
    (hclean : ∀ c ∈ chains, c.head.clash = false) :
    let joint := chains.foldl (fun hop c => hop.absorb c.head) hop
    Heading.Settled (fun x => heads x ∨ ∃ c ∈ chains, c.head.heading = x) joint.heading
      joint.clash := by
  induction chains generalizing heads hop with
  | nil => exact h.congr fun x => by simp
  | cons c rest ih =>
    obtain ⟨hc, hrest⟩ := List.forall_mem_cons.1 hclean
    have hjoined : Heading.Settled (fun x => heads x ∨ c.head.heading = x)
        (hop.absorb c.head).heading (hop.absorb c.head).clash := by
      rw [Hop.absorb, hc, Bool.or_false]
      exact h.join c.head.heading
    refine (ih hjoined hrest).congr fun x => ?_
    simp only [List.mem_cons, exists_eq_or_imp, or_assoc]

/-- The headings of the first hops settle at the joint hop. -/
theorem settled_jointHop (request : String) {first : Chain} {others : List Chain}
    (hclean : ∀ c ∈ first :: others, c.head.clash = false) :
    Heading.Settled (fun x => ∃ c ∈ first :: others, c.head.heading = x)
      (jointHop request first others).heading (jointHop request first others).clash := by
  obtain ⟨hfirst, hothers⟩ := List.forall_mem_cons.1 hclean
  have hsingle := Heading.Settled.single first.head.heading
  rw [← hfirst] at hsingle
  refine (settled_foldl_absorb hsingle hothers).congr fun x => ?_
  simp only [List.mem_cons, exists_eq_or_imp]

/-- The hops of the chain have one heading, and no headings have met there. -/
def IsEven (c : Chain) : Prop :=
  ∀ hop ∈ c.head :: c.tail, hop.heading = c.head.heading ∧ hop.clash = false

theorem IsEven.clash {c : Chain} (h : c.IsEven) : c.head.clash = false :=
  (h c.head List.mem_cons_self).2

/-- What is left of an even chain is even. -/
theorem IsEven.of_suffix {c rest : Chain} (h : c.IsEven)
    (hsuffix : (rest.head :: rest.tail) <:+ (c.head :: c.tail)) :
    rest.IsEven ∧ rest.head.heading = c.head.heading := by
  have hhead := (h rest.head (hsuffix.subset List.mem_cons_self)).1
  refine ⟨fun hop hhop => ?_, hhead⟩
  obtain ⟨heading, hclash⟩ := h hop (hsuffix.subset hhop)
  exact ⟨heading.trans hhead.symm, hclash⟩

theorem IsEven.below {c lower : Chain} (h : c.IsEven) (hbelow : c.below? = some lower) :
    lower.IsEven ∧ lower.head.heading = c.head.heading := by
  refine h.of_suffix ?_
  rw [← below?_eq_some.1 hbelow]
  exact List.suffix_cons _ _

end Chain

namespace HopTree

/-- A part of a grown tree is grown from what is left of some of the chains. -/
theorem Within.exists_seeds {s : Store} {request : String} {sub tree : HopTree}
    (h : Within sub tree) {P : Handle → String → Prop} {y : Handle} {height : Nat}
    {chains : List Chain} (hseeds : Seeds s P y height chains)
    (hgrow : grow request height chains = some tree) :
    ∃ y' height' chains', Seeds s P y' height' chains' ∧
      grow request height' chains' = some sub ∧ ∀ c ∈ chains', Chain.IsRest chains c := by
  induction h generalizing y height chains with
  | refl => exact ⟨y, height, chains, hseeds, hgrow, fun c => .of_mem⟩
  | branch hb _ ih =>
    obtain ⟨first, others, _, rfl, heq, hbranches⟩ := exists_node_of_grow hgrow
    cases heq
    obtain ⟨lower, group, rfl, hg, hb⟩ := hbranches _ hb
    obtain ⟨z, -, hlower⟩ := hseeds.group hg
    obtain ⟨y', height', chains', hseeds', hgrow', hrest⟩ := ih hlower hb
    exact ⟨y', height', chains', hseeds', hgrow', fun c hc => (hrest c hc).of_group hg⟩

/-- What is joined at a default instance where the tree does not fork, and at its module: the chains
at the module are what is left of the others. -/
structure Doorway (request : String) (chains : List Chain) (upper lower : Hop) (first : Chain)
    (others : List Chain) (start : Chain) (rest : List Chain) : Prop where
  chains_eq : chains = first :: others
  upper_eq : upper = Chain.jointHop request first others
  lower_eq : lower = Chain.jointHop request start rest
  goes : ∀ c ∈ first :: others, ∃ c' ∈ start :: rest, c.below? = some c'
  comes : ∀ c' ∈ start :: rest, ∃ c ∈ first :: others, c.below? = some c'

section Doorway

variable {s : Store} (hs : s.Coherent) {request : String} {P : Handle → String → Prop} {y : Handle}
  {height : Nat} {chains : List Chain} {tree : HopTree} (hseeds : Seeds s P y height chains)
  (hgrow : grow request height chains = some tree) {m : Handle}
  (hm : s.frame m = some (false, some y)) {b : HopTree} (honly : tree.branches = [b])

include hs hseeds hgrow hm honly

theorem exists_doorway :
    ∃ first others start rest, Doorway request chains tree.hop b.hop first others start rest := by
  obtain ⟨first, others, branches, rfl, rfl, -⟩ := exists_node_of_grow hgrow
  obtain ⟨lower, rfl⟩ := Nat.exists_eq_add_one.2 (hseeds.height_pos hs hm List.mem_cons_self)
  have hall := branches_of_grow hgrow
  rw [honly] at hall
  generalize hgroups : Chain.groups (first :: others) = groups at hall
  cases hall with
  | @cons group _ _ _ hb hnil =>
  cases hnil with
  | nil =>
  have hg : group ∈ Chain.groups (first :: others) := by simp [hgroups]
  obtain ⟨start, rest, _, rfl, rfl, -⟩ := exists_node_of_grow hb
  refine ⟨first, others, start, rest, rfl, rfl, rfl, fun c hc => ?_,
    fun c' hc' => Chain.exists_of_mem_groups hg hc'⟩
  obtain ⟨c', group', hbelow, hg', hc', -⟩ :=
    Chain.exists_lower_of_mem hs hseeds.start hseeds.runs hm hc
  rw [hgroups, List.mem_singleton] at hg'
  exact ⟨c', hg' ▸ hc', hbelow⟩

/-- The same headings meet at the module. -/
theorem heading_eq_of_grow (heven : ∀ c ∈ chains, c.IsEven) :
    b.hop.heading = tree.hop.heading := by
  obtain ⟨first, others, start, rest, h⟩ := exists_doorway hs hseeds hgrow hm honly
  rw [h.chains_eq] at heven
  rw [h.upper_eq, h.lower_eq]
  have hlower : ∀ c' ∈ start :: rest, c'.IsEven := by
    intro c' hc'
    obtain ⟨c, hc, hbelow⟩ := h.comes c' hc'
    exact ((heven c hc).below hbelow).1
  have hupper := Chain.settled_jointHop request fun c hc => (heven c hc).clash
  refine ((Chain.settled_jointHop request fun c hc => (hlower c hc).clash).unique
    (hupper.congr fun x => ?_)).1
  constructor
  · rintro ⟨c, hc, rfl⟩
    obtain ⟨c', hc', hbelow⟩ := h.goes c hc
    exact ⟨c', hc', ((heven c hc).below hbelow).2⟩
  · rintro ⟨c', hc', rfl⟩
    obtain ⟨c, hc, hbelow⟩ := h.comes c' hc'
    exact ⟨c, hc, ((heven c hc).below hbelow).2.symm⟩

/-- The name at the module is forced if it is forced at the default instance. -/
theorem forced_eq_of_grow : b.hop.forced = tree.hop.forced := by
  obtain ⟨first, others, start, rest, h⟩ := exists_doorway hs hseeds hgrow hm honly
  obtain ⟨hstart, hruns, -, -⟩ := hseeds
  rw [h.chains_eq] at hstart hruns
  have hsame : ∀ c ∈ first :: others, ∀ c', c.below? = some c' →
      c.head.forced = c'.head.forced := by
    intro c hc c' hbelow
    obtain ⟨habove, hhanded, -⟩ := (hruns c hc).below hbelow
    rw [hstart c hc] at habove
    refine hhanded.forced_eq ?_
    rw [eq_of_above?_default hs hm habove, hm, Option.isSome_some]
  rw [h.upper_eq, h.lower_eq, Bool.eq_iff_iff, Chain.forced_jointHop, Chain.forced_jointHop]
  constructor
  · rintro ⟨c', hc', hforced⟩
    obtain ⟨c, hc, hbelow⟩ := h.comes c' hc'
    exact ⟨c, hc, (hsame c hc c' hbelow).trans hforced⟩
  · rintro ⟨c, hc, hforced⟩
    obtain ⟨c', hc', hbelow⟩ := h.goes c hc
    exact ⟨c', hc', (hsame c hc c' hbelow).symm.trans hforced⟩

end Doorway

end HopTree

end Interconnect
