import Interconnect.Proofs.Route.Forks
import Interconnect.Proofs.Route.Ordering

/-!
# A merged tree is merged from its lines

The lines of a tree lead from its top to its ends.  A merged tree is ordered: every hop has a name,
and no two branches of a hop have the same place and the same name.  So, when its lines are merged,
the lines that pass a branch are the ones that make up a group, and what they have in common is
joined with itself only.  The lines of a merged tree are therefore merged into the tree, whatever
the name of the request.
-/

namespace Interconnect

namespace Chain

/-- Joining a hop that has a name with itself gives the hop. -/
theorem jointHop_of_head_eq {request : String} {first : Chain} {others : List Chain} {hop : Hop}
    (hheads : ∀ c ∈ first :: others, c.head = hop) (hname : hop.name.isSome) :
    jointHop request first others = hop := by
  obtain ⟨n, hn⟩ := Option.isSome_iff_exists.1 hname
  have hfold : others.foldl (fun hop c => hop.absorb c.head) first.head = hop := by
    rw [hheads first List.mem_cons_self, ← List.foldl_map (f := head) (g := Hop.absorb)]
    refine Joins.foldl_absorbed fun z hz => ?_
    obtain ⟨c, hc, rfl⟩ := List.mem_map.1 hz
    rw [hheads c (List.mem_cons_of_mem _ hc), Hop.absorb_self]
  unfold jointHop
  dsimp only
  rw [hfold, hn, Option.getD_some, ← hn]

end Chain

namespace HopTree

/-! ## Lines -/

mutual

/-- The lines of a tree: the hops from the top to each hop that has no branches. -/
def lines : HopTree → List (List Hop)
  | node hop branches =>
    if branches.isEmpty then [[hop]] else (linesAll branches).map (hop :: ·)

/-- The lines of several trees, one tree after the other. -/
def linesAll : List HopTree → List (List Hop)
  | [] => []
  | t :: rest => t.lines ++ linesAll rest

end

theorem mem_lines {t : HopTree} {line : List Hop} :
    line ∈ t.lines ↔ (t.branches = [] ∧ line = [t.hop]) ∨
      ∃ b ∈ t.branches, ∃ below ∈ b.lines, line = t.hop :: below := by
  have hall : ∀ trees, linesAll trees = trees.flatMap lines := by
    intro trees
    induction trees with
    | nil => rfl
    | cons t rest ih => rw [linesAll, ih, List.flatMap_cons]
  obtain ⟨hop, branches⟩ := t
  rw [lines, hall]
  cases branches with
  | nil => simp [HopTree.branches, HopTree.hop]
  | cons b rest =>
    rw [if_neg (by simp), List.mem_map]
    simp only [HopTree.branches, HopTree.hop, List.mem_flatMap, reduceCtorEq, false_and, false_or]
    constructor
    · rintro ⟨below, ⟨b, hb, hbelow⟩, rfl⟩
      exact ⟨b, hb, below, hbelow, rfl⟩
    · rintro ⟨b, hb, below, hbelow, rfl⟩
      exact ⟨below, ⟨b, hb, hbelow⟩, rfl⟩

/-- Every tree has a line. -/
theorem exists_line : (t : HopTree) → ∃ line, line ∈ t.lines
  | node hop [] => ⟨[hop], mem_lines.2 (Or.inl ⟨rfl, rfl⟩)⟩
  | node hop (b :: rest) => by
    obtain ⟨below, hbelow⟩ := exists_line b
    exact ⟨hop :: below, mem_lines.2 (Or.inr ⟨b, List.mem_cons_self, below, hbelow, rfl⟩)⟩

/-- The lines of a tree as chains. -/
def lineChains (t : HopTree) : List Chain :=
  t.lines.filterMap Chain.ofHops?

section LineChains

variable {t : HopTree} {c lower : Chain}

theorem mem_lineChains : c ∈ t.lineChains ↔ c.hops ∈ t.lines := by
  simp only [lineChains, List.mem_filterMap, Chain.ofHops?_eq_some, exists_eq_right]
  rfl

theorem exists_mem_lineChains (t : HopTree) : ∃ c, c ∈ t.lineChains := by
  obtain ⟨line, hline⟩ := exists_line t
  obtain ⟨below, rfl⟩ : ∃ below, line = t.hop :: below := by
    rcases mem_lines.1 hline with ⟨-, rfl⟩ | ⟨-, -, below, -, rfl⟩
    · exact ⟨[], rfl⟩
    · exact ⟨below, rfl⟩
  exact ⟨{ head := t.hop, tail := below }, mem_lineChains.2 hline⟩

/-- Lines start on top. -/
theorem head_of_mem_lineChains (hc : c ∈ t.lineChains) : c.head = t.hop := by
  rcases mem_lines.1 (mem_lineChains.1 hc) with ⟨-, hline⟩ | ⟨-, -, below, -, hline⟩
  · exact (List.cons.inj hline).1
  · exact (List.cons.inj hline).1

/-- Below the top, the lines are those of the branches. -/
theorem exists_lineChains_iff :
    (∃ c ∈ t.lineChains, c.below? = some lower) ↔ ∃ b ∈ t.branches, lower ∈ b.lineChains := by
  constructor
  · rintro ⟨c, hc, hbelow⟩
    have hline := mem_lineChains.1 hc
    rw [Chain.hops_of_below? hbelow] at hline
    rcases mem_lines.1 hline with ⟨-, heq⟩ | ⟨b, hb, below, hmem, heq⟩
    · cases (List.cons.inj heq).2
    · obtain rfl := (List.cons.inj heq).2
      exact ⟨b, hb, mem_lineChains.2 hmem⟩
  · rintro ⟨b, hb, hlower⟩
    refine ⟨{ head := t.hop, tail := lower.hops }, mem_lineChains.2 ?_, rfl⟩
    exact mem_lines.2 (Or.inr ⟨b, hb, lower.hops, mem_lineChains.1 hlower, rfl⟩)

end LineChains

/-! ## Growing from lines -/

/-- The lines of a branch make up a group of what is below the top. -/
theorem sameMembers_group {t : HopTree} (ht : t.Ordered) {b : HopTree} (hb : b ∈ t.branches)
    {group : List Chain} (hg : group ∈ Chain.groups t.lineChains) {lower : Chain}
    (hlower : lower ∈ group) (hline : lower ∈ b.lineChains) :
    SameMembers group b.lineChains := by
  obtain ⟨x, hx⟩ := Chain.oneStart_of_mem_groups hg
  intro other
  constructor
  · intro hother
    obtain ⟨c, hc, hbelow⟩ := Chain.exists_of_mem_groups hg hother
    obtain ⟨b', hb', hline'⟩ := exists_lineChains_iff.1 ⟨c, hc, hbelow⟩
    have hobject : b'.hop.object = b.hop.object := by
      rw [← head_of_mem_lineChains hline', ← head_of_mem_lineChains hline, hx other hother,
        hx lower hlower]
    have hname : b'.hop.name = b.hop.name := by
      obtain ⟨m, hm⟩ := Option.isSome_iff_exists.1 (ht.of_mem_branches hb').isSome_name
      obtain ⟨n, hn⟩ := Option.isSome_iff_exists.1 (ht.of_mem_branches hb).isSome_name
      have hagree := Chain.agrees_of_mem_groups hg other hother lower hlower
        (by rw [head_of_mem_lineChains hline', hm]) (by rw [head_of_mem_lineChains hline, hn])
      rw [hm, hn, hagree]
    rw [← eq_of_pairwise_before ht.pairwise hb' hb hobject hname]
    exact hline'
  · intro hother
    obtain ⟨c, hc, hbelow⟩ := exists_lineChains_iff.2 ⟨b, hb, hother⟩
    obtain ⟨group', hg', hother'⟩ := Chain.exists_mem_groups hc hbelow
    have hhead : other.head = lower.head := by
      rw [head_of_mem_lineChains hother, head_of_mem_lineChains hline]
    rw [Chain.eq_of_alike hg hg' hlower hother' (by rw [hhead]) (by rw [hhead])]
    exact hother'

/-- Growing the lines of a tree joins its topmost hop with itself. -/
theorem exists_cons_lineChains (request : String) {t : HopTree} (ht : t.Ordered) :
    ∃ first others, t.lineChains = first :: others ∧
      Chain.jointHop request first others = t.hop := by
  obtain ⟨c, hc⟩ := exists_mem_lineChains t
  obtain ⟨first, others, hchains⟩ := List.exists_cons_of_ne_nil (List.ne_nil_of_mem hc)
  refine ⟨first, others, hchains, Chain.jointHop_of_head_eq (fun c hc => ?_) ht.isSome_name⟩
  rw [← hchains] at hc
  exact head_of_mem_lineChains hc

/-- The lines of a branch are shorter. -/
theorem length_tail_le_of_mem_branches {t : HopTree} {height : Nat}
    (hheight : ∀ c ∈ t.lineChains, c.tail.length ≤ height + 1) {b : HopTree}
    (hb : b ∈ t.branches) : ∀ c ∈ b.lineChains, c.tail.length ≤ height := by
  intro lower hlower
  obtain ⟨c, hc, hbelow⟩ := exists_lineChains_iff.2 ⟨b, hb, hlower⟩
  have hlength := hheight c hc
  rw [Chain.below?_eq_some.1 hbelow, List.length_cons] at hlength
  exact Nat.le_of_succ_le_succ hlength

/-- Where all lines end, there are no branches. -/
theorem branches_eq_nil {t : HopTree} (hends : ∀ c ∈ t.lineChains, c.tail.length ≤ 0) :
    t.branches = [] := by
  rw [List.eq_nil_iff_forall_not_mem]
  intro b hb
  obtain ⟨lower, hlower⟩ := exists_mem_lineChains b
  obtain ⟨c, hc, hbelow⟩ := exists_lineChains_iff.2 ⟨b, hb, hlower⟩
  have hlength := hends c hc
  rw [Chain.below?_eq_some.1 hbelow] at hlength
  cases hlength

/-- If the lines of each branch become the branch, then the groups of what is below the top become
the branches, provided that they stand in order. -/
theorem filterMap_groups {t : HopTree} (ht : t.Ordered) {f : List Chain → Option HopTree}
    (hf : ∀ group ∈ Chain.groups t.lineChains, ∀ b ∈ t.branches,
      SameMembers group b.lineChains → f group = some b)
    (hpairs : ((Chain.groups t.lineChains).filterMap f).Pairwise Before) :
    (Chain.groups t.lineChains).filterMap f = t.branches := by
  refine hpairs.eq_of_mem_iff ht.pairwise fun b => ?_
  constructor
  · intro hb
    obtain ⟨group, hg, hb⟩ := List.mem_filterMap.1 hb
    obtain ⟨lower, hlower⟩ := List.exists_mem_of_ne_nil group (Chain.ne_nil_of_mem_groups hg)
    obtain ⟨c, hc, hbelow⟩ := Chain.exists_of_mem_groups hg hlower
    obtain ⟨b', hb', hline⟩ := exists_lineChains_iff.1 ⟨c, hc, hbelow⟩
    cases hb.symm.trans (hf group hg b' hb' (sameMembers_group ht hb' hg hlower hline))
    exact hb'
  · intro hb
    obtain ⟨lower, hline⟩ := exists_mem_lineChains b
    obtain ⟨c, hc, hbelow⟩ := exists_lineChains_iff.2 ⟨b, hb, hline⟩
    obtain ⟨group, hg, hlower⟩ := Chain.exists_mem_groups hc hbelow
    have hgroup := sameMembers_group ht hb hg hlower hline
    exact List.mem_filterMap.2 ⟨group, hg, hf group hg b hb hgroup⟩

/-- The lines of an ordered tree grow into the tree. -/
theorem grow_lineChains (request : String) {height : Nat} {t : HopTree} (ht : t.Ordered)
    (hheight : ∀ c ∈ t.lineChains, c.tail.length ≤ height) :
    grow request height t.lineChains = some t := by
  obtain ⟨first, others, hchains, hjoint⟩ := exists_cons_lineChains request ht
  induction height generalizing t first others with
  | zero =>
    rw [hchains, grow, hjoint, ← branches_eq_nil hheight]
    cases t
    rfl
  | succ height ih =>
    have hgrown : grow request (height + 1) t.lineChains
        = some (node t.hop ((Chain.groups t.lineChains).filterMap (grow request height))) := by
      rw [hchains, grow, hjoint]
    have hbranches : (Chain.groups t.lineChains).filterMap (grow request height) = t.branches := by
      refine filterMap_groups ht (fun group hg b hb hgroup => ?_) (grow_ordered hgrown).pairwise
      have hordered := ht.of_mem_branches hb
      obtain ⟨first, others, hchains, hjoint⟩ := exists_cons_lineChains request hordered
      rw [grow_congr request height (Chain.oneStart_of_mem_groups hg) hgroup]
      exact ih hordered (length_tail_le_of_mem_branches hheight hb) first others hchains hjoint
    rw [hgrown, hbranches]
    cases t
    rfl

/-! ## Merging lines -/

/-- The lines of a merged tree, in whatever order and however often, are merged into the tree,
whatever the name of the request. -/
theorem merge_lines {request : String} {chains : List (List Hop)} {tree : HopTree}
    (hmerge : merge request chains = .ok (some tree)) (request' : String) {lines : List (List Hop)}
    (hlines : ∀ line, line ∈ lines ↔ line ∈ tree.lines) :
    merge request' lines = .ok (some tree) := by
  have hordered := grow_ordered (grow_of_merge hmerge rfl).2
  have htree : merge request' tree.lines = .ok (some tree) := by
    have hgrown := grow_lineChains request' hordered (height_le_iff.1 (Nat.le_refl _))
    obtain ⟨first, others, hchains, -⟩ := exists_cons_lineChains request' hordered
    have hone : Chain.OneStart (first :: others) := by
      rw [← hchains]
      exact ⟨tree.hop.object, fun c hc => by rw [head_of_mem_lineChains hc]⟩
    rw [merge_eq_grow request' hchains (find?_eq_none_iff.2 hone), ← hchains, hgrown]
  rcases merge_congr request' hlines with ⟨-, e, -, hfail⟩ | heq
  · rw [htree] at hfail
    cases hfail
  · rw [heq, htree]

/-- The lines backwards, merged for another request. -/
theorem merge_lines_forked :
    ∃ tree, merge "s" forked = .ok (some tree) ∧
      (∀ line, line ∈ tree.lines.reverse ↔ line ∈ tree.lines) ∧
      merge "t" tree.lines.reverse = .ok (some tree) := by
  obtain ⟨tree, hmerge⟩ : ∃ tree, merge "s" forked = .ok (some tree) := ⟨_, rfl⟩
  have hlines : ∀ line, line ∈ tree.lines.reverse ↔ line ∈ tree.lines := fun _ => List.mem_reverse
  exact ⟨tree, hmerge, hlines, merge_lines hmerge "t" hlines⟩

end HopTree

end Interconnect
