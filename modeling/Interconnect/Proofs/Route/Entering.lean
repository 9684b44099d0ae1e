import Interconnect.Proofs.Route.Forks

/-!
# Which chains meet in a hop

Growing a tree regroups the chains at every hop, so which of them meet in a hop is not read off
the hop.  `Enters` follows one chain: it holds of the hops that the chain gets to, together with
what is left of the chain there.

* A chain enters hops of the tree only, and it enters one where it ends.
* Where the tree ends, a chain ends.
* A hop joins exactly the first hops of what is left of the chains that enter it
  (`exists_joint_of_passes`).  That needs the hops of the tree to be apart: otherwise a chain might
  enter an equal hop elsewhere.
-/

namespace Interconnect.HopTree

/-- The chain `c` gets to a hop of the tree that the chains grow into.  There `rest` is left of it,
and the first hop of `rest` is one of those that are joined. -/
inductive Enters (request : String) : Nat → List Chain → Chain → Chain → Hop → Prop where
  | top {height : Nat} {first c : Chain} {others : List Chain} : c ∈ first :: others →
    Enters request height (first :: others) c c (Chain.jointHop request first others)
  | lower {height : Nat} {chains group : List Chain} {c lower rest : Chain} {hop : Hop} :
    c ∈ chains → c.below? = some lower → group ∈ Chain.groups chains →
    Enters request height group lower rest hop → Enters request (height + 1) chains c rest hop

section Enters

variable {request : String} {height : Nat} {chains : List Chain} {c rest : Chain} {hop : Hop}

theorem Enters.mem (h : Enters request height chains c rest hop) : c ∈ chains := by
  cases h with
  | top hc => exact hc
  | lower hc _ _ _ => exact hc

/-- What is left of a chain is an end of it. -/
theorem Enters.suffix (h : Enters request height chains c rest hop) :
    (rest.head :: rest.tail) <:+ (c.head :: c.tail) := by
  induction h with
  | top _ => exact List.suffix_rfl
  | lower _ hbelow _ _ ih =>
    rw [← Chain.below?_eq_some.1 hbelow] at ih
    exact ih.trans (List.suffix_cons _ _)

/-- The first hop of what is left of a chain is a hop of the chain. -/
theorem Enters.head_mem (h : Enters request height chains c rest hop) :
    rest.head ∈ c.head :: c.tail :=
  h.suffix.subset List.mem_cons_self

/-- A hop that was chosen stays chosen. -/
theorem Enters.explicit (h : Enters request height chains c rest hop)
    (hexplicit : rest.head.explicit = true) : hop.explicit = true := by
  induction h with
  | top hc => exact Chain.explicit_jointHop hc hexplicit
  | lower _ _ _ _ ih => exact ih hexplicit

/-- A chain enters a hop at the place of its own hop there. -/
theorem Enters.object_eq (h : Enters request height chains c rest hop)
    (hone : Chain.OneStart chains) : hop.object = rest.head.object := by
  induction h with
  | top hc =>
    obtain ⟨x, hx⟩ := hone
    rw [Chain.object_jointHop, hx _ List.mem_cons_self, hx _ hc]
  | lower _ _ hgroup _ ih => exact ih (Chain.oneStart_of_mem_groups hgroup)

/-- Where the chains agree about the name on top, a chain enters hops by the names that it has. -/
theorem Enters.name_eq (h : Enters request height chains c rest hop)
    (hagrees : Chain.Agrees chains) {n : String} (hn : rest.head.name = some n) :
    hop.name = some n := by
  induction h with
  | @top _ first c others hc =>
    exact Chain.name_jointHop_of_called
      ⟨⟨c, hc, hn⟩, fun c' hc' m hm => hagrees c' hc' c hc hm hn⟩
  | lower _ _ hgroup _ ih => exact ih (Chain.agrees_of_mem_groups hgroup) hn

/-- Chains enter hops of the tree. -/
theorem Enters.passes (h : Enters request height chains c rest hop) {tree : HopTree}
    (hgrow : grow request height chains = some tree) : tree.Passes hop := by
  induction h generalizing tree with
  | @top height _ _ _ _ =>
    cases height with
    | zero =>
      cases hgrow
      exact .top
    | succ height =>
      cases hgrow
      exact .top
  | @lower height chains group c lower rest hop hc _ hgroup _ ih =>
    obtain ⟨first, others, rfl⟩ := List.exists_cons_of_ne_nil (List.ne_nil_of_mem hc)
    obtain ⟨start, tail, rfl⟩ := List.exists_cons_of_ne_nil (Chain.ne_nil_of_mem_groups hgroup)
    obtain ⟨b, hb⟩ := Option.isSome_iff_exists.1 (grow_isSome request height start tail)
    cases hgrow
    exact .branch (List.mem_filterMap.2 ⟨_, hgroup, hb⟩) (ih hb)

/-- What the groups below some chains are made of is as long as the height allows. -/
theorem length_tail_le_of_mem_groups {group : List Chain}
    (hheight : ∀ c ∈ chains, c.tail.length ≤ height + 1) (hgroup : group ∈ Chain.groups chains) :
    ∀ c ∈ group, c.tail.length ≤ height := by
  intro lower hlower
  obtain ⟨c, hc, hbelow⟩ := Chain.exists_of_mem_groups hgroup hlower
  have hlength := hheight c hc
  rw [Chain.below?_eq_some.1 hbelow, List.length_cons] at hlength
  omega

/-- Every chain enters a hop with nothing left but its last hop. -/
theorem exists_enters_end (hheight : ∀ c ∈ chains, c.tail.length ≤ height) (hc : c ∈ chains) :
    ∃ rest hop, Enters request height chains c rest hop ∧ rest.tail = [] := by
  induction height generalizing chains c with
  | zero =>
    obtain ⟨first, others, rfl⟩ := List.exists_cons_of_ne_nil (List.ne_nil_of_mem hc)
    exact ⟨c, _, .top hc, List.length_eq_zero_iff.1 (Nat.le_zero.1 (hheight c hc))⟩
  | succ height ih =>
    cases hbelow : c.below? with
    | none =>
      obtain ⟨first, others, rfl⟩ := List.exists_cons_of_ne_nil (List.ne_nil_of_mem hc)
      exact ⟨c, _, .top hc, Chain.below?_eq_none.1 hbelow⟩
    | some lower =>
      obtain ⟨group, hgroup, hlower⟩ := Chain.exists_mem_groups hc hbelow
      obtain ⟨rest, hop, henters, hend⟩ :=
        ih (length_tail_le_of_mem_groups hheight hgroup) hlower
      exact ⟨rest, hop, .lower hc hbelow hgroup henters, hend⟩

/-- Where the tree ends, a chain ends. -/
theorem exists_enters_of_leaf {tree : HopTree} (hgrow : grow request height chains = some tree)
    (hheight : ∀ c ∈ chains, c.tail.length ≤ height) (hleaf : Within (.node hop []) tree) :
    ∃ c rest, Enters request height chains c rest hop ∧ rest.tail = [] := by
  induction height generalizing chains tree with
  | zero =>
    cases chains with
    | nil => cases hgrow
    | cons first others =>
      cases hgrow
      cases hleaf with
      | refl =>
        have hlength := hheight first List.mem_cons_self
        exact ⟨first, first, .top List.mem_cons_self,
          List.length_eq_zero_iff.1 (Nat.le_zero.1 hlength)⟩
      | branch hb _ => cases hb
  | succ height ih =>
    obtain ⟨first, others, branches, rfl, rfl, -⟩ := exists_node_of_grow hgrow
    have hbranches := branches_of_grow hgrow
    cases hleaf with
    | refl =>
      -- There is no branch, and so there is no group: the chains do not go on.
      have hnone : first.below? = none := by
        cases hbelow : first.below? with
        | none => rfl
        | some lower =>
          obtain ⟨group, hgroup, -⟩ := Chain.exists_mem_groups List.mem_cons_self hbelow
          obtain ⟨b, hb, -⟩ := Store.exists_right_of_mem hbranches hgroup
          cases hb
      exact ⟨first, first, .top List.mem_cons_self, Chain.below?_eq_none.1 hnone⟩
    | branch hb hleaf =>
      obtain ⟨group, hgroup, hb⟩ := Store.exists_left_of_mem hbranches hb
      obtain ⟨lower, rest, henters, hend⟩ :=
        ih hb (length_tail_le_of_mem_groups hheight hgroup) hleaf
      obtain ⟨c, hc, hbelow⟩ := Chain.exists_of_mem_groups hgroup henters.mem
      exact ⟨c, rest, .lower hc hbelow hgroup henters, hend⟩

end Enters

/-! ## The hops that meet -/

section Joint

variable {s : Store} (hs : s.Reachable) {request : String} {P : Handle → String → Prop}
  {height : Nat} {chains : List Chain} {y : Handle} {tree : HopTree} {hop : Hop}

include hs

/-- The branches of two groups have no hop in common. -/
theorem eq_of_passes_groups (hseeds : Seeds s P y (height + 1) chains) {g g' : List Chain}
    (hg : g ∈ Chain.groups chains) (hg' : g' ∈ Chain.groups chains) {b b' : HopTree}
    (hb : grow request height g = some b) (hb' : grow request height g' = some b')
    (hp : b.Passes hop) (hp' : b'.Passes hop) : g = g' := by
  by_contra hne
  obtain ⟨z, habove, hseeds'⟩ := hseeds.group hg
  obtain ⟨z', habove', hseeds''⟩ := hseeds.group hg'
  have hapart : Chain.GroupsApart g g' := (Chain.groups_pairwise chains).forall hg hg' hne
  obtain ⟨m, n, hmn, hm, hn, -⟩ :=
    apart_of_groupsApart hs hseeds' hseeds'' hapart habove habove' hb hb' hp hp' rfl
  rw [hm] at hn
  exact hmn (Option.some.inj hn)

/-- A hop joins the first hops of what is left of the chains that enter it, and no others. -/
theorem exists_joint_of_passes (hseeds : Seeds s P y height chains)
    (hgrow : grow request height chains = some tree) (hp : tree.Passes hop) :
    ∃ first others, hop = Chain.jointHop request first others ∧
      ∀ rest, rest ∈ first :: others ↔ ∃ c, Enters request height chains c rest hop := by
  induction height generalizing chains y tree with
  | zero =>
    cases chains with
    | nil => cases hgrow
    | cons first others =>
      cases hgrow
      cases hp with
      | top =>
        refine ⟨first, others, rfl, fun rest => ⟨fun hrest => ⟨rest, .top hrest⟩, ?_⟩⟩
        rintro ⟨c, henters⟩
        cases henters with
        | top hc => exact hc
      | branch hb _ => cases hb
  | succ height ih =>
    have hhangs := (hseeds.hangs hs.coherent hgrow).2
    obtain ⟨first, others, branches, rfl, rfl, hbranches⟩ := exists_node_of_grow hgrow
    have hall := branches_of_grow hgrow
    cases hp with
    | top =>
      refine ⟨first, others, rfl, fun rest => ⟨fun hrest => ⟨rest, .top hrest⟩, ?_⟩⟩
      rintro ⟨c, henters⟩
      generalize htop : Chain.jointHop request first others = top at henters
      cases henters with
      | top hc => exact hc
      | lower _ _ hgroup henters =>
        -- The topmost hop is not in a branch.
        obtain ⟨b, hb, hgrow'⟩ := Store.exists_right_of_mem hall hgroup
        exact absurd (by rw [htop]) (hhangs.ne_top hs hb (henters.passes hgrow'))
    | @branch _ _ _ b hb hp =>
      obtain ⟨group, hgroup, hgrow'⟩ := Store.exists_left_of_mem hall hb
      obtain ⟨z, -, hlower⟩ := hseeds.group hgroup
      obtain ⟨first', others', heq, hjoint⟩ := ih hlower hgrow' hp
      refine ⟨first', others', heq, fun rest => ?_⟩
      rw [hjoint]
      constructor
      · rintro ⟨lower, henters⟩
        obtain ⟨c, hc, hbelow⟩ := Chain.exists_of_mem_groups hgroup henters.mem
        exact ⟨c, .lower hc hbelow hgroup henters⟩
      · rintro ⟨c, henters⟩
        have hne := hhangs.ne_top hs hb hp
        cases henters with
        | top hc => exact absurd rfl hne
        | lower hc hbelow hgroup' henters =>
          obtain ⟨b', -, hgrow''⟩ := Store.exists_right_of_mem hall hgroup'
          have heq' := eq_of_passes_groups hs hseeds hgroup hgroup' hgrow' hgrow'' hp
            (henters.passes hgrow'')
          subst heq'
          exact ⟨_, henters⟩

end Joint

end Interconnect.HopTree
