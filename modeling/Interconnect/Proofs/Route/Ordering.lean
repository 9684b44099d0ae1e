import Interconnect.Proofs.Route.Separation

/-!
# Branches stand in order

The branches of a merged tree stand in ascending order of their places and, at one place, of their
names (`Before`).  The chains are grouped that way at every hop, and a branch has the place and the
name that its group has.  So no two branches of a hop have the same place and the same name, and a
chain belongs to the group of any chain that has its place and its name (`eq_of_alike`).
-/

namespace Interconnect

namespace Chain

section Groups

variable {chains g g' : List Chain} {c c' : Chain}

/-- Chains of groups that are apart have different places or different names. -/
theorem GroupsApart.ne_or_ne (h : GroupsApart g g') (hone : OneStart g) (hone' : OneStart g')
    (hc : c ∈ g) (hc' : c' ∈ g') :
    c.head.object ≠ c'.head.object ∨ c.head.name ≠ c'.head.name := by
  cases h with
  | places hd hd' hne =>
    obtain ⟨x, hx⟩ := hone
    obtain ⟨x', hx'⟩ := hone'
    rw [hx _ hd, hx' _ hd'] at hne
    rw [hx c hc, hx' c' hc']
    exact Or.inl hne
  | names hne hm hn hall =>
    refine Or.inr fun heq => hne ?_
    rcases hall with hnamed | hnamed
    · exact hn.only c' hc' _ (heq.symm.trans (hnamed c hc))
    · exact (hm.only c hc _ (heq.trans (hnamed c' hc'))).symm

/-- Chains with one place and one name are in one group. -/
theorem eq_of_alike (hg : g ∈ groups chains) (hg' : g' ∈ groups chains) (hc : c ∈ g)
    (hc' : c' ∈ g') (hobject : c.head.object = c'.head.object)
    (hname : c.head.name = c'.head.name) : g = g' := by
  by_contra hne
  rcases ((groups_pairwise chains).forall hg hg' hne).ne_or_ne (oneStart_of_mem_groups hg)
    (oneStart_of_mem_groups hg') hc hc' with hapart | hapart
  · exact hapart hobject
  · exact hapart hname

/-- Of two groups one stands before the other. -/
theorem ascend_or_ascend (hg : g ∈ groups chains) (hg' : g' ∈ groups chains) (hne : g ≠ g') :
    GroupsAscend g g' ∨ GroupsAscend g' g := by
  have hsymm : Std.Symm fun a b => GroupsAscend a b ∨ GroupsAscend b a := ⟨fun _ _ => Or.symm⟩
  have hpairs : (groups chains).Pairwise fun a b => GroupsAscend a b ∨ GroupsAscend b a :=
    (groups_ascending chains).imp Or.inl
  exact hpairs.forall hg hg' hne

/-- Where a group has a chain without a name, no chain at its place has a name that is smaller than
all names in the group. -/
theorem exists_name_le (hg : g ∈ groups chains) (hc : c ∈ g) (hbare : c.head.name = none)
    (hg' : g' ∈ groups chains) (hc' : c' ∈ g') (hobject : c'.head.object = c.head.object)
    {m : String} (hm : c'.head.name = some m) :
    ∃ d ∈ g, ∃ n, d.head.name = some n ∧ n ≤ m := by
  by_cases heq : g = g'
  · exact ⟨c', heq ▸ hc', m, hm, String.le_refl m⟩
  · have hplaces : ∀ {d d' : Chain}, d ∈ g → d' ∈ g' → d.head.object = d'.head.object := by
      intro d d' hd hd'
      obtain ⟨x, hx⟩ := oneStart_of_mem_groups hg
      obtain ⟨x', hx'⟩ := oneStart_of_mem_groups hg'
      rw [hx d hd, hx' d' hd', ← hx c hc, ← hx' c' hc', hobject]
    rcases ascend_or_ascend hg hg' heq with hascend | hascend
    · cases hascend with
      | places hd hd' hlt => exact absurd (hplaces hd hd') (Nat.ne_of_lt hlt)
      | @names k n _ hlt hk hn _ =>
        obtain ⟨d, hd, hdk⟩ := hk.supplied
        rw [hn.only c' hc' m hm]
        exact ⟨d, hd, k, hdk, String.not_lt.1 (Std.Asymm.asymm _ _ hlt)⟩
    · cases hascend with
      | places hd' hd hlt => exact absurd (hplaces hd hd').symm (Nat.ne_of_lt hlt)
      | names _ _ _ _ hall =>
        rw [hall c hc] at hbare
        cases hbare

end Groups

end Chain

namespace HopTree

/-- The one tree stands before the other: it starts at a smaller place, or at the same place with a
smaller name. -/
def Before (a b : HopTree) : Prop :=
  a.hop.object < b.hop.object ∨
    a.hop.object = b.hop.object ∧ ∃ m n, a.hop.name = some m ∧ b.hop.name = some n ∧ m < n

/-- Trees of which one stands before the other start at different places or with different names. -/
theorem Before.ne_or_ne {a b : HopTree} (h : a.Before b) :
    a.hop.object ≠ b.hop.object ∨ a.hop.name ≠ b.hop.name := by
  rcases h with hlt | ⟨-, m, n, hm, hn, hlt⟩
  · exact Or.inl (Nat.ne_of_lt hlt)
  · refine Or.inr fun heq => ?_
    rw [hm, hn] at heq
    cases heq
    exact Std.Irrefl.irrefl m hlt

theorem Before.asymm {a b : HopTree} (h : a.Before b) : ¬ b.Before a := by
  rintro (hlt' | ⟨heq, m', n', hm', hn', hlt'⟩)
  · rcases h with hlt | ⟨heq, -⟩
    · exact Nat.lt_asymm hlt hlt'
    · exact Nat.ne_of_lt hlt' heq.symm
  · rcases h with hlt | ⟨-, m, n, hm, hn, hlt⟩
    · exact Nat.ne_of_lt hlt heq.symm
    · rw [hm] at hn'
      rw [hn] at hm'
      cases hn'
      cases hm'
      exact Std.Asymm.asymm _ _ hlt hlt'

instance : Std.Irrefl Before where
  irrefl _ h := h.asymm h

instance : Std.Antisymm Before where
  antisymm _ _ h h' := absurd h' h.asymm

/-- Of trees that stand in order, no two start at one place with one name. -/
theorem eq_of_pairwise_before {trees : List HopTree} (hpairs : trees.Pairwise Before)
    {a b : HopTree} (ha : a ∈ trees) (hb : b ∈ trees) (hobject : a.hop.object = b.hop.object)
    (hname : a.hop.name = b.hop.name) : a = b := by
  have hsymm : Std.Symm fun a b : HopTree =>
      a.hop.object ≠ b.hop.object ∨ a.hop.name ≠ b.hop.name :=
    ⟨fun _ _ => Or.imp Ne.symm Ne.symm⟩
  have hapart : trees.Pairwise fun a b => a.hop.object ≠ b.hop.object ∨ a.hop.name ≠ b.hop.name :=
    hpairs.imp Before.ne_or_ne
  by_contra hne
  rcases hapart.forall ha hb hne with h | h
  · exact h hobject
  · exact h hname

/-- Every hop has a name, and the branches of every hop stand in order. -/
inductive Ordered : HopTree → Prop where
  | node {hop : Hop} {branches : List HopTree} : hop.name.isSome → branches.Pairwise Before →
    (∀ b ∈ branches, Ordered b) → Ordered (.node hop branches)

namespace Ordered

variable {t : HopTree} (ht : t.Ordered)

include ht

theorem isSome_name : t.hop.name.isSome := by
  cases ht with
  | node hname _ _ => exact hname

theorem pairwise : t.branches.Pairwise Before := by
  cases ht with
  | node _ hpairs _ => exact hpairs

theorem of_mem_branches {b : HopTree} (hb : b ∈ t.branches) : b.Ordered := by
  cases ht with
  | node _ _ hbranches => exact hbranches b hb

end Ordered

section Grow

variable {request : String} {height : Nat} {chains : List Chain} {tree : HopTree}

/-- A tree starts where its chains start. -/
theorem object_of_grow (hone : Chain.OneStart chains)
    (hgrow : grow request height chains = some tree) {c : Chain} (hc : c ∈ chains) :
    tree.hop.object = c.head.object := by
  obtain ⟨x, hx⟩ := hone
  obtain ⟨first, others, branches, rfl, rfl, -⟩ := exists_node_of_grow hgrow
  rw [hop, Chain.object_jointHop, hx first List.mem_cons_self, hx c hc]

/-- Groups that stand in order grow into trees that do. -/
theorem before_of_groupsAscend {g g' : List Chain} (hone : Chain.OneStart g)
    (hone' : Chain.OneStart g') {b b' : HopTree} (hb : grow request height g = some b)
    (hb' : grow request height g' = some b') (h : Chain.GroupsAscend g g') : b.Before b' := by
  cases h with
  | places hc hc' hlt =>
    rw [← object_of_grow hone hb hc, ← object_of_grow hone' hb' hc'] at hlt
    exact Or.inl hlt
  | names hobject hlt hm hn _ =>
    obtain ⟨c, hc, -⟩ := hm.supplied
    obtain ⟨c', hc', -⟩ := hn.supplied
    have heq := hobject c hc c' hc'
    rw [← object_of_grow hone hb hc, ← object_of_grow hone' hb' hc'] at heq
    exact Or.inr ⟨heq, _, _, name_of_grow hm hb, name_of_grow hn hb', hlt⟩

/-- A tree of chains is ordered. -/
theorem grow_ordered (hgrow : grow request height chains = some tree) : tree.Ordered := by
  induction height generalizing chains tree with
  | zero =>
    cases chains with
    | nil => cases hgrow
    | cons first others =>
      cases hgrow
      exact .node rfl .nil nofun
  | succ height ih =>
    cases chains with
    | nil => cases hgrow
    | cons first others =>
      cases hgrow
      refine .node rfl (List.pairwise_filterMap.2 ?_) fun b hb => ?_
      · refine (Chain.groups_ascending _).imp_of_mem fun hg hg' h b hb b' hb' => ?_
        exact before_of_groupsAscend (Chain.oneStart_of_mem_groups hg)
          (Chain.oneStart_of_mem_groups hg') hb hb' h
      · obtain ⟨group, -, hb⟩ := List.mem_filterMap.1 hb
        exact ih hb

end Grow

end HopTree

end Interconnect
