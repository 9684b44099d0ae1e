import Interconnect.Proofs.Route.Joining

/-!
# What reducing cuts off

Reducing cuts hops off the top of a tree, each of which was not chosen and has one branch
(`CutFrom`).  It stops at a hop that was chosen or where the tree forks.

Cutting loses nothing: the hops that were chosen and the forks of the tree are in what is left,
and in the same order (`IsCut`).  Nothing is left exactly of a plain line.  Of any other tree there
is one part that can be left, and reducing it again leaves it as it is.
-/

namespace Interconnect.HopTree

/-! ## The parts of a tree -/

mutual

/-- The parts of a tree in pre-order: each hop with the branches below it. -/
def parts : HopTree → List HopTree
  | node hop branches => node hop branches :: partsAll branches

/-- The parts of several trees, one tree after the other. -/
def partsAll : List HopTree → List HopTree
  | [] => []
  | t :: rest => t.parts ++ partsAll rest

end

theorem parts_node (hop : Hop) (branches : List HopTree) :
    (node hop branches).parts = node hop branches :: branches.flatMap parts := by
  have hall : ∀ trees, partsAll trees = trees.flatMap parts := by
    intro trees
    induction trees with
    | nil => rfl
    | cons t rest ih => rw [partsAll, ih, List.flatMap_cons]
  rw [parts, hall]

mutual

/-- The topmost hops of the parts are the hops of the tree. -/
theorem map_hop_parts (t : HopTree) : t.parts.map hop = t.hops := by
  cases t with
  | node top branches => rw [parts, List.map_cons, map_hop_partsAll branches, hops_node, hop]

theorem map_hop_partsAll (trees : List HopTree) :
    (partsAll trees).map hop = trees.flatMap hops := by
  cases trees with
  | nil => rfl
  | cons t rest =>
    rw [partsAll, List.map_append, map_hop_parts t, map_hop_partsAll rest, List.flatMap_cons]

end

/-- Each hop that a tree passes is on top of a part. -/
theorem Passes.exists_part {t : HopTree} {top : Hop} (hp : t.Passes top) :
    ∃ part ∈ t.parts, part.hop = top := by
  rw [← mem_hops, ← map_hop_parts] at hp
  exact List.mem_map.1 hp

/-- The parts whose topmost hop the caller chose, in pre-order. -/
def chosen (t : HopTree) : List HopTree :=
  t.parts.filter fun part => part.hop.explicit

/-- The parts that fork on top, in pre-order. -/
def forks (t : HopTree) : List HopTree :=
  t.parts.filter fun part => 1 < part.branches.length

/-- The tree is a single line of hops that the caller did not choose. -/
def IsPlain (t : HopTree) : Prop :=
  ∀ part ∈ t.parts, part.hop.explicit = false ∧ part.branches.length ≤ 1

theorem isPlain_node {hop : Hop} {branches : List HopTree} :
    (node hop branches).IsPlain ↔
      (hop.explicit = false ∧ branches.length ≤ 1) ∧ ∀ b ∈ branches, b.IsPlain := by
  simp only [IsPlain, parts_node, List.forall_mem_cons, List.mem_flatMap]
  refine and_congr_right fun _ => ?_
  constructor
  · exact fun h b hb part hpart => h part ⟨b, hb, hpart⟩
  · rintro h part ⟨b, hb, hpart⟩
    exact h b hb part hpart

/-! ## Cutting -/

/-- The tree is left of another one when hops are cut off on top, each of which was not chosen and
had one branch. -/
inductive CutFrom (t : HopTree) : HopTree → Prop where
  | whole : CutFrom t t
  | cut {hop : Hop} {branch : HopTree} : hop.explicit = false → CutFrom t branch →
    CutFrom t (.node hop [branch])

/-- The caller chose the topmost hop, or the tree forks there. -/
def IsTop (t : HopTree) : Prop :=
  t.hop.explicit = true ∨ 1 < t.branches.length

section CutFrom

variable {t r r' : HopTree}

/-- Cutting leaves all parts with a property that no hop has that is cut off. -/
theorem CutFrom.filter_parts (h : r.CutFrom t) {P : HopTree → Bool}
    (hcut : ∀ hop branch, hop.explicit = false → P (node hop [branch]) = false) :
    r.parts.filter P = t.parts.filter P := by
  induction h with
  | whole => rfl
  | @cut hop branch hexplicit _ ih =>
    rw [ih, parts_node, List.flatMap_singleton, List.filter_cons_of_neg]
    rw [hcut hop branch hexplicit]
    exact Bool.false_ne_true

/-- Nothing can be cut off where cutting has to stop. -/
theorem IsTop.eq_of_cutFrom (htop : t.IsTop) (h : r.CutFrom t) : r = t := by
  cases h with
  | whole => rfl
  | cut hexplicit _ =>
    rcases htop with hchosen | hmany
    · exact absurd (hexplicit.symm.trans hchosen) Bool.false_ne_true
    · exact absurd hmany (Nat.lt_irrefl 1)

/-- There is one place where cutting can stop. -/
theorem CutFrom.unique (h : r.CutFrom t) (htop : r.IsTop) (h' : r'.CutFrom t)
    (htop' : r'.IsTop) : r' = r := by
  induction h with
  | whole => exact htop.eq_of_cutFrom h'
  | cut hexplicit hrest ih =>
    cases h' with
    | whole => exact (htop'.eq_of_cutFrom (.cut hexplicit hrest)).symm
    | cut _ hrest' => exact ih hrest'

end CutFrom

/-! ## Reducing -/

/-- Cutting stops at a hop that was chosen or where the tree forks. -/
theorem cutFrom_of_reduce {tree t : HopTree} (hok : tree.reduce = some t) :
    t.CutFrom tree ∧ t.IsTop := by
  fun_induction reduce tree with
  | case1 hop branch hexplicit =>
    cases hok
    exact ⟨.whole, Or.inl hexplicit⟩
  | case2 hop branch hnot ih =>
    obtain ⟨hcut, htop⟩ := ih hok
    exact ⟨.cut (Bool.eq_false_iff.2 hnot) hcut, htop⟩
  | case3 hop branches _ hkeep =>
    cases hok
    rw [Bool.or_eq_true, decide_eq_true_eq] at hkeep
    exact ⟨.whole, hkeep⟩
  | case4 hop branches _ hdrop => cases hok

/-- Nothing is left exactly of a plain line. -/
theorem reduce_eq_none_iff {t : HopTree} : t.reduce = none ↔ t.IsPlain := by
  fun_induction reduce t with
  | case1 hop branch hexplicit =>
    refine iff_of_false (Option.some_ne_none _) fun hplain => ?_
    rw [(isPlain_node.1 hplain).1.1] at hexplicit
    cases hexplicit
  | case2 hop branch hnot ih =>
    rw [ih, isPlain_node, List.forall_mem_singleton]
    exact (and_iff_right ⟨Bool.eq_false_iff.2 hnot, Nat.le_refl 1⟩).symm
  | case3 hop branches _ hkeep =>
    refine iff_of_false (Option.some_ne_none _) fun hplain => ?_
    obtain ⟨⟨hexplicit, hfew⟩, -⟩ := isPlain_node.1 hplain
    rw [hexplicit, Bool.false_or, decide_eq_true_eq] at hkeep
    exact absurd hkeep (Nat.not_lt.2 hfew)
  | case4 hop branches hnot hdrop =>
    rw [Bool.or_eq_true, decide_eq_true_eq, not_or] at hdrop
    obtain ⟨hexplicit, hfew⟩ := hdrop
    -- A single branch is another case, and so there is none.
    obtain rfl : branches = [] := by
      rcases branches with _ | ⟨b, _ | ⟨b', rest⟩⟩
      · rfl
      · exact absurd rfl (hnot b)
      · simp at hfew
    exact iff_of_true rfl (isPlain_node.2
      ⟨⟨Bool.eq_false_iff.2 hexplicit, Nat.zero_le 1⟩, List.forall_mem_nil _⟩)

/-- A tree stays as it is where cutting has to stop. -/
theorem IsTop.reduce_eq {t : HopTree} (htop : t.IsTop) : t.reduce = some t := by
  cases hreduce : t.reduce with
  | none =>
    obtain ⟨hop, branches⟩ := t
    obtain ⟨⟨hexplicit, hfew⟩, -⟩ := isPlain_node.1 (reduce_eq_none_iff.1 hreduce)
    rcases htop with hchosen | hmany
    · exact absurd (hexplicit.symm.trans hchosen) Bool.false_ne_true
    · exact absurd hmany (Nat.not_lt.2 hfew)
  | some r => rw [htop.eq_of_cutFrom (cutFrom_of_reduce hreduce).1]

/-- A tree with a hop that the caller chose has something left. -/
theorem reduce_isSome_of_passes {tree : HopTree} {hop : Hop} (hp : tree.Passes hop)
    (hexplicit : hop.explicit = true) : tree.reduce.isSome := by
  rw [Option.isSome_iff_ne_none]
  intro hnone
  obtain ⟨part, hpart, rfl⟩ := hp.exists_part
  rw [(reduce_eq_none_iff.1 hnone part hpart).1] at hexplicit
  cases hexplicit

/-- What can be left of a tree: it is cut from the tree, cutting has to stop there, and everything
that was chosen and all forks are still there, in the same order. -/
structure IsCut (t r : HopTree) : Prop where
  cut : r.CutFrom t
  top : r.IsTop
  chosen : r.chosen = t.chosen
  forks : r.forks = t.forks

theorem CutFrom.isCut {t r : HopTree} (h : r.CutFrom t) (htop : r.IsTop) : t.IsCut r where
  cut := h
  top := htop
  chosen := h.filter_parts fun _ _ hexplicit => hexplicit
  forks := h.filter_parts fun _ _ _ => rfl

/-- Of a plain line nothing is left.  Of any other tree something is left, which is the only part
that can be, and of which all is left when it is reduced again. -/
theorem reduce_exact (t : HopTree) :
    (t.IsPlain ∧ t.reduce = none) ∨
      (¬ t.IsPlain ∧ ∃ r, t.reduce = some r ∧ t.IsCut r ∧ (∀ r', t.IsCut r' → r' = r) ∧
        r.reduce = some r) := by
  cases hreduce : t.reduce with
  | none => exact Or.inl ⟨reduce_eq_none_iff.1 hreduce, rfl⟩
  | some r =>
    obtain ⟨hcut, htop⟩ := cutFrom_of_reduce hreduce
    have hplain : ¬ t.IsPlain := by
      rw [← reduce_eq_none_iff, hreduce]
      exact Option.some_ne_none r
    have hunique : ∀ r', t.IsCut r' → r' = r := fun r' h => hcut.unique htop h.cut h.top
    exact Or.inr ⟨hplain, r, rfl, hcut.isCut htop, hunique, IsTop.reduce_eq htop⟩

end Interconnect.HopTree
