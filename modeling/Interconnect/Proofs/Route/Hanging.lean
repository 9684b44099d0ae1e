import Interconnect.Proofs.Route.Merging
import Interconnect.Proofs.Route.Walking

/-!
# Trees hang in the hierarchy

A walk that is turned round descends from a root, one place at a time, to a place that is not
a default instance.  The tree that such chains are merged into hangs in the hierarchy: each of
its branches lies directly below its node, and below a default instance there is a branch at
its module.  No hop gets lost: the tree passes every place that a chain passes, and what the
caller chose stays chosen, also when the tree is reduced.
-/

namespace Interconnect

namespace Store

/-! ## Lists that correspond -/

section Forall₂

variable {α β : Type} {R : α → β → Prop} {xs : List α} {ys : List β}

/-- What is in the first list has a counterpart in the second. -/
theorem exists_right_of_mem (h : List.Forall₂ R xs ys) {x : α} (hx : x ∈ xs) :
    ∃ y ∈ ys, R x y := by
  induction h with
  | nil => cases hx
  | @cons x' y xs ys hxy _ ih =>
    rcases List.mem_cons.1 hx with rfl | hx
    · exact ⟨y, List.mem_cons_self, hxy⟩
    · obtain ⟨y', hy', hrest⟩ := ih hx
      exact ⟨y', List.mem_cons_of_mem y hy', hrest⟩

/-- What is in the second list has a counterpart in the first. -/
theorem exists_left_of_mem (h : List.Forall₂ R xs ys) {y : β} (hy : y ∈ ys) :
    ∃ x ∈ xs, R x y :=
  exists_right_of_mem (R := flip R) h.flip hy

/-- What the first list has at an index has a counterpart at the same index of the second. -/
theorem exists_right_at (h : List.Forall₂ R xs ys) {i : Nat} {x : α} (hx : xs[i]? = some x) :
    ∃ y, ys[i]? = some y ∧ R x y := by
  induction h generalizing i with
  | nil => cases hx
  | @cons x' y xs ys hxy _ ih =>
    cases i with
    | zero =>
      cases hx
      exact ⟨y, rfl, hxy⟩
    | succ i => exact ih hx

/-- What the second list has at an index has a counterpart at the same index of the first. -/
theorem exists_left_at (h : List.Forall₂ R xs ys) {i : Nat} {y : β} (hy : ys[i]? = some y) :
    ∃ x, xs[i]? = some x ∧ R x y :=
  exists_right_at (R := flip R) h.flip hy

/-- A relation in the first list carries over to the second. -/
theorem pairwise_of_forall₂ (h : List.Forall₂ R xs ys) {S : α → α → Prop} {T : β → β → Prop}
    (hxs : xs.Pairwise S) (hst : ∀ {x x' y y'}, R x y → R x' y' → S x x' → T y y') :
    ys.Pairwise T := by
  induction h with
  | nil => exact .nil
  | cons hxy hrest ih =>
    obtain ⟨hfirst, hxs⟩ := List.pairwise_cons.1 hxs
    refine List.pairwise_cons.2 ⟨fun y' hy' => ?_, ih hxs⟩
    obtain ⟨x', hx', hxy'⟩ := exists_left_of_mem hrest hy'
    exact hst hxy hxy' (hfirst x' hx')

/-- Lists that are put together correspond if their pieces do. -/
theorem forall₂_flatMap {γ : Type} {pieces : List γ} {f : γ → List α} {g : γ → List β}
    (h : ∀ x ∈ pieces, List.Forall₂ R (f x) (g x)) :
    List.Forall₂ R (pieces.flatMap f) (pieces.flatMap g) := by
  have hsame : List.Forall₂ (fun x y => x = y ∧ x ∈ pieces) pieces pieces :=
    List.forall₂_same.2 fun x hx => ⟨rfl, hx⟩
  refine List.rel_flatMap hsame ?_
  rintro x y ⟨rfl, hx⟩
  exact h x hx

/-- Where each step has a counterpart within a list, a sequence of steps has one. -/
theorem exists_reflTransGen {S : α → α → Prop} {T : β → β → Prop} {x x' : α} {y : β}
    (hreach : Relation.ReflTransGen S x x') (hy : y ∈ ys) (hxy : R x y)
    (hstep : ∀ {x x' y}, R x y → S x x' → ∃ y' ∈ ys, R x' y' ∧ T y y') :
    ∃ y' ∈ ys, R x' y' ∧ Relation.ReflTransGen T y y' := by
  induction hreach with
  | refl => exact ⟨y, hy, hxy, .refl⟩
  | tail _ hlast ih =>
    obtain ⟨y', -, hxy', hreach⟩ := ih
    obtain ⟨y'', hy'', hxy'', hlast'⟩ := hstep hxy' hlast
    exact ⟨y'', hy'', hxy'', hreach.tail hlast'⟩

end Forall₂

end Store

namespace Chain

/-- The chain goes down the hierarchy, one place at a time, and does not end at the default
instance of a module. -/
structure Descends (s : Store) (c : Chain) : Prop where
  steps : (c.head :: c.tail).IsChain fun a b => s.above? b.object = some (some a.object)
  lands : ∀ hop, (c.head :: c.tail).getLast? = some hop →
    ∀ m, s.frame m ≠ some (false, some hop.object)

theorem ofHops?_eq_some {hops : List Hop} {c : Chain} :
    ofHops? hops = some c ↔ hops = c.head :: c.tail := by
  unfold ofHops?
  cases hops with
  | nil => simp
  | cons hop rest =>
    obtain ⟨head, tail⟩ := c
    simp

/-- Hops, if there are any, are a chain. -/
theorem exists_ofHops? {hops : List Hop} {hop : Hop} (h : hop ∈ hops) :
    ∃ c, ofHops? hops = some c ∧ hop ∈ c.head :: c.tail := by
  cases hops with
  | nil => cases h
  | cons first others => exact ⟨⟨first, others⟩, rfl, h⟩

theorem below?_eq_some {c c' : Chain} : c.below? = some c' ↔ c.tail = c'.head :: c'.tail :=
  ofHops?_eq_some

theorem below?_eq_none {c : Chain} : c.below? = none ↔ c.tail = [] := by
  unfold below? ofHops?
  cases c.tail with
  | nil => simp
  | cons hop rest => simp

/-- The hops of a chain. -/
def hops (c : Chain) : List Hop :=
  c.head :: c.tail

theorem hops_of_below?_none {c : Chain} (h : c.below? = none) : c.hops = [c.head] := by
  rw [hops, below?_eq_none.1 h]

theorem hops_of_below? {c lower : Chain} (h : c.below? = some lower) :
    c.hops = c.head :: lower.hops := by
  rw [hops, below?_eq_some.1 h, hops]

theorem filterMap_map_hops (cs : List Chain) : (cs.map hops).filterMap ofHops? = cs := by
  rw [List.filterMap_map]
  exact List.filterMap_some

/-- Lists of hops are chains if none is empty. -/
theorem exists_eq_map_hops {chains : List (List Hop)} (hfull : ∀ c ∈ chains, c ≠ []) :
    ∃ cs : List Chain, chains = cs.map hops := by
  induction chains with
  | nil => exact ⟨[], rfl⟩
  | cons c rest ih =>
    obtain ⟨hc, hrest⟩ := List.forall_mem_cons.1 hfull
    obtain ⟨head, tail, rfl⟩ := List.exists_cons_of_ne_nil hc
    obtain ⟨cs, rfl⟩ := ih hrest
    exact ⟨{ head, tail } :: cs, rfl⟩

theorem Descends.below {s : Store} {c c' : Chain} (hc : c.Descends s) (h : c.below? = some c') :
    s.above? c'.head.object = some (some c.head.object) ∧ c'.Descends s := by
  have htail := below?_eq_some.1 h
  obtain ⟨hsteps, hlands⟩ := hc
  rw [htail] at hsteps hlands
  obtain ⟨hstep, hrest⟩ := List.isChain_cons_cons.1 hsteps
  refine ⟨hstep, hrest, fun hop hlast => hlands hop ?_⟩
  rw [List.getLast?_cons_cons, hlast]

/-- Something is above every hop of a chain but the first. -/
theorem Descends.exists_above {s : Store} {c : Chain} (hc : c.Descends s) {hop : Hop}
    (h : hop ∈ c.tail) :
    ∃ y, s.above? hop.object = some (some y) := by
  obtain ⟨head, tail⟩ := c
  have hsteps := hc.steps
  clear hc
  dsimp only at h hsteps
  induction tail generalizing head with
  | nil => cases h
  | cons next rest ih =>
    obtain ⟨hstep, hrest⟩ := List.isChain_cons_cons.1 hsteps
    rcases List.mem_cons.1 h with rfl | h
    · exact ⟨head.object, hstep⟩
    · exact ih next h hrest

/-! ## Walks turned round -/

/-- A default instance is an instance of its module, and of no other. -/
theorem target_of_default {s : Store} (hs : s.Coherent) {m inst : Handle}
    (hm : s.frame m = some (false, some inst)) : s.target .placement inst = some m := by
  obtain ⟨i, hi, hlinks, -⟩ := hs.ordinary hm
  cases hi
  exact (hs.linked .placement).mem_links.1 (by simp [hlinks])

/-- The place of an endpoint is no default instance. -/
theorem not_default_of_isPlace {s : Store} (hs : s.Coherent) {h x : Handle} (hx : s.IsPlace h x)
    (m : Handle) : s.frame m ≠ some (false, some x) := by
  intro hm
  have htarget := target_of_default hs hm
  cases hx with
  | itself hf =>
    rw [Store.target_eq_none_of_frame hf] at htarget
    cases htarget
  | inst _ hf =>
    rw [Store.target_eq_none_of_frame hf] at htarget
    cases htarget
  | placement ht hf =>
    rw [ht] at htarget
    cases htarget
    rw [hm] at hf
    cases hf

/-- A walk that is turned round descends. -/
theorem descends_of_walks {s : Store} (hs : s.Coherent) {e : Endpoint} {heading : Heading}
    {hops : List Hop} (hw : s.Walks e heading hops) {c : Chain}
    (hc : ofHops? hops.reverse = some c) : c.Descends s := by
  rw [ofHops?_eq_some] at hc
  constructor
  case steps =>
    obtain ⟨x, hclimbs⟩ := hw.exists_climbs
    rw [← hc, List.isChain_reverse]
    exact (List.isChain_map Hop.object).1 hclimbs.isChain
  case lands =>
    intro hop hlast
    rw [← hc, List.getLast?_reverse] at hlast
    cases hw with
    | climb hplace _ =>
      cases hlast
      exact not_default_of_isPlace hs hplace

/-! ## Every chain is in a group -/

theorem exists_mem_byObject {chains : List Chain} {c : Chain} (hc : c ∈ chains) :
    ∃ group ∈ byObject chains, c ∈ group := by
  unfold byObject
  refine ⟨_, List.mem_map.2 ⟨c.head.object, ?_, rfl⟩, ?_⟩
  · rw [mem_ascending]
    exact List.mem_map.2 ⟨c, hc, rfl⟩
  · simp [hc]

theorem exists_mem_byName {chains : List Chain} {c : Chain} (hc : c ∈ chains) :
    ∃ group ∈ byName chains, c ∈ group := by
  unfold byName
  split
  · exact ⟨chains, by simp, hc⟩
  · rename_i smallest others hnames
    refine ⟨_, List.mem_map.2 ⟨c.head.name.getD smallest, ?_, rfl⟩, by simp [hc]⟩
    cases hname : c.head.name with
    | none => simp
    | some name =>
      rw [Option.getD_some, ← hnames, mem_ascending]
      exact List.mem_filterMap.2 ⟨c, hc, hname⟩

theorem exists_mem_groups {chains : List Chain} {c c' : Chain} (hc : c ∈ chains)
    (h : c.below? = some c') : ∃ group ∈ groups chains, c' ∈ group := by
  obtain ⟨atObject, hobject, hmem⟩ := exists_mem_byObject (List.mem_filterMap.2 ⟨c, hc, h⟩)
  obtain ⟨group, hgroup, hmem⟩ := exists_mem_byName hmem
  exact ⟨group, List.mem_flatMap.2 ⟨atObject, hobject, hgroup⟩, hmem⟩

theorem exists_of_mem_groups {chains group : List Chain} {c' : Chain}
    (hg : group ∈ groups chains) (hc : c' ∈ group) : ∃ c ∈ chains, c.below? = some c' := by
  obtain ⟨atObject, hobject, hname⟩ := List.mem_flatMap.1 hg
  unfold byObject at hobject
  obtain ⟨object, -, rfl⟩ := List.mem_map.1 hobject
  exact List.mem_filterMap.1 (List.mem_filter.1 (mem_of_mem_byName hname hc)).1

/-- Chains that do not go on have no groups below them. -/
theorem groups_eq_nil {chains : List Chain} (h : ∀ c ∈ chains, c.below? = none) :
    groups chains = [] := by
  unfold groups
  rw [List.filterMap_eq_nil_iff.2 h]
  rfl

theorem ne_nil_of_mem_byObject {chains group : List Chain} (hg : group ∈ byObject chains) :
    group ≠ [] := by
  unfold byObject at hg
  obtain ⟨object, hobject, rfl⟩ := List.mem_map.1 hg
  obtain ⟨c, hc, hhead⟩ := List.mem_map.1 (mem_ascending.1 hobject)
  exact List.ne_nil_of_mem (List.mem_filter.2 ⟨hc, by simpa using hhead⟩)

theorem ne_nil_of_mem_byName {chains group : List Chain} (hne : chains ≠ [])
    (hg : group ∈ byName chains) : group ≠ [] := by
  unfold byName at hg
  split at hg
  · rw [List.mem_singleton.1 hg]
    exact hne
  · rename_i smallest others hnames
    obtain ⟨name, hname, rfl⟩ := List.mem_map.1 hg
    rw [← hnames, mem_ascending] at hname
    obtain ⟨c, hc, hhead⟩ := List.mem_filterMap.1 hname
    exact List.ne_nil_of_mem (List.mem_filter.2 ⟨hc, by simp [hhead]⟩)

/-- No group is empty. -/
theorem ne_nil_of_mem_groups {chains group : List Chain} (hg : group ∈ groups chains) :
    group ≠ [] := by
  obtain ⟨atObject, hobject, hname⟩ := List.mem_flatMap.1 hg
  exact ne_nil_of_mem_byName (ne_nil_of_mem_byObject hobject) hname

/-! ## The joint hop -/

theorem object_foldl_absorb (hop : Hop) (chains : List Chain) :
    (chains.foldl (fun hop c => hop.absorb c.head) hop).object = hop.object := by
  induction chains generalizing hop with
  | nil => rfl
  | cons c rest ih => rw [List.foldl_cons, ih]; rfl

theorem explicit_foldl_absorb (hop : Hop) (chains : List Chain) :
    (chains.foldl (fun hop c => hop.absorb c.head) hop).explicit = true ↔
      hop.explicit = true ∨ ∃ c ∈ chains, c.head.explicit = true := by
  induction chains generalizing hop with
  | nil => simp
  | cons c rest ih =>
    rw [List.foldl_cons, ih]
    simp only [Hop.absorb, Bool.or_eq_true, List.mem_cons, exists_eq_or_imp, or_assoc]

theorem object_jointHop (request : String) (first : Chain) (others : List Chain) :
    (jointHop request first others).object = first.head.object :=
  object_foldl_absorb first.head others

/-- The caller chose the joint hop if one of the hops was chosen. -/
theorem explicit_jointHop {request : String} {first c : Chain} {others : List Chain}
    (hc : c ∈ first :: others) (h : c.head.explicit = true) :
    (jointHop request first others).explicit = true := by
  refine (explicit_foldl_absorb first.head others).2 ?_
  rcases List.mem_cons.1 hc with rfl | hc
  · exact Or.inl h
  · exact Or.inr ⟨c, hc, h⟩

end Chain

/-! ## Trees -/

namespace HopTree

/-- Each branch lies directly below its node, and below a default instance there is a branch
at its module. -/
inductive Hangs (s : Store) : HopTree → Prop where
  | node {hop : Hop} {branches : List HopTree} :
    (∀ b ∈ branches, s.above? b.hop.object = some (some hop.object)) →
    (∀ m, s.frame m = some (false, some hop.object) → ∃ b ∈ branches, b.hop.object = m) →
    (∀ b ∈ branches, Hangs s b) → Hangs s (.node hop branches)

/-- The hops of a tree. -/
inductive Passes : HopTree → Hop → Prop where
  | top {hop : Hop} {branches : List HopTree} : Passes (.node hop branches) hop
  | branch {hop hop' : Hop} {branches : List HopTree} {b : HopTree} :
    b ∈ branches → Passes b hop' → Passes (.node hop branches) hop'

theorem passes_hop : (t : HopTree) → Passes t t.hop
  | .node _ _ => .top

/-- The hops of a tree in pre-order. -/
def hops (t : HopTree) : List Hop :=
  (t.listing 0).map Prod.snd

mutual

theorem map_listing (depth : Nat) (t : HopTree) : (t.listing depth).map Prod.snd = t.hops := by
  cases t with
  | node hop branches =>
    unfold hops
    rw [listing, listing, List.map_cons, List.map_cons, map_listingAll (depth + 1) branches,
      map_listingAll (0 + 1) branches]

theorem map_listingAll (depth : Nat) (trees : List HopTree) :
    (listingAll depth trees).map Prod.snd = trees.flatMap hops := by
  cases trees with
  | nil => rfl
  | cons t rest =>
    rw [listingAll, List.map_append, map_listing depth t, map_listingAll depth rest,
      List.flatMap_cons]

end

theorem hops_node (hop : Hop) (branches : List HopTree) :
    (node hop branches).hops = hop :: branches.flatMap hops := by
  rw [hops, listing, List.map_cons, map_listingAll]

theorem passes_of_mem_hops {hop : Hop} : (t : HopTree) → hop ∈ t.hops → t.Passes hop
  | node top branches, hmem => by
    rw [hops_node] at hmem
    rcases List.mem_cons.1 hmem with rfl | hmem
    · exact .top
    · obtain ⟨b, hb, hmem⟩ := List.mem_flatMap.1 hmem
      exact .branch hb (passes_of_mem_hops b hmem)

theorem mem_hops {t : HopTree} {hop : Hop} : hop ∈ t.hops ↔ t.Passes hop := by
  refine ⟨passes_of_mem_hops t, fun hp => ?_⟩
  induction hp with
  | top => simp [hops_node]
  | branch hb _ ih =>
    rw [hops_node]
    exact List.mem_cons_of_mem _ (List.mem_flatMap.2 ⟨_, hb, ih⟩)

/-- The tree passes the place of a hop, as a choice of the caller if the hop is one. -/
def Covers (t : HopTree) (hop : Hop) : Prop :=
  ∃ hop', Passes t hop' ∧ hop'.object = hop.object ∧ (hop.explicit = true → hop'.explicit = true)

theorem Covers.branch {hop hop' : Hop} {branches : List HopTree} {b : HopTree}
    (hb : b ∈ branches) (h : b.Covers hop') : (node hop branches).Covers hop' := by
  obtain ⟨hop'', hp, hrest⟩ := h
  exact ⟨hop'', .branch hb hp, hrest⟩

/-- Only the module of a default instance lies below it. -/
theorem eq_of_above?_default {s : Store} (hs : s.Coherent) {h m inst : Handle}
    (hm : s.frame m = some (false, some inst)) (h' : s.above? h = some (some inst)) : h = m := by
  obtain ⟨d, hd, ht⟩ := Store.target_eq_some_iff.1 (Chain.target_of_default hs hm)
  obtain ⟨i, hi, hmodule⟩ := Object.target_placement_eq_some.1 ht
  rw [hs.eq_module_of_above? hd hi h', hmodule]

/-- A node hangs and covers its chains if each group below it has a branch that does. -/
theorem node_spec {s : Store} (hs : s.Coherent) (request : String) {first : Chain}
    {others : List Chain} (hone : Chain.OneStart (first :: others))
    (hdesc : ∀ c ∈ first :: others, c.Descends s) {f : List Chain → Option HopTree}
    (hf : ∀ group ∈ Chain.groups (first :: others), ∃ b, f group = some b ∧ Hangs s b ∧
      ∀ c ∈ group, b.hop.object = c.head.object ∧ ∀ hop ∈ c.head :: c.tail, b.Covers hop) :
    let tree := node (Chain.jointHop request first others)
      ((Chain.groups (first :: others)).filterMap f)
    Hangs s tree ∧ ∀ c ∈ first :: others, ∀ hop ∈ c.head :: c.tail, tree.Covers hop := by
  obtain ⟨x, hx⟩ := hone
  have hobject : (Chain.jointHop request first others).object = x := by
    rw [Chain.object_jointHop, hx first (by simp)]
  -- Below every chain that goes on there is a branch.
  have hbranch : ∀ c ∈ first :: others, ∀ c', c.below? = some c' →
      ∃ b ∈ (Chain.groups (first :: others)).filterMap f, b.hop.object = c'.head.object ∧
        ∀ hop ∈ c'.head :: c'.tail, b.Covers hop := by
    intro c hc c' hbelow
    obtain ⟨group, hgroup, hmem⟩ := Chain.exists_mem_groups hc hbelow
    obtain ⟨b, hb, -, hcover⟩ := hf group hgroup
    exact ⟨b, List.mem_filterMap.2 ⟨group, hgroup, hb⟩, hcover c' hmem⟩
  refine ⟨.node ?_ ?_ ?_, ?_⟩
  · intro b hb
    obtain ⟨group, hgroup, hfb⟩ := List.mem_filterMap.1 hb
    obtain ⟨b', hb', -, hcover⟩ := hf group hgroup
    rw [hfb] at hb'
    cases hb'
    obtain ⟨c', hc'⟩ := List.exists_mem_of_ne_nil group (Chain.ne_nil_of_mem_groups hgroup)
    obtain ⟨c, hc, hbelow⟩ := Chain.exists_of_mem_groups hgroup hc'
    rw [(hcover c' hc').1, hobject, ← hx c hc]
    exact ((hdesc c hc).below hbelow).1
  · intro m hm
    rw [hobject] at hm
    cases hbelow : first.below? with
    | none =>
      have hlast : (first.head :: first.tail).getLast? = some first.head := by
        rw [Chain.below?_eq_none.1 hbelow]
        rfl
      rw [← hx first (by simp)] at hm
      exact absurd hm ((hdesc first (by simp)).lands first.head hlast m)
    | some c' =>
      obtain ⟨b, hb, hhead, -⟩ := hbranch first (by simp) c' hbelow
      refine ⟨b, hb, ?_⟩
      have habove := ((hdesc first (by simp)).below hbelow).1
      rw [hx first (by simp)] at habove
      rw [hhead, eq_of_above?_default hs hm habove]
  · intro b hb
    obtain ⟨group, hgroup, hfb⟩ := List.mem_filterMap.1 hb
    obtain ⟨b', hb', hhangs, -⟩ := hf group hgroup
    rw [hfb] at hb'
    cases hb'
    exact hhangs
  · intro c hc hop hhop
    rcases List.mem_cons.1 hhop with rfl | hhop
    · exact ⟨_, .top, by rw [hobject, hx c hc], Chain.explicit_jointHop hc⟩
    · cases hbelow : c.below? with
      | none =>
        rw [Chain.below?_eq_none.1 hbelow] at hhop
        cases hhop
      | some c' =>
        obtain ⟨b, hb, -, hcover⟩ := hbranch c hc c' hbelow
        rw [Chain.below?_eq_some.1 hbelow] at hhop
        exact (hcover hop hhop).branch hb

/-- Chains that start at one place and descend far enough are merged into a tree that starts
there, hangs in the hierarchy, and covers them. -/
theorem grow_spec {s : Store} (hs : s.Coherent) (request : String) {height : Nat}
    {chains : List Chain} {x : Handle} (hne : chains ≠ [])
    (hstart : ∀ c ∈ chains, c.head.object = x) (hdesc : ∀ c ∈ chains, c.Descends s)
    (hheight : ∀ c ∈ chains, c.tail.length ≤ height) :
    ∃ tree, grow request height chains = some tree ∧ tree.hop.object = x ∧ Hangs s tree ∧
      ∀ c ∈ chains, ∀ hop ∈ c.head :: c.tail, tree.Covers hop := by
  induction height generalizing chains x with
  | zero =>
    obtain ⟨first, others, rfl⟩ := List.exists_cons_of_ne_nil hne
    have hgroups : Chain.groups (first :: others) = [] := Chain.groups_eq_nil fun c hc =>
      Chain.below?_eq_none.2 (List.length_eq_zero_iff.1 (Nat.le_zero.1 (hheight c hc)))
    have hnode := node_spec hs request ⟨x, hstart⟩ hdesc (f := fun _ => none) (by simp [hgroups])
    rw [hgroups] at hnode
    exact ⟨_, rfl, (Chain.object_jointHop request first others).trans (hstart first (by simp)),
      hnode⟩
  | succ height ih =>
    obtain ⟨first, others, rfl⟩ := List.exists_cons_of_ne_nil hne
    have hnode := node_spec hs request ⟨x, hstart⟩ hdesc (f := grow request height) ?_
    · exact ⟨_, rfl, (Chain.object_jointHop request first others).trans (hstart first (by simp)),
        hnode⟩
    · intro group hgroup
      obtain ⟨y, hy⟩ := Chain.oneStart_of_mem_groups hgroup
      have hbelow : ∀ c' ∈ group, c'.Descends s ∧ c'.tail.length ≤ height := by
        intro c' hc'
        obtain ⟨c, hc, hcc⟩ := Chain.exists_of_mem_groups hgroup hc'
        have hlength := hheight c hc
        rw [Chain.below?_eq_some.1 hcc, List.length_cons] at hlength
        exact ⟨((hdesc c hc).below hcc).2, Nat.le_of_succ_le_succ hlength⟩
      obtain ⟨b, hb, hobject, hhangs, hcover⟩ := ih (Chain.ne_nil_of_mem_groups hgroup) hy
        (fun c' hc' => (hbelow c' hc').1) fun c' hc' => (hbelow c' hc').2
      exact ⟨b, hb, hhangs, fun c' hc' => ⟨hobject.trans (hy c' hc').symm, hcover c' hc'⟩⟩

/-! ## Merging and reducing -/

/-- Chains that descend are merged into a tree that hangs in the hierarchy and covers them. -/
theorem merge_spec {s : Store} (hs : s.Coherent) {request : String} {chains : List (List Hop)}
    {tree : HopTree} (hok : merge request chains = .ok (some tree))
    (hdesc : ∀ c ∈ chains.filterMap Chain.ofHops?, c.Descends s) :
    Hangs s tree ∧
      ∀ c ∈ chains.filterMap Chain.ofHops?, ∀ hop ∈ c.head :: c.tail, tree.Covers hop := by
  obtain ⟨⟨x, hx⟩, hgrow⟩ := grow_of_merge hok rfl
  obtain ⟨tree', htree, -, hspec⟩ := grow_spec hs request (ne_nil_of_grow hgrow) hx hdesc
    (height_le_iff.1 (Nat.le_refl _))
  cases hgrow.symm.trans htree
  exact hspec

/-- What is left of a tree hangs in the hierarchy as the tree does, and keeps what the caller
chose. -/
theorem reduce_spec {s : Store} {tree t : HopTree} (ht : Hangs s tree)
    (hok : tree.reduce = some t) :
    Hangs s t ∧ ∀ hop, Passes tree hop → hop.explicit = true → Passes t hop := by
  induction ht with
  | @node hop branches habove hbelow hbranches ih =>
    have hself : Hangs s (.node hop branches) := .node habove hbelow hbranches
    rw [reduce.eq_def] at hok
    split at hok
    · rename_i hop' branch heq
      cases heq
      split at hok
      · cases hok
        exact ⟨hself, fun _ hp _ => hp⟩
      · rename_i hnot
        obtain ⟨hhangs, hkeep⟩ := ih branch (by simp) hok
        refine ⟨hhangs, fun hop'' hp hexplicit => ?_⟩
        cases hp with
        | top => exact absurd hexplicit hnot
        | branch hb hp =>
          rw [List.mem_singleton.1 hb] at hp
          exact hkeep hop'' hp hexplicit
    · rename_i hop' branches' _ heq
      cases heq
      split at hok
      · cases hok
        exact ⟨hself, fun _ hp _ => hp⟩
      · cases hok

end HopTree

end Interconnect
