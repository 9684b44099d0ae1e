import Interconnect.Proofs.Route.Entering
import Interconnect.Proofs.Route.Ordering
import Interconnect.Proofs.Route.Summing

/-!
# A merged tree unites its chains

A position in a tree tells on which branch to go on at each hop (`HopTree.at?`).  Every chain that
is merged has a way through the tree, whose steps are the groups that the chain gets into, and each
of its hops lands on a part of the tree at its object.

What a tree does for its chains, it does at every position (`Unites`).  No chain loses a hop, and
no hop of the tree is without a chain.  A chain that has a name for a place goes where the tree has
it, and one that has none goes where the tree has the smallest one that the chains give which have
come the same way.  A hop of the tree asks for what the chains ask for that get there, and for
nothing else.

A hop with its branches is looked at once (`Branching`): what gets to a position below a branch is
what gets to the position in the branch, of the chains of its group.  So what holds of the branches
holds of the tree, and chains grow into a tree that unites them.
-/

namespace Interconnect

namespace HopTree

/-! ## Positions -/

/-- The part of a tree at a position, which tells from the top on which branch to take. -/
def at? (t : HopTree) : List Nat → Option HopTree
  | [] => some t
  | i :: position => t.branches[i]?.bind fun b => b.at? position

theorem at?_cons_eq_some {t part : HopTree} {i : Nat} {position : List Nat} :
    t.at? (i :: position) = some part ↔
      ∃ b, t.branches[i]? = some b ∧ b.at? position = some part :=
  Option.bind_eq_some_iff

/-- Every part of an ordered tree is ordered. -/
theorem Ordered.of_at? {t part : HopTree} (ht : t.Ordered) {position : List Nat}
    (hpart : t.at? position = some part) : part.Ordered := by
  induction position generalizing t with
  | nil =>
    cases hpart
    exact ht
  | cons i position ih =>
    obtain ⟨b, hb, hbelow⟩ := at?_cons_eq_some.1 hpart
    exact ih (ht.of_mem_branches (List.mem_of_getElem? hb)) hbelow

/-! ## The ways of chains -/

section Ways

variable (chains : List (List Hop)) (way : List Hop → List Nat) (position : List Nat)

/-- What is left at a position of the chains that get there, from their hop there on. -/
def rests : List (List Hop) :=
  (chains.filter fun c => position.isPrefixOf (way c)).map fun c => c.drop position.length

/-- The hops of the chains at a position. -/
def hopsAt : List Hop :=
  (rests chains way position).filterMap List.head?

/-- The names that the chains which get to a position have next, at an object. -/
def namesBelow (object : Handle) : List String :=
  (((rests chains way position).filterMap fun rest => rest[1]?).filter
    fun hop => hop.object = object).filterMap Hop.name

end Ways

/-- The hop with this number of a chain lands on the part of the tree to which as many steps of the
way of the chain lead. -/
structure Lands (tree : HopTree) (way : List Hop → List Nat) (chain : List Hop) (i : Nat)
    (hop : Hop) (part : HopTree) : Prop where
  hop_eq : chain[i]? = some hop
  part_eq : tree.at? ((way chain).take i) = some part

/-- The tree unites the chains, each of which goes its way from the top. -/
structure Unites (request : String) (chains : List (List Hop)) (tree : HopTree)
    (way : List Hop → List Nat) : Prop where
  /-- A way leads as far as its chain. -/
  length : ∀ c ∈ chains, c.length = (way c).length + 1
  /-- Each hop lands on a part of the tree at its object. -/
  lands : ∀ chain ∈ chains, ∀ i hop, chain[i]? = some hop →
    ∃ part, tree.Lands way chain i hop part ∧ part.hop.object = hop.object
  /-- The top has the smallest name there is. -/
  top : IsSmallest request ((hopsAt chains way []).filterMap Hop.name) tree.hop.name
  /-- Below the top a hop with a name lands where the tree has this name. -/
  named : ∀ c ∈ chains, ∀ i hop part, tree.Lands way c (i + 1) hop part →
    ∀ n, hop.name = some n → part.hop.name = some n
  /-- Below the top a hop without a name lands where the tree has the smallest name of the hops at
  its object that follow on the hop before it. -/
  unnamed : ∀ c ∈ chains, ∀ i hop part, tree.Lands way c (i + 1) hop part → hop.name = none →
    IsSmallest request (namesBelow chains way ((way c).take i) hop.object) part.hop.name
  /-- Some chain gets to each part. -/
  reached : ∀ position part, tree.at? position = some part → ∃ c ∈ chains, position <+: way c
  /-- Each part asks for what the chains ask for that get to it. -/
  joint : ∀ position part, tree.at? position = some part →
    part.hop.SumsUp (hopsAt chains way position)
  /-- Branches stand in order. -/
  ascending : ∀ position part, tree.at? position = some part → part.branches.Pairwise Before

section Rests

variable {chains chains' : List (List Hop)} {way way' : List Hop → List Nat}
  {position position' : List Nat}

theorem mem_rests {rest : List Hop} :
    rest ∈ rests chains way position ↔
      ∃ c ∈ chains, position <+: way c ∧ c.drop position.length = rest := by
  simp only [rests, List.mem_map, List.mem_filter, List.isPrefixOf_iff_prefix, and_assoc]

/-- Every chain starts at the top. -/
theorem rests_nil : rests chains way [] = chains := by
  unfold rests
  simp

theorem sameMembers_hopsAt
    (h : SameMembers (rests chains way position) (rests chains' way' position')) :
    SameMembers (hopsAt chains way position) (hopsAt chains' way' position') :=
  h.filterMap _

theorem sameMembers_namesBelow
    (h : SameMembers (rests chains way position) (rests chains' way' position')) (object : Handle) :
    SameMembers (namesBelow chains way position object)
      (namesBelow chains' way' position' object) :=
  ((h.filterMap _).filter _).filterMap _

end Rests

/-- The hops at the top are the first ones. -/
theorem hopsAt_nil {chains : List Chain} {way : List Hop → List Nat} :
    hopsAt (chains.map Chain.hops) way [] = chains.map Chain.head := by
  rw [hopsAt, rests_nil, List.filterMap_map, ← List.filterMap_eq_map]
  rfl

/-- The names below the top are those of the second hops. -/
theorem mem_namesBelow_nil {chains : List Chain} {way : List Hop → List Nat} {object : Handle}
    {m : String} :
    m ∈ namesBelow (chains.map Chain.hops) way [] object ↔ ∃ c ∈ chains, ∃ lower,
      c.below? = some lower ∧ lower.head.object = object ∧ lower.head.name = some m := by
  have hsecond : ∀ (c : Chain) hop, c.hops[1]? = some hop ↔
      ∃ lower, c.below? = some lower ∧ lower.head = hop := by
    intro c hop
    cases hbelow : c.below? with
    | none => simp [Chain.hops_of_below?_none hbelow]
    | some lower =>
      rw [Chain.hops_of_below? hbelow]
      simp [Chain.hops]
  rw [namesBelow, rests_nil]
  simp only [List.mem_filterMap, List.mem_filter, List.mem_map, decide_eq_true_eq]
  constructor
  · rintro ⟨hop, ⟨⟨_, ⟨c, hc, rfl⟩, hhop⟩, hobject⟩, hm⟩
    obtain ⟨lower, hbelow, rfl⟩ := (hsecond c hop).1 hhop
    exact ⟨c, hc, lower, hbelow, hobject, hm⟩
  · rintro ⟨c, hc, lower, hbelow, hobject, hm⟩
    exact ⟨lower.head, ⟨⟨_, ⟨c, hc, rfl⟩, (hsecond c _).2 ⟨lower, hbelow, rfl⟩⟩, hobject⟩, hm⟩

/-! ## A hop and its branches -/

section Branching

variable {request : String} {chains : List Chain} {branches : List HopTree}
  {way : List Hop → List Nat} {ways : List Chain → List Hop → List Nat}

/-- Each group of chains below the first hops has a branch that unites it, and the way of a chain
leads into the branch of its group. -/
structure Branching (request : String) (chains : List Chain) (branches : List HopTree)
    (way : List Hop → List Nat) (ways : List Chain → List Hop → List Nat) : Prop where
  unites : List.Forall₂ (fun group b => Unites request (group.map Chain.hops) b (ways group))
    (Chain.groups chains) branches
  ends : ∀ c ∈ chains, c.below? = none → way c.hops = []
  goes : ∀ c ∈ chains, ∀ lower, c.below? = some lower → ∀ i group,
    (Chain.groups chains)[i]? = some group → lower ∈ group →
    way c.hops = i :: ways group lower.hops

namespace Branching

variable (h : Branching request chains branches way ways)

include h

/-- A chain ends at its first hop, or it goes on in a branch. -/
theorem turn {c : Chain} (hc : c ∈ chains) :
    (c.hops = [c.head] ∧ way c.hops = []) ∨ ∃ lower i group b,
      c.hops = c.head :: lower.hops ∧ way c.hops = i :: ways group lower.hops ∧
      (Chain.groups chains)[i]? = some group ∧ lower ∈ group ∧ branches[i]? = some b ∧
      Unites request (group.map Chain.hops) b (ways group) := by
  cases hbelow : c.below? with
  | none => exact Or.inl ⟨Chain.hops_of_below?_none hbelow, h.ends c hc hbelow⟩
  | some lower =>
    obtain ⟨group, hgroup, hlower⟩ := Chain.exists_mem_groups hc hbelow
    obtain ⟨i, hi⟩ := List.mem_iff_getElem?.1 hgroup
    obtain ⟨b, hb, hunites⟩ := Store.exists_right_at h.unites hi
    exact Or.inr ⟨lower, i, group, b, Chain.hops_of_below? hbelow,
      h.goes c hc lower hbelow i group hi hlower, hi, hlower, hb, hunites⟩

/-- Into a branch go the rests of the chains of its group. -/
theorem sameMembers_rests {i : Nat} {group : List Chain}
    (hg : (Chain.groups chains)[i]? = some group) (position : List Nat) :
    SameMembers (rests (group.map Chain.hops) (ways group) position)
      (rests (chains.map Chain.hops) way (i :: position)) := by
  intro rest
  simp only [mem_rests, List.mem_map, exists_exists_and_eq_and, List.length_cons]
  constructor
  · rintro ⟨lower, hlower, hprefix, hrest⟩
    obtain ⟨c, hc, hbelow⟩ := Chain.exists_of_mem_groups (List.mem_of_getElem? hg) hlower
    refine ⟨c, hc, ?_, ?_⟩
    · rw [h.goes c hc lower hbelow i group hg hlower]
      exact List.cons_prefix_cons.2 ⟨rfl, hprefix⟩
    · rw [Chain.hops_of_below? hbelow, List.drop_succ_cons]
      exact hrest
  · rintro ⟨c, hc, hprefix, hrest⟩
    rcases h.turn hc with ⟨-, hway⟩ | ⟨lower, j, group', b, hhops, hway, hg', hlower, -⟩
    · rw [hway] at hprefix
      cases List.prefix_nil.1 hprefix
    · rw [hway] at hprefix
      obtain ⟨rfl, hbelow⟩ := List.cons_prefix_cons.1 hprefix
      cases hg.symm.trans hg'
      rw [hhops, List.drop_succ_cons] at hrest
      exact ⟨lower, hlower, hbelow, hrest⟩

theorem length {c : Chain} (hc : c ∈ chains) : c.hops.length = (way c.hops).length + 1 := by
  rcases h.turn hc with ⟨hhops, hway⟩ | ⟨lower, i, group, b, hhops, hway, -, hlower, -, hunites⟩
  · rw [hway, hhops]
    rfl
  · rw [hway, hhops, List.length_cons, List.length_cons,
      hunites.length _ (List.mem_map_of_mem hlower)]

theorem lands {hop : Hop} (hobject : ∀ c ∈ chains, hop.object = c.head.object) {c : Chain}
    (hc : c ∈ chains) {i : Nat} {own : Hop} (hi : c.hops[i]? = some own) :
    ∃ part, (node hop branches).Lands way c.hops i own part ∧ part.hop.object = own.object := by
  cases i with
  | zero =>
    cases hi
    exact ⟨node hop branches, ⟨rfl, rfl⟩, hobject c hc⟩
  | succ i =>
    rcases h.turn hc with ⟨hhops, -⟩ | ⟨lower, j, group, b, hhops, hway, -, hlower, hb, hunites⟩
    · rw [hhops] at hi
      cases hi
    · have hbelow := hi
      rw [hhops, List.getElem?_cons_succ] at hbelow
      obtain ⟨part, hlands, heq⟩ := hunites.lands _ (List.mem_map_of_mem hlower) i own hbelow
      refine ⟨part, ⟨hi, ?_⟩, heq⟩
      rw [hway, List.take_succ_cons]
      exact at?_cons_eq_some.2 ⟨b, hb, hlands.part_eq⟩

/-- What a hop below the first lands on, it lands on in the branch of its group. -/
theorem lands_below {hop : Hop} {c : Chain} (hc : c ∈ chains) {i : Nat} {own : Hop}
    {part : HopTree} (hlands : (node hop branches).Lands way c.hops (i + 1) own part) :
    ∃ lower j group b, way c.hops = j :: ways group lower.hops ∧
      (Chain.groups chains)[j]? = some group ∧ lower ∈ group ∧
      Unites request (group.map Chain.hops) b (ways group) ∧
      b.Lands (ways group) lower.hops i own part := by
  obtain ⟨hown, hpart⟩ := hlands
  rcases h.turn hc with ⟨hhops, -⟩ | ⟨lower, j, group, b, hhops, hway, hg, hlower, hb, hunites⟩
  · rw [hhops] at hown
    cases hown
  · rw [hhops, List.getElem?_cons_succ] at hown
    rw [hway, List.take_succ_cons] at hpart
    obtain ⟨b', hb', hpart'⟩ := at?_cons_eq_some.1 hpart
    cases hb.symm.trans hb'
    exact ⟨lower, j, group, b, hway, hg, hlower, hunites, hown, hpart'⟩

theorem named {hop : Hop} {c : Chain} (hc : c ∈ chains) {i : Nat} {own : Hop} {part : HopTree}
    (hlands : (node hop branches).Lands way c.hops (i + 1) own part) {n : String}
    (hn : own.name = some n) : part.hop.name = some n := by
  obtain ⟨lower, j, group, b, -, hg, hlower, hunites, hbelow⟩ := h.lands_below hc hlands
  cases i with
  | succ i => exact hunites.named _ (List.mem_map_of_mem hlower) i own part hbelow n hn
  | zero =>
    obtain ⟨hown, hpart⟩ := hbelow
    cases hown
    cases hpart
    have htop := hunites.top
    rw [hopsAt_nil, List.filterMap_map] at htop
    refine htop.eq_of_forall (List.mem_filterMap.2 ⟨lower, hlower, hn⟩) fun m hm => ?_
    obtain ⟨other, hother, hm⟩ := List.mem_filterMap.1 hm
    exact Chain.agrees_of_mem_groups (List.mem_of_getElem? hg) other hother lower hlower hm hn

theorem unnamed {hop : Hop} {c : Chain} (hc : c ∈ chains) {i : Nat} {own : Hop} {part : HopTree}
    (hlands : (node hop branches).Lands way c.hops (i + 1) own part) (hn : own.name = none) :
    IsSmallest request (namesBelow (chains.map Chain.hops) way ((way c.hops).take i) own.object)
      part.hop.name := by
  obtain ⟨lower, j, group, b, hway, hg, hlower, hunites, hbelow⟩ := h.lands_below hc hlands
  cases i with
  | succ i =>
    rw [hway, List.take_succ_cons]
    exact (hunites.unnamed _ (List.mem_map_of_mem hlower) i own part hbelow hn).congr
      (sameMembers_namesBelow (h.sameMembers_rests hg _) _)
  | zero =>
    obtain ⟨hown, hpart⟩ := hbelow
    cases hown
    cases hpart
    have hgroup := List.mem_of_getElem? hg
    obtain ⟨x, hx⟩ := Chain.oneStart_of_mem_groups hgroup
    have htop := hunites.top
    rw [hopsAt_nil, List.filterMap_map] at htop
    refine htop.of_subset (fun m hm => ?_) fun m hm => ?_
    · obtain ⟨other, hother, hm⟩ := List.mem_filterMap.1 hm
      obtain ⟨c', hc', hbelow'⟩ := Chain.exists_of_mem_groups hgroup hother
      exact mem_namesBelow_nil.2
        ⟨c', hc', other, hbelow', (hx other hother).trans (hx lower hlower).symm, hm⟩
    · obtain ⟨c', hc', other, hbelow', hobject, hm⟩ := mem_namesBelow_nil.1 hm
      obtain ⟨group', hgroup', hother⟩ := Chain.exists_mem_groups hc' hbelow'
      obtain ⟨d, hd, n, hdn, hle⟩ :=
        Chain.exists_name_le hgroup hlower hn hgroup' hother hobject hm
      exact ⟨n, List.mem_filterMap.2 ⟨d, hd, hdn⟩, hle⟩

theorem reached {hop : Hop} (hne : chains ≠ []) {position : List Nat} {part : HopTree}
    (hpart : (node hop branches).at? position = some part) :
    ∃ c ∈ chains.map Chain.hops, position <+: way c := by
  cases position with
  | nil =>
    obtain ⟨c, hc⟩ := List.exists_mem_of_ne_nil chains hne
    exact ⟨c.hops, List.mem_map_of_mem hc, List.nil_prefix⟩
  | cons i position =>
    obtain ⟨b, hb, hbelow⟩ := at?_cons_eq_some.1 hpart
    obtain ⟨group, hg, hunites⟩ := Store.exists_left_at h.unites hb
    obtain ⟨c, hc, hprefix⟩ := hunites.reached position part hbelow
    obtain ⟨c', hc', hprefix', -⟩ :=
      mem_rests.1 ((h.sameMembers_rests hg position _).1 (mem_rests.2 ⟨c, hc, hprefix, rfl⟩))
    exact ⟨c', hc', hprefix'⟩

theorem joint {hop : Hop} (hsum : hop.SumsUp (chains.map Chain.head)) {position : List Nat}
    {part : HopTree} (hpart : (node hop branches).at? position = some part) :
    part.hop.SumsUp (hopsAt (chains.map Chain.hops) way position) := by
  cases position with
  | nil =>
    cases hpart
    rw [hopsAt_nil]
    exact hsum
  | cons i position =>
    obtain ⟨b, hb, hbelow⟩ := at?_cons_eq_some.1 hpart
    obtain ⟨group, hg, hunites⟩ := Store.exists_left_at h.unites hb
    exact (hunites.joint position part hbelow).congr
      (sameMembers_hopsAt (h.sameMembers_rests hg position))

end Branching

/-- A tree that chains grow into unites them if its branches unite the groups below. -/
theorem Branching.unites_tree {height : Nat} {tree : HopTree}
    (h : Branching request chains tree.branches way ways) (hone : Chain.OneStart chains)
    (hgrow : grow request height chains = some tree) :
    Unites request (chains.map Chain.hops) tree way := by
  have hordered := grow_ordered hgrow
  have hobject := fun c (hc : c ∈ chains) => object_of_grow hone hgrow hc
  obtain ⟨first, others, branches, rfl, rfl, -⟩ := exists_node_of_grow hgrow
  constructor
  case length =>
    rw [List.forall_mem_map]
    exact fun c hc => h.length hc
  case lands =>
    rw [List.forall_mem_map]
    exact fun c hc i own hi => h.lands hobject hc hi
  case top =>
    rw [hopsAt_nil]
    exact Chain.smallest_jointHop request first others
  case named =>
    rw [List.forall_mem_map]
    exact fun c hc i own part hlands n hn => h.named hc hlands hn
  case unnamed =>
    rw [List.forall_mem_map]
    exact fun c hc i own part hlands hn => h.unnamed hc hlands hn
  case reached => exact fun position part hpart => h.reached (List.cons_ne_nil _ _) hpart
  case joint =>
    exact fun position part hpart =>
      h.joint (Chain.sumsUp_jointHop request first others) hpart
  case ascending => exact fun position part hpart => (hordered.of_at? hpart).pairwise

end Branching

/-! ## Growing and merging -/

/-- The way of a chain: at each hop the number of the group that it goes on with. -/
def course : Nat → List Chain → List Hop → List Nat
  | height + 1, chains, _ :: next :: rest =>
    let i := (Chain.groups chains).findIdx fun group =>
      decide ({ head := next, tail := rest } ∈ group)
    i :: course height ((Chain.groups chains).getD i []) (next :: rest)
  | _, _, _ => []

/-- A chain goes on with its group. -/
theorem course_of_mem (height : Nat) {chains group : List Chain} {c lower : Chain}
    (hbelow : c.below? = some lower) {i : Nat} (hg : (Chain.groups chains)[i]? = some group)
    (hlower : lower ∈ group) :
    course (height + 1) chains c.hops = i :: course height group lower.hops := by
  obtain ⟨hi, hgi⟩ := List.getElem?_eq_some_iff.1 hg
  have hfind : (Chain.groups chains).findIdx (fun group => decide (lower ∈ group)) = i := by
    refine (List.findIdx_eq hi).2 ⟨by rw [hgi]; exact decide_eq_true hlower, fun j hj => ?_⟩
    rw [decide_eq_false_iff_not]
    intro hother
    have hapart := List.pairwise_iff_getElem.1 (Chain.groups_pairwise chains) j i
      (Nat.lt_trans hj hi) hi hj
    rcases hapart.ne_or_ne (Chain.oneStart_of_mem_groups (List.getElem_mem _))
      (Chain.oneStart_of_mem_groups (List.getElem_mem _)) hother (hgi ▸ hlower) with hne | hne
    · exact hne rfl
    · exact hne rfl
  rw [Chain.hops_of_below? hbelow, Chain.hops, course, hfind, List.getD_eq_getElem?_getD, hg,
    Option.getD_some]

/-- Chains that start at one object grow into a tree that unites them. -/
theorem unites_of_grow {request : String} {height : Nat} {chains : List Chain} {tree : HopTree}
    (hone : Chain.OneStart chains) (hheight : ∀ c ∈ chains, c.tail.length ≤ height)
    (hgrow : grow request height chains = some tree) :
    Unites request (chains.map Chain.hops) tree (course height chains) := by
  induction height generalizing chains tree with
  | zero =>
    have hends : ∀ c ∈ chains, c.below? = none := fun c hc =>
      Chain.below?_eq_none.2 (List.length_eq_zero_iff.1 (Nat.le_zero.1 (hheight c hc)))
    have hbranches : tree.branches = [] := by
      cases chains with
      | nil => cases hgrow
      | cons first others =>
        cases hgrow
        rfl
    have hbranching : Branching request chains tree.branches (course 0 chains) (course 0) := by
      refine ⟨?_, fun _ _ _ => rfl, fun c hc lower hbelow => ?_⟩
      · rw [Chain.groups_eq_nil hends, hbranches]
        exact .nil
      · rw [hends c hc] at hbelow
        cases hbelow
    exact hbranching.unites_tree hone hgrow
  | succ height ih =>
    have hall := branches_of_grow hgrow
    have hbranching : Branching request chains tree.branches (course (height + 1) chains)
        (course height) := by
      refine ⟨?_, fun c _ hnone => ?_, fun c _ lower hbelow i group hg hlower => ?_⟩
      · refine List.forall₂_iff_zip.2 ⟨hall.length_eq, fun {group b} hmem => ?_⟩
        have hg := (List.of_mem_zip hmem).1
        exact ih (Chain.oneStart_of_mem_groups hg) (length_tail_le_of_mem_groups hheight hg)
          ((List.forall₂_iff_zip.1 hall).2 hmem)
      · rw [Chain.hops_of_below?_none hnone]
        rfl
      · exact course_of_mem height hbelow hg hlower
    exact hbranching.unites_tree hone hgrow

/-- The objects that chains start at. -/
def starts (chains : List (List Hop)) : List Handle :=
  chains.filterMap fun c => c.head?.map Hop.object

theorem starts_map_hops (cs : List Chain) :
    starts (cs.map Chain.hops) = cs.map fun c => c.head.object := by
  rw [starts, List.filterMap_map, ← List.filterMap_eq_map]
  rfl

/-- Chains that start at one object are merged into a tree that unites them.  Of other chains, the
object that the first starts at is told, and the first one that another starts at. -/
theorem merge_unites (request : String) {chains : List (List Hop)} (hne : chains ≠ [])
    (hfull : ∀ c ∈ chains, c ≠ []) :
    ((∀ a ∈ starts chains, ∀ b ∈ starts chains, a = b) →
      ∃ tree way, merge request chains = .ok (some tree) ∧ Unites request chains tree way) ∧
    ∀ first other, (starts chains).head? = some first →
      (starts chains).find? (· ≠ first) = some other →
      merge request chains = .error { first, other } := by
  obtain ⟨cs, rfl⟩ := Chain.exists_eq_map_hops hfull
  obtain ⟨first, others, rfl⟩ : ∃ first others, cs = first :: others :=
    List.exists_cons_of_ne_nil fun hnil => hne (by rw [hnil]; rfl)
  have hchains := Chain.filterMap_map_hops (first :: others)
  rw [starts_map_hops]
  constructor
  · intro hsame
    have hone : Chain.OneStart (first :: others) :=
      ⟨first.head.object, fun c hc => hsame _ (List.mem_map_of_mem hc) _ List.mem_cons_self⟩
    obtain ⟨tree, hmerge⟩ := merge_together request hchains (find?_eq_none_iff.2 hone)
    exact ⟨tree, _, hmerge, unites_of_grow hone (height_le_iff.1 (Nat.le_refl _))
      (grow_of_merge hmerge hchains).2⟩
  · intro a b ha hb
    obtain rfl : first.head.object = a := Option.some.inj ha
    rw [List.find?_map, List.find?_cons_of_neg (by simp)] at hb
    obtain ⟨c, hc, rfl⟩ := Option.map_eq_some_iff.1 hb
    exact merge_apart request hchains hc

/-- Each name has a branch, and the chain without a name goes on where the smaller one is. -/
example : ∃ tree, merge "s" forked = .ok (some tree) ∧ tree.hop.name = some "s" ∧
    (tree.branches.map fun b => (b.hop.name, b.branches.length)) = [(some "a", 1), (some "b", 0)] :=
  ⟨_, rfl, rfl, rfl⟩

/-- Chains with two names and with none are united. -/
theorem merge_unites_forked :
    forked ≠ [] ∧ (∀ c ∈ forked, c ≠ []) ∧ (∀ a ∈ starts forked, ∀ b ∈ starts forked, a = b) ∧
      ∃ tree way, merge "s" forked = .ok (some tree) ∧ Unites "s" forked tree way := by
  have hne : forked ≠ [] := by decide
  have hfull : ∀ c ∈ forked, c ≠ [] := by decide
  have hsame : ∀ a ∈ starts forked, ∀ b ∈ starts forked, a = b := by decide
  exact ⟨hne, hfull, hsame, (merge_unites "s" hne hfull).1 hsame⟩

end HopTree

end Interconnect
