import Interconnect.Route.Merge
import Mathlib.Data.List.Sort
import Mathlib.Data.List.Forall2

/-!
# Merging does not depend on order

The tree of some chains is the same for every list that has the same members, in whatever
order and however often.  At one object `absorb` is commutative, associative and idempotent,
so the hop at a node only depends on which hops are joined there.  Groups are taken in
ascending order of what distinguishes them, so their order only depends on the members, too.
The tree then follows by induction on its height.

All chains of a group start at one object.  So only the topmost level of a merge can fail, and the
levels below it just grow (`HopTree.mergeLevel_eq_grow`).

So merging has one result for a set of chains: a tree, none, or the failure of chains that start
at different objects (`HopTree.merge_of_same_chains`).  Which two objects the failure tells depends
on the order.
-/

namespace Interconnect

/-- The lists have the same members. -/
def SameMembers {α : Type} (xs ys : List α) : Prop :=
  ∀ x, x ∈ xs ↔ x ∈ ys

namespace SameMembers

variable {α β : Type} {xs ys : List α}

theorem map (h : SameMembers xs ys) (f : α → β) : SameMembers (xs.map f) (ys.map f) := by
  intro y
  simp only [List.mem_map, h _]

theorem filter (h : SameMembers xs ys) (p : α → Bool) :
    SameMembers (xs.filter p) (ys.filter p) := by
  intro y
  simp only [List.mem_filter, h _]

theorem filterMap (h : SameMembers xs ys) (f : α → Option β) :
    SameMembers (xs.filterMap f) (ys.filterMap f) := by
  intro y
  simp only [List.mem_filterMap, h _]

theorem eq_nil_iff (h : SameMembers xs ys) : xs = [] ↔ ys = [] := by
  simp only [List.eq_nil_iff_forall_not_mem, h _]

/-- What is found in one list is there to be found in the other. -/
theorem find?_isSome (h : SameMembers xs ys) (p : α → Bool) :
    (xs.find? p).isSome = (ys.find? p).isSome := by
  rw [Bool.eq_iff_iff, List.find?_isSome, List.find?_isSome]
  simp only [h _]

/-- The ascending list is the same. -/
theorem ascending_eq [LT α] [DecidableLT α] [DecidableEq α] [Std.Asymm (α := α) (· < ·)]
    [Std.Trichotomous (α := α) (· < ·)] [Trans (α := α) (β := α) (γ := α) (· < ·) (· < ·) (· < ·)]
    (h : SameMembers xs ys) : ascending xs = ascending ys := by
  refine (pairwise_ascending xs).eq_of_mem_iff (pairwise_ascending ys) fun x => ?_
  rw [mem_ascending, mem_ascending, h x]

end SameMembers

/-! ## Joining hops -/

theorem smallerName_comm (a b : Option String) : smallerName a b = smallerName b a := by
  cases a with
  | none => cases b <;> rfl
  | some a =>
    cases b with
    | none => rfl
    | some b => grind [smallerName]

theorem smallerName_assoc (a b c : Option String) :
    smallerName (smallerName a b) c = smallerName a (smallerName b c) := by
  cases a with
  | none => cases b <;> cases c <;> rfl
  | some a =>
    cases b with
    | none => cases c <;> rfl
    | some b =>
      cases c with
      | none => by_cases h : b < a <;> simp [smallerName, h]
      | some c => grind [smallerName]

theorem smallerName_self (a : Option String) : smallerName a a = a := by
  cases a with
  | none => rfl
  | some a => simp [smallerName]

theorem Heading.clashes_comm (a b : Heading) : a.clashes b = b.clashes a := by
  cases a <;> cases b <;> rfl

/-- Headings clash somewhere or nowhere, in whatever order they are joined. -/
theorem Heading.clashes_join (a b c : Heading) :
    (a.clashes b || (a.join b).clashes c) = (a.clashes (b.join c) || b.clashes c) := by
  cases a <;> cases b <;> cases c <;> rfl

theorem Heading.clashes_self (a : Heading) : a.clashes a = false := by
  cases a <;> rfl

namespace Hop

theorem absorb_comm {a b : Hop} (h : a.object = b.object) : a.absorb b = b.absorb a := by
  simp only [absorb, h, Heading.join_comm a.heading, smallerName_comm a.name,
    Bool.or_comm a.forced, Bool.or_comm a.inverted, Bool.or_comm a.explicit,
    Heading.clashes_comm a.heading, mk.injEq, true_and]
  rw [Bool.or_comm a.clash, Bool.or_assoc, Bool.or_left_comm]

theorem absorb_assoc (a b c : Hop) : (a.absorb b).absorb c = a.absorb (b.absorb c) := by
  have hclash := Heading.clashes_join a.heading b.heading c.heading
  simp only [absorb, Heading.join_assoc, smallerName_assoc, Bool.or_assoc, mk.injEq, true_and]
  rw [Bool.or_left_comm b.clash, ← Bool.or_assoc (a.heading.clashes b.heading), hclash]
  grind

theorem absorb_self (a : Hop) : a.absorb a = a := by
  simp [absorb, Heading.join_self, smallerName_self, Heading.clashes_self]

end Hop

/-! ## Folding an operation over members -/

section Fold

variable {α : Type} {op : α → α → α}

/-- An operation that is commutative, associative and idempotent on the members of a list, and
stays among what satisfies a condition. -/
structure Joins (P : α → Prop) (op : α → α → α) : Prop where
  closed : ∀ {a b : α}, P a → P b → P (op a b)
  comm : ∀ {a b : α}, P a → P b → op a b = op b a
  assoc : ∀ a b c : α, op (op a b) c = op a (op b c)
  self : ∀ a : α, op a a = a

namespace Joins

variable {P : α → Prop} {x y : α} {xs ys : List α}

theorem foldl_closed (hop : Joins P op) (hx : P x) (hxs : ∀ z ∈ xs, P z) : P (xs.foldl op x) := by
  induction xs generalizing x with
  | nil => exact hx
  | cons z zs ih =>
    rw [List.foldl_cons]
    exact ih (hop.closed hx (hxs z (by simp))) fun w hw => hxs w (by simp [hw])

theorem op_foldl (hop : Joins P op) (a x : α) (xs : List α) :
    xs.foldl op (op a x) = op a (xs.foldl op x) := by
  induction xs generalizing x with
  | nil => rfl
  | cons z zs ih => rw [List.foldl_cons, List.foldl_cons, hop.assoc, ih]

/-- A fold is not changed by joining a member once more. -/
theorem op_mem (hop : Joins P op) (hx : P x) (hxs : ∀ z ∈ xs, P z) {z : α} (hz : z ∈ x :: xs) :
    op (xs.foldl op x) z = xs.foldl op x := by
  induction xs generalizing x with
  | nil =>
    rw [List.mem_singleton.1 hz, List.foldl_nil, hop.self]
  | cons y ys ih =>
    have hy : P y := hxs y (by simp)
    have hys : ∀ w ∈ ys, P w := fun w hw => hxs w (by simp [hw])
    have hP : P z := by
      rcases List.mem_cons.1 hz with rfl | hz
      · exact hx
      · exact hxs z hz
    rw [List.foldl_cons]
    rcases List.mem_cons.1 hz with rfl | hz
    · have hrest := hop.foldl_closed hy hys
      rw [hop.op_foldl, hop.assoc, hop.comm hrest hx, ← hop.assoc, hop.self]
    · rw [hop.op_foldl, hop.assoc, ih hy hys hz]

/-- Joining members to what has absorbed them changes nothing. -/
theorem foldl_absorbed {a : α} (h : ∀ z ∈ xs, op a z = a) : xs.foldl op a = a := by
  induction xs with
  | nil => rfl
  | cons z zs ih =>
    rw [List.foldl_cons, h z (by simp)]
    exact ih fun w hw => h w (by simp [hw])

/-- The fold only depends on the members. -/
theorem foldl_eq (hop : Joins P op) (hP : ∀ z ∈ x :: xs, P z)
    (h : SameMembers (x :: xs) (y :: ys)) : xs.foldl op x = ys.foldl op y := by
  have hx := hP x (by simp)
  have hxs : ∀ z ∈ xs, P z := fun z hz => hP z (by simp [hz])
  have hy := hP y ((h y).2 (by simp))
  have hys : ∀ z ∈ ys, P z := fun z hz => hP z ((h z).2 (by simp [hz]))
  have hleft : op (xs.foldl op x) (ys.foldl op y) = xs.foldl op x := by
    rw [← hop.op_foldl, ← List.foldl_cons]
    exact foldl_absorbed fun z hz => hop.op_mem hx hxs ((h z).2 hz)
  have hright : op (ys.foldl op y) (xs.foldl op x) = ys.foldl op y := by
    rw [← hop.op_foldl, ← List.foldl_cons]
    exact foldl_absorbed fun z hz => hop.op_mem hy hys ((h z).1 hz)
  rw [← hleft, hop.comm (hop.foldl_closed hx hxs) (hop.foldl_closed hy hys), hright]

end Joins

end Fold

namespace Hop

/-- Hops at one object are joined in any order. -/
theorem joins_absorb (object : Handle) : Joins (fun hop : Hop => hop.object = object) absorb where
  closed ha _ := ha
  comm ha hb := absorb_comm (ha.trans hb.symm)
  assoc := absorb_assoc
  self := absorb_self

end Hop

/-! ## The tree of some chains -/

namespace Chain

/-- The chains start at one object. -/
def OneStart (chains : List Chain) : Prop :=
  ∃ object, ∀ c ∈ chains, c.head.object = object

theorem jointHop_congr (request : String) {first first' : Chain} {others others' : List Chain}
    (hone : OneStart (first :: others))
    (h : SameMembers (first :: others) (first' :: others')) :
    jointHop request first others = jointHop request first' others' := by
  obtain ⟨object, hobject⟩ := hone
  have hfold : (others.map head).foldl Hop.absorb first.head
      = (others'.map head).foldl Hop.absorb first'.head := by
    refine (Hop.joins_absorb object).foldl_eq ?_ ?_
    · rw [← List.map_cons]
      simpa using hobject
    · rw [← List.map_cons, ← List.map_cons]
      exact h.map head
  rw [List.foldl_map, List.foldl_map] at hfold
  unfold jointHop
  rw [hfold]

theorem byObject_congr {chains chains' : List Chain} (h : SameMembers chains chains') :
    List.Forall₂ SameMembers (byObject chains) (byObject chains') := by
  unfold byObject
  rw [(h.map fun c => c.head.object).ascending_eq, List.forall₂_map_left_iff,
    List.forall₂_map_right_iff, List.forall₂_same]
  exact fun object _ => h.filter _

theorem byName_congr {chains chains' : List Chain} (h : SameMembers chains chains') :
    List.Forall₂ SameMembers (byName chains) (byName chains') := by
  unfold byName
  rw [(h.filterMap fun c => c.head.name).ascending_eq]
  split
  · exact .cons h .nil
  · rw [List.forall₂_map_left_iff, List.forall₂_map_right_iff, List.forall₂_same]
    exact fun name _ => h.filter _

/-- The groups below some chains correspond, one by one. -/
theorem groups_congr {chains chains' : List Chain} (h : SameMembers chains chains') :
    List.Forall₂ SameMembers (groups chains) (groups chains') := by
  unfold groups
  exact List.rel_flatMap (byObject_congr (h.filterMap below?)) fun _ _ => byName_congr

theorem oneStart_of_mem_byObject {chains group : List Chain} (hg : group ∈ byObject chains) :
    OneStart group := by
  unfold byObject at hg
  obtain ⟨object, -, rfl⟩ := List.mem_map.1 hg
  exact ⟨object, fun c hc => by simpa using (List.mem_filter.1 hc).2⟩

theorem mem_of_mem_byName {chains group : List Chain} (hg : group ∈ byName chains) {c : Chain}
    (hc : c ∈ group) : c ∈ chains := by
  unfold byName at hg
  split at hg
  · rw [List.mem_singleton.1 hg] at hc
    exact hc
  · obtain ⟨name, -, rfl⟩ := List.mem_map.1 hg
    exact (List.mem_filter.1 hc).1

/-- A group below some chains starts at one object. -/
theorem oneStart_of_mem_groups {chains group : List Chain} (hg : group ∈ groups chains) :
    OneStart group := by
  obtain ⟨atObject, hobject, hname⟩ := List.mem_flatMap.1 hg
  obtain ⟨object, hall⟩ := oneStart_of_mem_byObject hobject
  exact ⟨object, fun c hc => hall c (mem_of_mem_byName hname hc)⟩

end Chain

namespace HopTree

/-- The tree that chains grow into if they start at one object. -/
def grow (request : String) : Nat → List Chain → Option HopTree
  | _, [] => none
  | 0, first :: others => some (node (Chain.jointHop request first others) [])
  | height + 1, first :: others =>
    some (node (Chain.jointHop request first others)
      ((Chain.groups (first :: others)).filterMap (grow request height)))

/-- Corresponding lists give the same if corresponding members do. -/
theorem filterMap_congr {α β : Type} {R : α → α → Prop} {xs ys : List α} {f : α → Option β}
    (h : List.Forall₂ R xs ys) (hf : ∀ x ∈ xs, ∀ y, R x y → f x = f y) :
    xs.filterMap f = ys.filterMap f := by
  induction h with
  | nil => rfl
  | @cons x y xs ys hxy _ ih =>
    have hrest := ih fun z hz => hf z (by simp [hz])
    rw [List.filterMap_cons, List.filterMap_cons, hf x (by simp) y hxy, hrest]

/-- The tree of chains that start at one object only depends on which chains there are. -/
theorem grow_congr (request : String) (height : Nat) {chains chains' : List Chain}
    (hone : Chain.OneStart chains) (h : SameMembers chains chains') :
    grow request height chains = grow request height chains' := by
  induction height generalizing chains chains' with
  | zero =>
    cases chains with
    | nil => rw [h.eq_nil_iff.1 rfl]
    | cons first others =>
      cases chains' with
      | nil => exact absurd (h.eq_nil_iff.2 rfl) (by simp)
      | cons first' others' =>
        unfold grow
        rw [Chain.jointHop_congr request hone h]
  | succ height ih =>
    cases chains with
    | nil => rw [h.eq_nil_iff.1 rfl]
    | cons first others =>
      cases chains' with
      | nil => exact absurd (h.eq_nil_iff.2 rfl) (by simp)
      | cons first' others' =>
        unfold grow
        rw [Chain.jointHop_congr request hone h, filterMap_congr (Chain.groups_congr h)
          fun group hgroup _ hsame => ih (Chain.oneStart_of_mem_groups hgroup) hsame]

/-- Some chains always grow into a tree. -/
theorem grow_isSome (request : String) (height : Nat) (first : Chain) (others : List Chain) :
    (grow request height (first :: others)).isSome := by
  cases height <;> rfl

theorem ne_nil_of_grow {request : String} {height : Nat} {chains : List Chain} {tree : HopTree}
    (hgrow : grow request height chains = some tree) : chains ≠ [] := by
  rintro rfl
  cases height <;> cases hgrow

theorem height_le_iff {chains : List Chain} {n : Nat} :
    height chains ≤ n ↔ ∀ c ∈ chains, c.tail.length ≤ n := by
  unfold height
  induction chains with
  | nil => simp
  | cons c rest ih => simp [ih]

theorem height_congr {chains chains' : List Chain} (h : SameMembers chains chains') :
    height chains = height chains' := by
  refine Nat.le_antisymm (height_le_iff.2 fun c hc => ?_) (height_le_iff.2 fun c hc => ?_)
  · exact height_le_iff.1 (Nat.le_refl _) c ((h c).1 hc)
  · exact height_le_iff.1 (Nat.le_refl _) c ((h c).2 hc)

/-- No other start is found exactly if there is none. -/
theorem find?_eq_none_iff {first : Chain} {others : List Chain} :
    others.find? (fun c => c.head.object ≠ first.head.object) = none ↔
      Chain.OneStart (first :: others) := by
  rw [List.find?_eq_none]
  constructor
  · intro h
    refine ⟨first.head.object, fun c hc => ?_⟩
    rcases List.mem_cons.1 hc with rfl | hc
    · rfl
    · simpa using h c hc
  · rintro ⟨object, h⟩ c hc
    simp [h c (by simp [hc]), h first (by simp)]

/-- If no step fails, the results are those of the steps. -/
theorem mapM_eq_ok {ε α β : Type} {f : α → Except ε β} {g : α → β} {xs : List α}
    (h : ∀ x ∈ xs, f x = .ok (g x)) : xs.mapM f = .ok (xs.map g) := by
  induction xs with
  | nil => rfl
  | cons x xs ih =>
    obtain ⟨hx, hxs⟩ := List.forall_mem_cons.1 h
    rw [List.mapM_cons, hx, ih hxs]
    rfl

/-- Chains with one start pass. -/
theorem expectCommonStart_of_oneStart {first : Chain} {others : List Chain}
    (hone : Chain.OneStart (first :: others)) :
    Chain.expectCommonStart first others = .ok () := by
  rw [Chain.expectCommonStart, find?_eq_none_iff.2 hone]

/-- Chains that start at one object grow into a tree.  The starts below are looked at again, but a
group has only one. -/
theorem mergeLevel_eq_grow (request : String) (height : Nat) {chains : List Chain}
    (hone : Chain.OneStart chains) :
    mergeLevel request height chains = .ok (grow request height chains) := by
  induction height generalizing chains with
  | zero =>
    cases chains with
    | nil => rfl
    | cons first others =>
      rw [mergeLevel, expectCommonStart_of_oneStart hone]
      rfl
  | succ height ih =>
    cases chains with
    | nil => rfl
    | cons first others =>
      have hbranches : (Chain.groups (first :: others)).mapM (mergeLevel request height)
          = .ok ((Chain.groups (first :: others)).map (grow request height)) :=
        mapM_eq_ok fun _ hgroup => ih (Chain.oneStart_of_mem_groups hgroup)
      rw [mergeLevel, expectCommonStart_of_oneStart hone, hbranches, grow]
      show Except.ok (some (node _ (List.filterMap id (List.map _ _)))) = _
      rw [List.filterMap_map]
      rfl

section Merge

variable (request : String) {hops : List (List Hop)} {first : Chain} {others : List Chain}

/-- Chains that start at two places fail before anything is joined. -/
theorem mergeLevel_apart (height : Nat) {c : Chain}
    (hfind : others.find? (fun c => c.head.object ≠ first.head.object) = some c) :
    mergeLevel request height (first :: others)
      = .error { first := first.head.object, other := c.head.object } := by
  have hfails : Chain.expectCommonStart first others
      = .error { first := first.head.object, other := c.head.object } := by
    rw [Chain.expectCommonStart, hfind]
  cases height with
  | zero | succ =>
    rw [mergeLevel, hfails]
    rfl

/-- Chains that start at two places have no tree. -/
theorem merge_apart (hchains : hops.filterMap Chain.ofHops? = first :: others) {c : Chain}
    (hfind : others.find? (fun c => c.head.object ≠ first.head.object) = some c) :
    merge request hops = .error { first := first.head.object, other := c.head.object } := by
  rw [merge, hchains]
  exact mergeLevel_apart request _ hfind

/-- Chains that start at one place are merged into what they grow into. -/
theorem merge_eq_grow (hchains : hops.filterMap Chain.ofHops? = first :: others)
    (hfind : others.find? (fun c => c.head.object ≠ first.head.object) = none) :
    merge request hops = .ok (grow request (height (first :: others)) (first :: others)) := by
  rw [merge, hchains]
  exact mergeLevel_eq_grow request _ (find?_eq_none_iff.1 hfind)

/-- Chains that start at one place have a tree. -/
theorem merge_together (hchains : hops.filterMap Chain.ofHops? = first :: others)
    (hfind : others.find? (fun c => c.head.object ≠ first.head.object) = none) :
    ∃ tree, merge request hops = .ok (some tree) := by
  obtain ⟨tree, htree⟩ :=
    Option.isSome_iff_exists.1 (grow_isSome request (height (first :: others)) first others)
  exact ⟨tree, by rw [merge_eq_grow request hchains hfind, htree]⟩

variable {request}

/-- A merged tree is what the chains grow into, and they start at one place. -/
theorem grow_of_merge {chains : List Chain} {tree : HopTree}
    (hmerge : merge request hops = .ok (some tree))
    (hchains : hops.filterMap Chain.ofHops? = chains) :
    Chain.OneStart chains ∧ grow request (height chains) chains = some tree := by
  cases chains with
  | nil =>
    unfold merge at hmerge
    rw [hchains] at hmerge
    cases hmerge
  | cons first others =>
    cases hfind : others.find? fun c => c.head.object ≠ first.head.object with
    | none =>
      rw [merge_eq_grow request hchains hfind] at hmerge
      exact ⟨find?_eq_none_iff.1 hfind, Except.ok.inj hmerge⟩
    | some c =>
      rw [merge_apart request hchains hfind] at hmerge
      cases hmerge

end Merge

/-- Both merges fail, or both give the same tree. -/
theorem merge_congr (request : String) {chains chains' : List (List Hop)}
    (h : SameMembers chains chains') :
    (∃ e e', merge request chains = .error e ∧ merge request chains' = .error e') ∨
      merge request chains = merge request chains' := by
  have hmap := h.filterMap Chain.ofHops?
  unfold merge
  generalize chains.filterMap Chain.ofHops? = cs at hmap
  generalize chains'.filterMap Chain.ofHops? = cs' at hmap
  cases cs with
  | nil =>
    rw [hmap.eq_nil_iff.1 rfl]
    exact Or.inr rfl
  | cons first others =>
    cases cs' with
    | nil => exact absurd (hmap.eq_nil_iff.2 rfl) (by simp)
    | cons first' others' =>
      have hone : Chain.OneStart (first :: others) ↔ Chain.OneStart (first' :: others') := by
        unfold Chain.OneStart
        simp only [hmap _]
      cases hfind : others.find? fun c => c.head.object ≠ first.head.object with
      | none =>
        have hstart := find?_eq_none_iff.1 hfind
        rw [mergeLevel_eq_grow request _ hstart, mergeLevel_eq_grow request _ (hone.1 hstart),
          height_congr hmap, grow_congr request _ hstart hmap]
        exact Or.inr rfl
      | some c =>
        cases hfind' : others'.find? fun c => c.head.object ≠ first'.head.object with
        | none =>
          rw [find?_eq_none_iff.2 (hone.2 (find?_eq_none_iff.1 hfind'))] at hfind
          cases hfind
        | some c' =>
          exact Or.inl ⟨_, _, mergeLevel_apart request _ hfind, mergeLevel_apart request _ hfind'⟩

/-- Chains without hops do not count. -/
theorem merge_filter (request : String) (chains : List (List Hop)) :
    merge request (chains.filter fun c => c ≠ []) = merge request chains := by
  have hmap : (chains.filter fun c => c ≠ []).filterMap Chain.ofHops?
      = chains.filterMap Chain.ofHops? := by
    rw [List.filterMap_filter]
    refine List.filterMap_congr fun c _ => ?_
    cases c <;> rfl
  unfold merge
  rw [hmap]

/-- Lists with the same chains, in whatever order and however often, and whatever chains without
hops they have, are merged with the same result. -/
theorem merge_of_same_chains (request : String) {chains chains' : List (List Hop)}
    (h : ∀ c, c ≠ [] → (c ∈ chains ↔ c ∈ chains')) :
    (merge request chains = .ok none ∧ merge request chains' = .ok none) ∨
      (∃ tree, merge request chains = .ok (some tree) ∧
        merge request chains' = .ok (some tree)) ∨
      ∃ e e', merge request chains = .error e ∧ merge request chains' = .error e' := by
  have hsame : SameMembers (chains.filter fun c => c ≠ []) (chains'.filter fun c => c ≠ []) := by
    intro c
    simp only [List.mem_filter, decide_eq_true_eq]
    exact and_congr_left (h c)
  have hcongr := merge_congr request hsame
  rw [merge_filter, merge_filter] at hcongr
  rcases hcongr with hfail | heq
  · exact Or.inr (Or.inr hfail)
  · cases hmerge : merge request chains with
    | error e => exact Or.inr (Or.inr ⟨e, e, rfl, heq ▸ hmerge⟩)
    | ok merged =>
      rw [hmerge] at heq
      cases merged with
      | none => exact Or.inl ⟨rfl, heq.symm⟩
      | some tree => exact Or.inr (Or.inl ⟨tree, rfl, heq.symm⟩)

/-- Two chains that give an object different names, and one that gives it none and goes on. -/
def forked : List (List Hop) :=
  let root := (Endpoint.plain 0).hop .up 0 (.beyond false)
  [[root, { Endpoint.plain 1 with name := some "b" }.hop .up 1 .endpoint],
    [root, (Endpoint.plain 2).hop .down 1 .doorstep, (Endpoint.plain 2).hop .down 2 .endpoint],
    [root, { Endpoint.plain 1 with name := some "a", forced := true }.hop .up 1 .endpoint]]

/-- Chains once, and again backwards between some without hops.  Both ways there are two branches at
the object with two names, and the chain that gives it none goes on below the smaller one. -/
theorem merge_of_same_chains_forked :
    (∀ c, c ≠ [] → (c ∈ forked ↔ c ∈ [] :: forked ++ [] :: forked.reverse)) ∧
      ∃ tree, merge "s" forked = .ok (some tree) ∧
        merge "s" ([] :: forked ++ [] :: forked.reverse) = .ok (some tree) ∧
        tree.branches.map (fun b => (b.hop.object, b.hop.name, b.size))
          = [(1, some "a", 2), (1, some "b", 1)] := by
  have hsame : ∀ c, c ≠ [] → (c ∈ forked ↔ c ∈ [] :: forked ++ [] :: forked.reverse) := by
    intro c hc
    simp only [List.mem_append, List.mem_cons, List.mem_reverse, hc, false_or, or_self]
  refine ⟨hsame, _, rfl, ?_, rfl⟩
  rcases merge_of_same_chains "s" hsame with ⟨hnone, -⟩ | ⟨tree, htree, htree'⟩ | ⟨e, -, hfail, -⟩
  · cases hnone
  · cases htree
    exact htree'
  · cases hfail

end HopTree

end Interconnect
