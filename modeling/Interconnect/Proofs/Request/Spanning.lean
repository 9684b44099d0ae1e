import Interconnect.Proofs.Request.Connection
import Interconnect.Proofs.Route.Joining
import Interconnect.Proofs.Store.Hierarchy

/-!
# When endpoints have a tree

A walk from an endpoint ends at the root of the endpoint's hierarchy, and so its chain starts
there.  Chains that start at one place always have a tree.  So some endpoints have one exactly if
they have one root, and otherwise the failure names the first root and the first one that differs
from it.  Either way, finding out only interns texts.
-/

namespace Interconnect

/-! ## Interning -/

namespace StringTable

theorem extends_intern (t : StringTable) (text : String) : t.texts <+: (t.intern text).texts := by
  unfold intern
  split
  · exact List.prefix_rfl
  · exact List.prefix_append _ _

/-- The texts that were there keep their numbers. -/
theorem extends_internAll (t : StringTable) (texts : List String) :
    t.texts <+: (t.internAll texts).texts := by
  unfold internAll
  induction texts generalizing t with
  | nil => exact List.prefix_rfl
  | cons text rest ih =>
    rw [List.foldl_cons]
    exact (extends_intern t text).trans (ih _)

end StringTable

theorem Endpoint.exists_stage_of_mem_hops (e : Endpoint) {heading : Heading} {stage : Stage}
    {path : List Handle} {hop : Hop} (hhop : hop ∈ e.hops heading stage path) :
    ∃ stage', hop = e.hop heading hop.object stage' := by
  induction path generalizing stage with
  | nil => cases hhop
  | cons h rest ih =>
    rcases List.mem_cons.1 hhop with rfl | hhop
    · exact ⟨stage, rfl⟩
    · exact ih hhop

namespace Store

/-! ## Chains of endpoints -/

/-- A walk ends where the hierarchy of its endpoint does. -/
theorem Walks.hierarchyRoot_eq {s : Store} (hs : s.Coherent) {e : Endpoint} {heading : Heading}
    {hops : List Hop} (hw : s.Walks e heading hops) {root : Handle}
    (hlast : (hops.map Hop.object).getLast? = some root) :
    s.hierarchyRoot e.object = .ok root := by
  cases hw with
  | @climb x path hplace hclimbs =>
    rw [List.map_cons, e.map_object_hops] at hlast
    change (x :: path).getLast? = some root at hlast
    cases hplace with
    | itself hf => exact hierarchyRoot_eq_ok hclimbs hlast
    | placement ht hf => exact hierarchyRoot_eq_ok hclimbs hlast
    | inst ht hf =>
      -- The endpoint is the default instance, where the climb passes right above the module.
      obtain ⟨i, rfl, hlinks, -⟩ := hs.ordinary hf
      have hmem : e.object ∈ s.links .placement x := (hs.linked .placement).mem_links.2 ht
      rw [hlinks, List.mem_singleton] at hmem
      have habove : s.above? x = some (some i) := above?_of_frame hf
      cases hclimbs with
      | root hroot =>
        rw [habove] at hroot
        cases hroot
      | step hstep hrest =>
        rw [habove] at hstep
        cases hstep
        obtain ⟨rest, rfl⟩ := List.head?_eq_some_iff.1 hrest.head?_eq
        rw [List.getLast?_cons_cons] at hlast
        rw [hmem]
        exact hierarchyRoot_eq_ok hrest hlast

/-- The chain is a walk from the endpoint, turned round. -/
def IsChainOf (s : Store) (e : Endpoint × Heading) (c : Chain) : Prop :=
  ∃ hops, s.Walks e.1 e.2 hops ∧ hops.reverse = c.head :: c.tail

/-- A chain starts at the root of its endpoint. -/
theorem IsChainOf.hierarchyRoot_eq {s : Store} (hs : s.Coherent) {e : Endpoint × Heading}
    {c : Chain} (hc : s.IsChainOf e c) : s.hierarchyRoot e.1.object = .ok c.head.object := by
  obtain ⟨hops, hw, hreverse⟩ := hc
  refine hw.hierarchyRoot_eq hs ?_
  rw [List.getLast?_map, ← List.head?_reverse, hreverse]
  rfl

/-- Nothing is above the start of a chain. -/
theorem IsChainOf.above?_head {s : Store} {e : Endpoint × Heading} {c : Chain}
    (hc : s.IsChainOf e c) : s.above? c.head.object = some none := by
  obtain ⟨hops, hw, hreverse⟩ := hc
  obtain ⟨x, hclimbs⟩ := hw.exists_climbs
  obtain ⟨root, hlast, hroot⟩ := hclimbs.getLast?_eq
  rw [List.getLast?_map, ← List.head?_reverse, hreverse] at hlast
  cases hlast
  exact hroot

theorem IsChainOf.descends {s : Store} (hs : s.Coherent) {e : Endpoint × Heading} {c : Chain}
    (hc : s.IsChainOf e c) : c.Descends s := by
  obtain ⟨hops, hw, hreverse⟩ := hc
  exact Chain.descends_of_walks hs hw (Chain.ofHops?_eq_some.2 hreverse)

/-- Every hop of a walk is at a place in the hierarchy, as the endpoint asks for it. -/
theorem Walks.exists_hop_eq {s : Store} {e : Endpoint} {heading : Heading} {hops : List Hop}
    (hw : s.Walks e heading hops) {hop : Hop} (hhop : hop ∈ hops) :
    (s.above? hop.object).isSome ∧ ∃ stage, hop = e.hop heading hop.object stage := by
  constructor
  · obtain ⟨x, hclimbs⟩ := hw.exists_climbs
    exact hclimbs.isSome_of_mem (List.mem_map_of_mem hhop)
  · cases hw with
    | climb hplace _ =>
      rcases List.mem_cons.1 hhop with rfl | hhop
      · exact ⟨.endpoint, rfl⟩
      · exact e.exists_stage_of_mem_hops hhop

theorem IsChainOf.exists_hop_eq {s : Store} {e : Endpoint × Heading} {c : Chain}
    (hc : s.IsChainOf e c) {hop : Hop} (hhop : hop ∈ c.head :: c.tail) :
    (s.above? hop.object).isSome ∧ ∃ stage, hop = e.1.hop e.2 hop.object stage := by
  obtain ⟨hops, hw, hreverse⟩ := hc
  refine hw.exists_hop_eq (List.mem_reverse.1 ?_)
  rw [hreverse]
  exact hhop

/-- Every endpoint has its chain. -/
theorem Reachable.exists_chains {s : Store} (hs : s.Reachable) {ends : List (Endpoint × Heading)}
    (hends : ∀ e ∈ ends, s.isEndpoint e.1.object = true) :
    ∃ chains, (ends.map fun e => (s.hopsOf e).reverse).filterMap Chain.ofHops? = chains ∧
      List.Forall₂ s.IsChainOf ends chains := by
  induction ends with
  | nil => exact ⟨[], rfl, .nil⟩
  | cons e rest ih =>
    obtain ⟨chains, hchains, hall⟩ := ih fun e' he' => hends e' (List.mem_cons_of_mem e he')
    obtain ⟨hops, hw, hwalk⟩ := hs.exists_walks (hends e List.mem_cons_self) e.2
    rw [hs.walk_eq_hopsOf (hends e List.mem_cons_self)] at hwalk
    cases hwalk
    have hmem : ∃ hop, hop ∈ s.hopsOf e := by
      obtain ⟨hop, hhop, -⟩ := hw.exists_chosen
      exact ⟨hop, hhop⟩
    obtain ⟨hop, hhop⟩ := hmem
    obtain ⟨c, hc, -⟩ := Chain.exists_ofHops? (List.mem_reverse.2 hhop)
    refine ⟨c :: chains, ?_, .cons ⟨_, hw, Chain.ofHops?_eq_some.1 hc⟩ hall⟩
    rw [List.map_cons, List.filterMap_cons, hc, hchains]

section Roots

variable {s : Store} (hs : s.Coherent) {ends : List (Endpoint × Heading)} {chains : List Chain}
  (hall : List.Forall₂ s.IsChainOf ends chains) (root : Handle)

include hs hall

/-- The first endpoint with another root has the first chain that starts elsewhere. -/
theorem exists_find?_of_apart {e : Endpoint × Heading}
    (hfind : ends.find? (fun e => s.hierarchyRoot e.1.object ≠ .ok root) = some e) :
    ∃ c, chains.find? (fun c => c.head.object ≠ root) = some c ∧
      s.hierarchyRoot e.1.object = .ok c.head.object := by
  induction hall with
  | nil => cases hfind
  | @cons e' c ends chains hc _ ih =>
    have hroot := hc.hierarchyRoot_eq hs
    rw [List.find?_cons] at hfind ⊢
    by_cases hsame : c.head.object = root
    · simp only [hroot, hsame, ne_eq, not_true_eq_false, decide_false] at hfind ⊢
      exact ih hfind
    · have hother : s.hierarchyRoot e'.1.object ≠ .ok root := by
        rw [hroot]
        simpa using hsame
      simp only [ne_eq, hother, hsame, not_false_eq_true, decide_true, Option.some.injEq] at hfind ⊢
      subst hfind
      exact ⟨c, rfl, hroot⟩

/-- If all endpoints have one root, all chains start there. -/
theorem find?_eq_none_of_together
    (hfind : ends.find? (fun e => s.hierarchyRoot e.1.object ≠ .ok root) = none) :
    chains.find? (fun c => c.head.object ≠ root) = none := by
  induction hall with
  | nil => rfl
  | @cons e c ends chains hc _ ih =>
    have hroot := hc.hierarchyRoot_eq hs
    rw [List.find?_cons] at hfind ⊢
    by_cases hsame : c.head.object = root
    · simp only [hroot, hsame, ne_eq, not_true_eq_false, decide_false] at hfind ⊢
      exact ih hfind
    · have hother : s.hierarchyRoot e.1.object ≠ .ok root := by
        rw [hroot]
        simpa using hsame
      simp [hother] at hfind

end Roots

/-! ## The tree -/

/-- Only texts have been interned. -/
def Interned (s s' : Store) : Prop :=
  ∃ texts, s.strings.texts <+: texts.texts ∧ s' = s.withTexts texts

theorem Interned.intern {s s' : Store} (h : Interned s s') (text : String) :
    Interned s (s'.intern text) := by
  obtain ⟨texts, hextends, rfl⟩ := h
  exact ⟨texts.intern text, hextends.trans (StringTable.extends_intern texts text), rfl⟩

/-- The outcome is a failure that nothing but texts is left of. -/
structure Fails {ε α : Type} (s : Store) (o : Outcome ε α) (e : ε) : Prop where
  result : o.result = .error e
  silent : Notice.diagnostics o.notices = []
  interned : Interned s o.store

/-- Walking from endpoints gives their chains. -/
theorem Reachable.chains_eq_ok {s : Store} (hs : s.Reachable) {ends : List (Endpoint × Heading)}
    (hends : ∀ e ∈ ends, s.isEndpoint e.1.object = true) :
    ∃ s' hops chains, s.chains ends = (s', .ok hops) ∧ Interned s s' ∧
      hops.filterMap Chain.ofHops? = chains ∧ List.Forall₂ s.IsChainOf ends chains := by
  obtain ⟨chains, hchains, hall⟩ := hs.exists_chains hends
  refine ⟨_, _, chains, chains_eq s fun e he => hs.walk_eq_hopsOf (hends e he), ?_, hchains, hall⟩
  exact ⟨_, StringTable.extends_internAll _ _, rfl⟩

section SpanningTree

variable {s : Store} (hs : s.Reachable) (request name : String) {first : Endpoint × Heading}
  {others : List (Endpoint × Heading)}
  (hends : ∀ e ∈ first :: others, s.isEndpoint e.1.object = true)

include hs hends

/-- Endpoints with two roots have no tree. -/
theorem Reachable.spanningTree_apart {other : Endpoint × Heading}
    (hfind : others.find? (fun e => s.hierarchyRoot e.1.object ≠ s.hierarchyRoot first.1.object)
      = some other) {root root' : Handle} (hroot : s.hierarchyRoot first.1.object = .ok root)
    (hroot' : s.hierarchyRoot other.1.object = .ok root') :
    s.Fails (s.spanningTree request name (first :: others))
      (.noCommonStart request (s.describe root) (s.describe root')) := by
  have hgood : (first :: others).find? (fun e => !s.isEndpoint e.1.object) = none :=
    List.find?_eq_none.2 fun e he => by simp [hends e he]
  obtain ⟨s', hops, chains, hwalked, ⟨texts, hextends, rfl⟩, hchains, hall⟩ :=
    hs.chains_eq_ok hends
  cases hall with
  | @cons _ c _ cs hc hrest =>
    have hstart := hc.hierarchyRoot_eq hs.coherent
    rw [hroot] at hstart hfind
    cases hstart
    obtain ⟨c', hfind', hstart'⟩ := exists_find?_of_apart hs.coherent hrest c.head.object hfind
    rw [hroot'] at hstart'
    cases hstart'
    unfold spanningTree
    rw [hgood, hwalked]
    dsimp only
    rw [HopTree.merge_apart name hchains hfind']
    exact ⟨rfl, rfl, Interned.intern ⟨texts, hextends, rfl⟩ name⟩

/-- Endpoints with one root have a tree. -/
theorem Reachable.spanningTree_together
    (hfind : others.find? (fun e => s.hierarchyRoot e.1.object ≠ s.hierarchyRoot first.1.object)
      = none) :
    ∃ tree?, (s.spanningTree request name (first :: others)).result = .ok tree? ∧
      Interned s (s.spanningTree request name (first :: others)).store := by
  have hgood : (first :: others).find? (fun e => !s.isEndpoint e.1.object) = none :=
    List.find?_eq_none.2 fun e he => by simp [hends e he]
  obtain ⟨s', hops, chains, hwalked, hinterned, hchains, hall⟩ := hs.chains_eq_ok hends
  cases hall with
  | @cons _ c _ cs hc hrest =>
    rw [hc.hierarchyRoot_eq hs.coherent] at hfind
    obtain ⟨merged, hmerge⟩ := HopTree.merge_together name hchains
      (find?_eq_none_of_together hs.coherent hrest c.head.object hfind)
    unfold spanningTree
    rw [hgood, hwalked]
    dsimp only
    rw [hmerge]
    dsimp only
    cases merged.reduce with
    | none => exact ⟨none, rfl, hinterned.intern name⟩
    | some tree => exact ⟨some tree, rfl, hinterned.intern name⟩

end SpanningTree

/-- A tree of endpoints is what is left of the one that the walks from them are merged into. -/
theorem Reachable.exists_merged {s : Store} (hs : s.Reachable) {request name : String}
    {ends : List (Endpoint × Heading)} {tree : HopTree}
    (hok : (s.spanningTree request name ends).result = .ok (some tree)) :
    ∃ s' walks chains merged, s.chains ends = (s', .ok walks) ∧
      walks.filterMap Chain.ofHops? = chains ∧ List.Forall₂ s.IsChainOf ends chains ∧
      Chain.OneStart chains ∧ HopTree.merge name walks = .ok (some merged) ∧
      HopTree.grow name (HopTree.height chains) chains = some merged ∧
      merged.reduce = some tree := by
  obtain ⟨hends, s₁, walks, merged, hwalked, hmerge, hreduce, -⟩ := spanningTree_cases hok
  obtain ⟨s', walks', chains, hwalked', -, hchains, hall⟩ := hs.chains_eq_ok hends
  rw [hwalked] at hwalked'
  cases hwalked'
  obtain ⟨hone, hgrow⟩ := HopTree.grow_of_merge hmerge hchains
  exact ⟨s₁, walks, chains, merged, hwalked, hchains, hall, hone, hmerge, hgrow, hreduce⟩

/-- A tree of endpoints is what is left of the one that their chains grow into. -/
theorem Reachable.exists_grow {s : Store} (hs : s.Reachable) {request name : String}
    {ends : List (Endpoint × Heading)} {tree : HopTree}
    (hok : (s.spanningTree request name ends).result = .ok (some tree)) :
    ∃ chains merged height, List.Forall₂ s.IsChainOf ends chains ∧ Chain.OneStart chains ∧
      (∀ c ∈ chains, c.tail.length ≤ height) ∧
      HopTree.grow name height chains = some merged ∧ merged.reduce = some tree := by
  obtain ⟨-, -, chains, merged, -, -, hall, hone, -, hgrow, hreduce⟩ := hs.exists_merged hok
  exact ⟨chains, merged, _, hall, hone, HopTree.height_le_iff.1 (Nat.le_refl _), hgrow, hreduce⟩

end Store

end Interconnect
