import Interconnect.Proofs.Request.Attribution
import Interconnect.Proofs.Route.Entering

/-!
# Which endpoints are routed through a hop

A request walks from each of its endpoints, turns the walk round into a chain, and merges the
chains.  `Enters` says that the chain of an endpoint gets to a hop of the merged tree, and what is
left of it there; the endpoint is then routed through the hop.

A hop of the tree joins the hops of exactly the endpoints that are routed through it
(`exists_joint`), and each endpoint's own hop, which is the last of its chain, gets into the tree
(`exists_own`).
-/

namespace Interconnect.Store

/-- The walk from an endpoint, turned round, is merged with those of the others, and it gets to the
hop.  There `rest` is left of it, whose first hop is joined into the hop. -/
def Enters (s : Store) (name : String) (ends : List (Endpoint × Heading))
    (e : Endpoint × Heading) (rest : Chain) (hop : Hop) : Prop :=
  ∃ s' walks walk c, s.chains ends = (s', .ok walks) ∧ s.walk e.1 e.2 = .ok walk ∧
    Chain.ofHops? walk.reverse = some c ∧
    HopTree.Enters name (HopTree.height (walks.filterMap Chain.ofHops?))
      (walks.filterMap Chain.ofHops?) c rest hop

/-- The endpoint is one of those that are merged, and its chain gets to the hop. -/
def RoutedThrough (s : Store) (name : String) (ends : List (Endpoint × Heading))
    (e : Endpoint × Heading) (hop : Hop) : Prop :=
  e ∈ ends ∧ ∃ rest, s.Enters name ends e rest hop

/-- The endpoint's own hop is joined into the hop: it is at the place of the endpoint, the caller
chose it, and nothing else is left of the chain of the endpoint. -/
structure IsOwn (s : Store) (name : String) (ends : List (Endpoint × Heading))
    (e : Endpoint × Heading) (hop : Hop) : Prop where
  place : s.IsPlace e.1.object hop.object
  explicit : hop.explicit = true
  last : ∃ rest, s.Enters name ends e rest hop ∧ rest.tail = []

section Walks

variable {s : Store} {e : Endpoint} {heading : Heading} {hops hops' : List Hop}

/-- There is one walk from an endpoint. -/
theorem Walks.unique (hw : s.Walks e heading hops) (hw' : s.Walks e heading hops') :
    hops = hops' := by
  cases hw with
  | climb hplace hclimbs =>
    cases hw' with
    | climb hplace' hclimbs' =>
      obtain rfl := hplace.unique hplace'
      cases hclimbs.unique hclimbs'
      rfl

/-- The chain of an endpoint is the walk from it, turned round. -/
theorem Reachable.walk_of_isChainOf (hs : s.Reachable) {e : Endpoint × Heading} {c : Chain}
    (hend : s.isEndpoint e.1.object = true) (hc : s.IsChainOf e c) :
    ∃ walk, s.walk e.1 e.2 = .ok walk ∧ Chain.ofHops? walk.reverse = some c := by
  obtain ⟨walk, hw, hreverse⟩ := hc
  obtain ⟨walk', hw', hok⟩ := hs.exists_walks hend e.2
  obtain rfl := hw.unique hw'
  exact ⟨walk, hok, Chain.ofHops?_eq_some.2 hreverse⟩

end Walks

/-- The last hop of a chain is the endpoint's own. -/
theorem IsChainOf.last {s : Store} {e : Endpoint × Heading} {c rest : Chain}
    (hc : s.IsChainOf e c) (hsuffix : (rest.head :: rest.tail) <:+ (c.head :: c.tail))
    (hend : rest.tail = []) :
    s.IsPlace e.1.object rest.head.object ∧ rest.head.explicit = true := by
  obtain ⟨walk, hw, hreverse⟩ := hc
  rw [hend, ← hreverse, ← List.reverse_singleton, List.reverse_suffix] at hsuffix
  obtain ⟨others, hwalk⟩ := hsuffix
  cases hw with
  | climb hplace _ =>
    rw [(List.cons.inj hwalk).1]
    exact ⟨hplace, rfl⟩

section Tree

variable {s : Store} (hs : s.Reachable) {request name : String} {ends : List (Endpoint × Heading)}
  {tree : HopTree} (hok : (s.spanningTree request name ends).result = .ok (some tree))

include hs hok

/-- What the request merges, and what is left of it. -/
theorem Reachable.exists_routes :
    ∃ chains merged root, List.Forall₂ s.IsChainOf ends chains ∧
      Seeds s (s.Supplies ends) root (HopTree.height chains) chains ∧
      HopTree.grow name (HopTree.height chains) chains = some merged ∧
      merged.reduce = some tree ∧
      ∀ e ∈ ends, ∀ rest hop, s.Enters name ends e rest hop ↔
        ∃ c, s.IsChainOf e c ∧ HopTree.Enters name (HopTree.height chains) chains c rest hop := by
  obtain ⟨s', walks, chains, merged, hwalked, rfl, hall, ⟨root, hroot⟩, -, hgrow, hreduce⟩ :=
    hs.exists_merged hok
  obtain ⟨hends, -⟩ := spanningTree_cases hok
  refine ⟨_, merged, root, hall, seeds_of_chains hs.coherent hall hroot
    (HopTree.height_le_iff.1 (Nat.le_refl _)), hgrow, hreduce, fun e he rest hop => ?_⟩
  constructor
  · rintro ⟨s'', walks', walk, c, hwalked', hwalk, hc, henters⟩
    rw [hwalked] at hwalked'
    cases hwalked'
    obtain ⟨walk', hw, hwalk'⟩ := hs.exists_walks (hends e he) e.2
    rw [hwalk] at hwalk'
    cases hwalk'
    exact ⟨c, ⟨walk, hw, Chain.ofHops?_eq_some.1 hc⟩, henters⟩
  · rintro ⟨c, hc, henters⟩
    obtain ⟨walk, hwalk, hof⟩ := hs.walk_of_isChainOf (hends e he) hc
    exact ⟨s', walks, walk, c, hwalked, hwalk, hof, henters⟩

/-- A hop of the tree joins the hops of the endpoints that are routed through it. -/
theorem Reachable.exists_joint {hop : Hop} (hp : tree.Passes hop) :
    ∃ first others, hop = Chain.jointHop name first others ∧
      ∀ rest, rest ∈ first :: others ↔ ∃ e ∈ ends, s.Enters name ends e rest hop := by
  obtain ⟨chains, merged, root, hall, hseeds, hgrow, hreduce, hiff⟩ := hs.exists_routes hok
  obtain ⟨first, others, hjoint, hrests⟩ :=
    HopTree.exists_joint_of_passes hs hseeds hgrow ((HopTree.within_of_reduce hreduce).passes hp)
  refine ⟨first, others, hjoint, fun rest => ?_⟩
  rw [hrests]
  constructor
  · rintro ⟨c, henters⟩
    obtain ⟨e, he, hof⟩ := exists_left_of_mem hall henters.mem
    exact ⟨e, he, (hiff e he rest hop).2 ⟨c, hof, henters⟩⟩
  · rintro ⟨e, he, henters⟩
    obtain ⟨c, -, henters⟩ := (hiff e he rest hop).1 henters
    exact ⟨c, henters⟩

/-- What is left of the chain of an endpoint starts with a hop that the endpoint asks for. -/
theorem Reachable.exists_stage_of_enters {e : Endpoint × Heading} (he : e ∈ ends) {rest : Chain}
    {hop : Hop} (henters : s.Enters name ends e rest hop) :
    ∃ stage, rest.head = e.1.hop e.2 rest.head.object stage := by
  obtain ⟨chains, merged, root, hall, -, -, -, hiff⟩ := hs.exists_routes hok
  obtain ⟨c, hof, henters⟩ := (hiff e he rest hop).1 henters
  exact (hof.exists_hop_eq henters.head_mem).2

/-- A chain of which only the last hop is left has got to the endpoint's own hop. -/
theorem Reachable.isOwn_of_enters {e : Endpoint × Heading} (he : e ∈ ends) {rest : Chain}
    {hop : Hop} (henters : s.Enters name ends e rest hop) (hend : rest.tail = []) :
    s.IsOwn name ends e hop := by
  obtain ⟨chains, merged, root, hall, hseeds, -, -, hiff⟩ := hs.exists_routes hok
  obtain ⟨c, hof, hchain⟩ := (hiff e he rest hop).1 henters
  obtain ⟨hplace, hexplicit⟩ := hof.last hchain.suffix hend
  refine ⟨?_, hchain.explicit hexplicit, rest, henters, hend⟩
  rw [hchain.object_eq ⟨root, hseeds.start⟩]
  exact hplace

/-- The tree passes every endpoint's own hop. -/
theorem Reachable.exists_own {e : Endpoint × Heading} (he : e ∈ ends) :
    ∃ hop, tree.Passes hop ∧ s.IsOwn name ends e hop := by
  obtain ⟨chains, merged, root, hall, hseeds, hgrow, hreduce, hiff⟩ := hs.exists_routes hok
  obtain ⟨c, hc, hof⟩ := exists_right_of_mem hall he
  obtain ⟨rest, hop, henters, hend⟩ := HopTree.exists_enters_end hseeds.height hc
  have hown := hs.isOwn_of_enters hok he ((hiff e he rest hop).2 ⟨c, hof, henters⟩) hend
  have hhangs := (hseeds.hangs hs.coherent hgrow).2
  exact ⟨hop, (HopTree.reduce_spec hhangs hreduce).2 hop (henters.passes hgrow) hown.explicit,
    hown⟩

/-- The tree ends at endpoints' own hops. -/
theorem Reachable.exists_own_of_leaf {hop : Hop} (hleaf : HopTree.Within (.node hop []) tree) :
    ∃ e ∈ ends, s.IsOwn name ends e hop := by
  obtain ⟨chains, merged, root, hall, hseeds, hgrow, hreduce, hiff⟩ := hs.exists_routes hok
  obtain ⟨c, rest, henters, hend⟩ := HopTree.exists_enters_of_leaf hgrow hseeds.height
    (hleaf.trans (HopTree.within_of_reduce hreduce))
  obtain ⟨e, he, hof⟩ := exists_left_of_mem hall henters.mem
  exact ⟨e, he, hs.isOwn_of_enters hok he ((hiff e he rest hop).2 ⟨c, hof, henters⟩) hend⟩

end Tree

end Interconnect.Store
