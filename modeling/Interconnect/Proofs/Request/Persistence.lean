import Interconnect.Proofs.Request.Making
import Interconnect.Proofs.Request.Routing
import Interconnect.Proofs.Request.Staying

/-!
# Trees and plans stay as they are

What lies between some endpoints is read off the places of modules and instances.  What a plan asks
for there is read off what these are and what they are called.  Both last, whatever else is created
in the meantime, and so the tree of some endpoints is found again (`Stays.spanningTree`), the plan
for it is the same (`Lasts.plan_eq`), and the same ids stand for what it asks for.
-/

namespace Interconnect

/-- Steps for a module depend on whether it is a resource, and on nothing else in it. -/
theorem Task.atModule_congr (t : Task) (id : String) {m m' : Module}
    (hres : m'.resource = m.resource) (above : Option String) (hop : Hop) :
    t.atModule id m' above hop = t.atModule id m above hop := by
  unfold atModule
  rw [hres]

namespace Store

/-! ## What can be read off lasting objects -/

namespace Lasts

variable {s s' : Store} (h : Lasts s s')

include h

theorem keepsLabels : KeepsLabels s s' :=
  fun _ _ => h.label?

theorem frame_eq {x : Handle} {o : Object} (ho : s.object? x = some o) :
    s'.frame x = s.frame x := by
  obtain ⟨o', ho', hlasts⟩ := h x o ho
  rw [frame, frame, outline?_of_object? ho, outline?_of_object? ho', Option.bind_some,
    Option.bind_some]
  have hbody := hlasts.body
  obtain ⟨handle, id, name, attributes, body⟩ := o
  obtain ⟨handle', id', name', attributes', body'⟩ := o'
  cases hbody with
  | module hm =>
    exact congrArg some (Prod.ext hm.resource hm.defaultInstance)
  | _ => rfl

theorem frame {x : Handle} {f : Bool × Option Handle} (hf : s.frame x = some f) :
    s'.frame x = some f := by
  obtain ⟨m, hm, -⟩ := exists_module_of_frame hf
  obtain ⟨o, ho, -⟩ := Option.bind_eq_some_iff.1 hm
  rw [h.frame_eq ho, hf]

theorem placement {x m : Handle} (ht : s.target .placement x = some m) :
    s'.target .placement x = some m := by
  obtain ⟨i, hi, rfl⟩ := exists_instance_of_target ht
  obtain ⟨i', hi', hlasts⟩ := h.instance? hi
  rw [target_placement_eq, hi', Option.map_some, hlasts.module]

theorem isEndpoint {x : Handle} (hx : s.isEndpoint x = true) : s'.isEndpoint x = true := by
  obtain ⟨o, ho, hbody⟩ := isEndpoint_iff.1 hx
  obtain ⟨o', ho', hlasts⟩ := h x o ho
  refine isEndpoint_iff.2 ⟨o', ho', ?_⟩
  rcases hbody with ⟨m, hm⟩ | ⟨i, hi⟩
  · obtain ⟨m', hm', -⟩ := (hm ▸ hlasts.body).of_module
    exact Or.inl ⟨m', hm'⟩
  · obtain ⟨i', hi', -⟩ := (hi ▸ hlasts.body).of_inst
    exact Or.inr ⟨i', hi'⟩

theorem isPlace {x y : Handle} (hx : s.IsPlace x y) : s'.IsPlace x y := by
  cases hx with
  | itself hf => exact .itself (h.frame hf)
  | inst ht hf => exact .inst (h.placement ht) (h.frame hf)
  | placement ht hf => exact .placement (h.placement ht) (h.frame hf)

/-! ## Plans -/

/-- A hop asks for the same. -/
theorem atHop_eq (t : Task) (above : Option String) {hop : Hop} {o : Object}
    (ho : s.object? hop.object = some o) : t.atHop s' above hop = t.atHop s above hop := by
  obtain ⟨o', ho', hlasts⟩ := h hop.object o ho
  unfold Task.atHop
  rw [ho, ho']
  obtain ⟨handle, id, name, attributes, body⟩ := o
  obtain ⟨handle', id', name', attributes', body'⟩ := o'
  obtain ⟨-, rfl, -, hbody⟩ := hlasts
  cases hbody with
  | module hm => exact t.atModule_congr id' hm.resource above hop
  | _ => rfl

/-- A tree whose hops are all there has the same plan. -/
theorem plan_eq (t : Task) : (tree : HopTree) →
    (∀ hop, tree.Passes hop → (s.above? hop.object).isSome) → (above : Option String) →
    t.plan s' above tree = t.plan s above tree
  | .node hop branches, hplaces, above => by
    obtain ⟨x, hx⟩ := Option.isSome_iff_exists.1 (hplaces hop .top)
    obtain ⟨o, ho, -⟩ := Option.bind_eq_some_iff.1 hx
    rw [Task.plan, Task.plan, Task.planAll_eq_flatMap, Task.planAll_eq_flatMap,
      h.atHop_eq t above ho]
    congr 1
    exact List.flatMap_congr fun b hb =>
      plan_eq t b (fun hop' hp => hplaces hop' (.branch hb hp)) _

section Demands

variable (hs : s.Reachable) {t : Task} {ends : List (Endpoint × Heading)} {tree : HopTree}
  (htree : (s.spanningTree t.request t.name ends).result = .ok (some tree))

include hs htree

theorem demands_eq : t.demands s' none tree = t.demands s none tree := by
  unfold Task.demands
  rw [h.plan_eq t tree fun hop hp => (hs.name_of_passes htree hp).1]

/-- What a plan asks for would have the same id. -/
theorem demandId_eq (hname : t.name ≠ "") {d : Demand} (hd : d ∈ t.demands s none tree) :
    s'.demandId d = s.demandId d := by
  obtain ⟨clash, hstep⟩ := Step.mem_filterMap_demand?.1 hd
  have hsound := hs.isSound_of_mem_plan hname htree s.strings _ hstep
  obtain ⟨n, hn⟩ := Option.isSome_iff_exists.1 hsound.2.isSome_name?
  exact h.keepsLabels.demandId hn

end Demands

end Lasts

/-! ## Walks and trees -/

namespace Stays

variable {s s' : Store} (h : Stays s s')

include h

theorem walks {e : Endpoint} {heading : Heading} {hops : List Hop}
    (hw : s.Walks e heading hops) : s'.Walks e heading hops := by
  cases hw with
  | @climb x path hplace hclimbs =>
    obtain ⟨y, hy⟩ := Option.isSome_iff_exists.1 (hclimbs.isSome_of_mem List.mem_cons_self)
    obtain ⟨o, ho, -⟩ := Option.bind_eq_some_iff.1 hy
    have hstage : s'.stageAbove x = s.stageAbove x := by
      rw [stageAbove, stageAbove, h.lasts.frame_eq ho]
    rw [← hstage]
    exact .climb (h.lasts.isPlace hplace) (h.climbs hclimbs)

/-- The walk from an endpoint is the same. -/
theorem walk_eq_hopsOf (hs : s.Reachable) (hs' : s'.Reachable) {e : Endpoint × Heading}
    (hend : s.isEndpoint e.1.object = true) : s'.walk e.1 e.2 = .ok (s.hopsOf e) := by
  obtain ⟨hops, hw, hwalk⟩ := hs.exists_walks hend e.2
  obtain ⟨hops', hw', hwalk'⟩ := hs'.exists_walks (h.lasts.isEndpoint hend) e.2
  rw [hs.walk_eq_hopsOf hend] at hwalk
  cases hwalk
  rw [hwalk', hw'.unique (h.walks hw)]

/-- The tree of some endpoints is found again. -/
theorem spanningTree (hs : s.Reachable) (hs' : s'.Reachable) {request name : String}
    {ends : List (Endpoint × Heading)} {tree : HopTree}
    (hok : (s.spanningTree request name ends).result = .ok (some tree)) :
    (s'.spanningTree request name ends).result = .ok (some tree) := by
  obtain ⟨hends, s₁, chains, merged, hchains, hmerge, hreduce, -⟩ := spanningTree_cases hok
  rw [chains_eq s fun e he => hs.walk_eq_hopsOf (hends e he)] at hchains
  cases hchains
  have hgood : ends.find? (fun e => !s'.isEndpoint e.1.object) = none :=
    List.find?_eq_none.2 fun e he => by simp [h.lasts.isEndpoint (hends e he)]
  unfold Store.spanningTree
  rw [hgood, chains_eq s' fun e he => h.walk_eq_hopsOf hs hs' (hends e he)]
  dsimp only
  rw [hmerge]
  dsimp only
  rw [hreduce]
  rfl

end Stays

end Store

end Interconnect
