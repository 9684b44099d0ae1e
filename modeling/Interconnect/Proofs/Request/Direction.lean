import Interconnect.Proofs.Request.Coexistence
import Interconnect.Proofs.Request.Routing
import Interconnect.Proofs.Request.Tracing
import Interconnect.Proofs.Route.Meeting

/-!
# The directions of ports and pins

A hop joins the chains of several endpoints, two at a time, and so do their headings join.  What the
port of the hop gets as its direction, and what is reported as a clash, depends on nothing but the
endpoints that are routed through the hop (`Directs`).

The name of a port is made at another hop than its direction: it is the name of the pin on the
default instance above.  If there is a module on top of the tree, no default instance has more than
one branch, and so the same endpoints are routed through it and through its module.  The suffix of
the name then stands for the direction of the port.
-/

namespace Interconnect

namespace Heading

/-- The direction that some headings stand for: out if there is one that points up and no other is
set, both ways if one says so or if they point up and down, and in otherwise. -/
structure Directs (heads : Heading → Prop) (direction : PortDirection) : Prop where
  output : direction = .output ↔ heads .up ∧ ∀ a, heads a → a ≠ .unset → a = .up
  bidirectional : direction = .bidirectional ↔ heads .bidir ∨ heads .up ∧ heads .down
  input : direction = .input ↔
    ¬ (heads .up ∧ ∀ a, heads a → a ≠ .unset → a = .up) ∧
      ¬ (heads .bidir ∨ heads .up ∧ heads .down)

namespace Settled

variable {heads : Heading → Prop} {a : Heading} {clash : Bool}

theorem up_iff (h : Settled heads a clash) :
    a = .up ↔ heads .up ∧ ∀ b, heads b → b ≠ .unset → b = .up := by
  rw [h.up]
  constructor
  · rintro ⟨hup, hdown, hbidir⟩
    refine ⟨hup, fun b hb hset => ?_⟩
    cases b with
    | up => rfl
    | down => exact absurd hb hdown
    | bidir => exact absurd hb hbidir
    | unset => exact absurd rfl hset
  · rintro ⟨hup, hall⟩
    refine ⟨hup, fun hdown => ?_, fun hbidir => ?_⟩
    · cases hall _ hdown (by decide)
    · cases hall _ hbidir (by decide)

/-- The joint heading has the direction that the headings stand for. -/
theorem directs (h : Settled heads a clash) : Directs heads a.portDirection := by
  have hup := h.up_iff
  have hbidir := h.bidir
  constructor
  · rw [← hup]
    cases a <;> simp [portDirection]
  · rw [← hbidir]
    cases a <;> simp [portDirection]
  · rw [← hup, ← hbidir]
    cases a <;> simp [portDirection]

/-- There is a clash if two different headings are set. -/
theorem clash_iff (h : Settled heads a clash) :
    clash = true ↔ ∃ b c, heads b ∧ heads c ∧ b ≠ .unset ∧ c ≠ .unset ∧ b ≠ c := by
  rw [h.clash]
  constructor
  · rintro (⟨hb, hc⟩ | ⟨hb, hc⟩ | ⟨hb, hc⟩)
    all_goals exact ⟨_, _, hb, hc, by decide, by decide, by decide⟩
  · rintro ⟨b, c, hb, hc, hb', hc', hne⟩
    cases b <;> cases c <;> simp_all

end Settled

end Heading

namespace Store

/-- An endpoint with the heading is routed through the hop. -/
def Heads (s : Store) (name : String) (ends : List (Endpoint × Heading)) (hop : Hop)
    (a : Heading) : Prop :=
  ∃ e, s.RoutedThrough name ends e hop ∧ e.2 = a

/-- The chain of an endpoint has the heading of the endpoint everywhere. -/
theorem IsChainOf.isEven {s : Store} {e : Endpoint × Heading} {c : Chain}
    (hc : s.IsChainOf e c) : c.IsEven := by
  have heading : ∀ hop ∈ c.head :: c.tail, hop.heading = e.2 ∧ hop.clash = false := by
    intro hop hhop
    obtain ⟨-, stage, hstage⟩ := hc.exists_hop_eq hhop
    rw [hstage]
    exact ⟨rfl, rfl⟩
  intro hop hhop
  exact ⟨(heading hop hhop).1.trans (heading c.head List.mem_cons_self).1.symm,
    (heading hop hhop).2⟩

/-- Chains whose tree has a module on top agree about the name on top of the hierarchy, unless the
module is a resource. -/
theorem Reachable.agrees_or_resource {s : Store} (hs : s.Reachable)
    {ends : List (Endpoint × Heading)} {chains : List Chain} {root : Handle} {height : Nat}
    {P : Handle → String → Prop} {name : String} {merged tree : HopTree}
    (hall : List.Forall₂ s.IsChainOf ends chains) (hseeds : Seeds s P root height chains)
    (hgrow : HopTree.grow name height chains = some merged) (hreduce : merged.reduce = some tree)
    (hmodule : s.kind? tree.hop.object = some .module) :
    Chain.Agrees chains ∨ s.frame tree.hop.object = some (true, none) := by
  refine or_iff_not_imp_left.2 fun hagrees => ?_
  obtain ⟨hobject, hhangs⟩ := hseeds.hangs hs.coherent hgrow
  obtain ⟨first, others, branches, rfl, -, -⟩ := HopTree.exists_node_of_grow hgrow
  obtain ⟨e, -, hof⟩ := exists_left_of_mem hall List.mem_cons_self
  have hroot := hof.above?_head
  rw [hseeds.start first List.mem_cons_self] at hroot
  cases hf : s.frame root with
  | none =>
    -- Where the chains do not agree at a default instance, it stays on top.
    obtain ⟨m, hm⟩ := hs.coherent.exists_default_of_root hroot hf
    rw [HopTree.reduce_grow_eq_self hs.coherent hseeds hm hagrees hgrow] at hreduce
    cases hreduce
    rw [← isSome_frame_iff, hobject, hf] at hmodule
    cases hmodule
  | some f =>
    -- A module on top of a hierarchy is a resource, and nothing is placed in it.
    rw [hs.coherent.frame_of_root hroot hf] at hf
    have hbelow := hhangs.below_top ((HopTree.within_of_reduce hreduce).passes tree.passes_hop)
    rw [hobject] at hbelow
    rcases Relation.ReflTransGen.cases_tail hbelow with heq | ⟨z, -, hz⟩
    · rw [← heq, hf]
    · exact absurd hf (hs.coherent.frame_ne_of_above? hz none)

section Tree

variable {s : Store} (hs : s.Reachable) {request name : String} {ends : List (Endpoint × Heading)}
  {tree : HopTree} (hok : (s.spanningTree request name ends).result = .ok (some tree))

include hs hok

/-- The headings of the endpoints that are routed through a hop settle there. -/
theorem Reachable.settled {hop : Hop} (hp : tree.Passes hop) :
    Heading.Settled (s.Heads name ends hop) hop.heading hop.clash := by
  obtain ⟨first, others, hjoint, hmeet⟩ := hs.exists_joint hok hp
  have hsaid : ∀ {e : Endpoint × Heading}, e ∈ ends → ∀ {rest : Chain},
      s.Enters name ends e rest hop → rest.head.heading = e.2 ∧ rest.head.clash = false := by
    intro e he rest henters
    obtain ⟨stage, hstage⟩ := hs.exists_stage_of_enters hok he henters
    rw [hstage]
    exact ⟨rfl, rfl⟩
  have hclean : ∀ c ∈ first :: others, c.head.clash = false := by
    intro c hc
    obtain ⟨e, he, henters⟩ := (hmeet c).1 hc
    exact (hsaid he henters).2
  have hsettled := Chain.settled_jointHop name hclean
  rw [← hjoint] at hsettled
  refine hsettled.congr fun x => ?_
  constructor
  · rintro ⟨c, hc, rfl⟩
    obtain ⟨e, he, henters⟩ := (hmeet c).1 hc
    exact ⟨e, ⟨he, c, henters⟩, (hsaid he henters).1.symm⟩
  · rintro ⟨e, ⟨he, rest, henters⟩, rfl⟩
    exact ⟨rest, (hmeet rest).2 ⟨e, he, henters⟩, (hsaid he henters).1⟩

/-- If there is a module on top, the tree does not fork at default instances. -/
theorem Reachable.unforked (hmodule : s.kind? tree.hop.object = some .module) :
    tree.Unforked s := by
  obtain ⟨root, chains, merged, height, hall, hseeds, hgrow, hreduce⟩ := hs.exists_seeds hok
  rcases hs.agrees_or_resource hall hseeds hgrow hreduce hmodule with hagrees | hf
  · refine (HopTree.within_of_reduce hreduce).unforked ?_
    exact HopTree.grow_unforked hseeds hgrow hs hagrees
  · obtain ⟨hhangs, -, -⟩ := hs.spanningTree_spec hok
    cases hhangs with
    | @node hop branches habove _ _ =>
      have hnone : ∀ b ∈ branches, False := fun b hb =>
        hs.coherent.frame_ne_of_above? (habove b hb) none hf
      refine .node (fun m hm => ?_) (fun b hb => (hnone b hb).elim) fun b hb => (hnone b hb).elim
      rw [HopTree.hop, hs.coherent.frame_default hm] at hf
      cases hf

/-- A hop at a module has the heading and the name of the default instance above it, and both force
the name or neither does. -/
theorem Reachable.inherited (hmodule : s.kind? tree.hop.object = some .module) {hop : Hop}
    {branches : List HopTree} {b : HopTree} (hwithin : HopTree.Within (.node hop branches) tree)
    (hb : b ∈ branches) (hdefault : s.frame b.hop.object = some (false, some hop.object)) :
    b.hop.heading = hop.heading ∧ b.hop.name = hop.name ∧ b.hop.forced = hop.forced := by
  obtain ⟨root, chains, merged, height, hall, hseeds, hgrow, hreduce⟩ := hs.exists_seeds hok
  obtain ⟨y, height', chains', hseeds', hgrow', hrest⟩ :=
    (hwithin.trans (HopTree.within_of_reduce hreduce)).exists_seeds hseeds hgrow
  obtain rfl : hop.object = y := (hseeds'.hangs hs.coherent hgrow').1
  have heven : ∀ c ∈ chains', c.IsEven := by
    intro c hc
    obtain ⟨whole, hwhole, hsuffix⟩ := hrest c hc
    obtain ⟨e, -, hof⟩ := exists_left_of_mem hall hwhole
    exact (hof.isEven.of_suffix hsuffix).1
  cases hwithin.unforked (hs.unforked hok hmodule) with
  | node honly _ _ =>
    obtain ⟨only, rfl, hname⟩ := honly _ hdefault
    obtain rfl := List.mem_singleton.1 hb
    exact ⟨HopTree.heading_eq_of_grow hs.coherent hseeds' hgrow' hdefault rfl heven, hname,
      HopTree.forced_eq_of_grow hs.coherent hseeds' hgrow' hdefault rfl⟩

end Tree

/-! ## Ports and pins -/

/-- Each port and each pin that a connection has made comes with its hop in `made`.  The endpoints
that are routed through the hop decide on the direction there.  Unless the name at the instance is
forced, it ends in the suffix of the direction. -/
structure Directed (s s' : Store) (name : String) (ends : List (Endpoint × Heading))
    (tree : HopTree) (made : List (Hop × Handle)) : Prop where
  passes : ∀ y ∈ made, tree.Passes y.1
  direction : ∀ {hop : Hop}, tree.Passes hop →
    Heading.Directs (s.Heads name ends hop) hop.heading.portDirection
  clash : ∀ {hop : Hop}, tree.Passes hop → (hop.clash = true ↔
    ∃ a b, s.Heads name ends hop a ∧ s.Heads name ends hop b ∧ a ≠ .unset ∧ b ≠ .unset ∧ a ≠ b)
  default : ∀ {hop : Hop} {branches : List HopTree} {b : HopTree},
    HopTree.Within (.node hop branches) tree → b ∈ branches → ∀ {m : Module},
    s.module? b.hop.object = some m →
    m.defaultInstance = some hop.object ∧ b.hop.heading = hop.heading
  port : ∀ y ∈ made, ∀ {o : Object} {owner : Handle} {direction : PortDirection}
    {net : Option Handle}, s'.object? y.2 = some o →
    o.body = .part owner (.port direction net) →
    owner = y.1.object ∧ direction = y.1.heading.portDirection ∧
      ∃ m upper branches b, s.module? owner = some m ∧ m.defaultInstance = some upper.object ∧
        HopTree.Within (.node upper branches) tree ∧ b ∈ branches ∧ b.hop = y.1 ∧
        (upper.forced = false → ∀ x, Naming.EndsIn o.name x ↔ x = direction)
  pin : ∀ y ∈ made, ∀ {o : Object} {owner : Handle} {connection : String} {inverted : Bool}
    {net : Option Handle}, s'.object? y.2 = some o →
    o.body = .part owner (.pin connection inverted net) →
    owner = y.1.object ∧
      (y.1.forced = false → ∀ x, Naming.EndsIn o.name x ↔ x = y.1.heading.portDirection)

/-- Unless it is forced, the name at an instance ends in the suffix of the direction there. -/
theorem endsIn_atHop {s : Store} {t : Task} (ht : t.mode = .signal) {above : Option String}
    {hop : Hop} (hplace : (s.above? hop.object).isSome) (hf : s.frame hop.object = none)
    (hforced : hop.forced = false) (direction : PortDirection) :
    Naming.EndsIn (t.atHop s above hop).2 direction ↔ direction = hop.heading.portDirection := by
  rw [Task.atHop_of_instance ht hplace hf, Task.ownName, hforced, if_neg Bool.false_ne_true,
    Naming.endsIn_pinName_iff]

/-- What can be traced to the hops of the tree has their directions and suffixes. -/
theorem Traced.directed {s s' : Store} {t : Task} {tree : HopTree} {made : List (Hop × Handle)}
    (h : s.Traced s' t tree made) (ht : t.mode = .signal) (hs : s.Reachable)
    {request name : String} {ends : List (Endpoint × Heading)}
    (hok : (s.spanningTree request name ends).result = .ok (some tree))
    (hmodule : s.kind? tree.hop.object = some .module) : s.Directed s' name ends tree made := by
  obtain ⟨hhangs, -, -⟩ := hs.spanningTree_spec hok
  have hplace : ∀ {hop : Hop}, tree.Passes hop → (s.above? hop.object).isSome :=
    fun hp => (hs.name_of_passes hok hp).1
  have hpasses : ∀ y ∈ made, tree.Passes y.1 := by
    intro y hy
    obtain ⟨above, sub, -, -, -, hvisits, hhop, -⟩ := h.object y hy
    rw [← hhop]
    exact hvisits.within.passes (HopTree.passes_hop sub)
  constructor
  case passes => exact hpasses
  case direction => exact fun hp => (hs.settled hok hp).directs
  case clash => exact fun hp => (hs.settled hok hp).clash_iff
  case default =>
    intro hop branches b hwithin hb m hm
    obtain ⟨o, ho, hbody⟩ := Option.bind_eq_some_iff.1 hm
    have hframe := frame_of_module ho (Object.module?_eq_some.1 hbody)
    have hf := hs.coherent.frame_of_above? hframe (hwithin.above?_eq hhangs hb)
    refine ⟨?_, (hs.inherited hok hmodule hwithin hb hf).1⟩
    rw [hframe] at hf
    exact (Prod.mk.inj (Option.some.inj hf)).2
  case port =>
    intro y hy o owner direction net ho hbody
    obtain ⟨above, hop, branches, b, hvisits, hb, hhop, howner, rfl, hf, hname⟩ :=
      h.exists_of_port hy ho hs.coherent hhangs hbody
    have hwithin := hvisits.within
    obtain ⟨m, hm, -, hdefault⟩ := exists_module_of_frame hf
    refine ⟨howner.symm, rfl, m, hop, branches, b, hm, hdefault, hwithin, hb, hhop,
      fun hforced x => ?_⟩
    -- The name is from the hop above, and the direction is from the port's own hop.
    rw [← hhop] at howner
    rw [← hname, ← hhop, (hs.inherited hok hmodule hwithin hb (howner ▸ hf)).1]
    exact endsIn_atHop ht (hplace (hwithin.passes (HopTree.passes_hop _)))
      (hs.coherent.frame_default hf) hforced x
  case pin =>
    intro y hy o owner connection inverted net ho hbody
    obtain ⟨above, sub, x, i, -, -, rfl, hx, hi, -, hname⟩ := h.exists_of_pin hy ho hbody
    refine ⟨rfl, fun hforced direction => ?_⟩
    rw [← hname]
    exact endsIn_atHop ht (hplace (hpasses y hy)) (frame_of_instance_eq_none hx hi) hforced
      direction

/-- After a connection with a module on top of its tree, the endpoints that are routed through the
hops of the new ports and pins decide on their directions and suffixes.  A clash of headings is
reported once for each of them whose hop has one, by a W300 about it, and for nothing else. -/
theorem directed_of_connect {s : Store} (hs : s.Reachable) {signal : String}
    {source : Option Endpoint} {targets : List Endpoint} {created : List Handle}
    (hok : (s.connect signal source targets).result = .ok created) {tree : HopTree}
    (htree : (s.spanningTree ("connection " ++ signal) signal
      (connectionEnds source targets)).result = .ok (some tree))
    (hmodule : s.kind? tree.hop.object = some .module) :
    ∃ made, s.MakesFor signal (connectionEnds source targets) tree made ∧
      made.map Prod.snd = created ∧ created.Nodup ∧
      s.Directed (s.connect signal source targets).store signal (connectionEnds source targets)
        tree made ∧
      clashesOf (Notice.diagnostics (s.connect signal source targets).notices)
        = (s.connect signal source targets).store.clashReports ("connection " ++ signal) Hop.clash
          made ∧
      (clashesOf (Notice.diagnostics (s.connect signal source targets).notices)).map
          (fun d => (d.code, d.subject))
        = (made.filter fun y =>
            y.1.clash && (s.connect signal source targets).store.isAtBoundary y.2).map fun y =>
              (⟨.warning, 300⟩, some ((s.connect signal source targets).store.describe y.2)) := by
  obtain ⟨made, hmakes, rfl, htraced, hclashes⟩ := hs.traced_of_connect hok htree
  refine ⟨made, hmakes, rfl, htraced.nodup, htraced.directed rfl hs htree hmodule, hclashes, ?_⟩
  rw [hclashes, map_clashReports]

/-- A signal of `nested` that goes out of the memory and back into it.  Its headings clash at the
pin of the memory and above it, where it is passed on to the top. -/
theorem directed_nested :
    nested.Reachable ∧
      (nested.connect "clk" (some (.plain 5)) [.plain 5, .plain 0]).result = .ok [7, 8, 9, 10] ∧
      clashesOf (Notice.diagnostics
          (nested.connect "clk" (some (.plain 5)) [.plain 5, .plain 0]).notices)
        = ["pin::leaf.clk_b", "port::leaf.clk_b", "pin::ram0.clk_b"].map
          (Report.headingClash "connection clk") ∧
      ∃ tree, (nested.spanningTree "connection clk" "clk"
          (connectionEnds (some (.plain 5)) [.plain 5, .plain 0])).result = .ok (some tree) ∧
        nested.kind? tree.hop.object = some .module ∧
        ∃ made, nested.MakesFor "clk" (connectionEnds (some (.plain 5)) [.plain 5, .plain 0]) tree
            made ∧
          made.map Prod.snd = [7, 8, 9, 10] ∧ [7, 8, 9, 10].Nodup ∧
          nested.Directed
            (nested.connect "clk" (some (.plain 5)) [.plain 5, .plain 0]).store "clk"
            (connectionEnds (some (.plain 5)) [.plain 5, .plain 0]) tree made ∧
          clashesOf (Notice.diagnostics
              (nested.connect "clk" (some (.plain 5)) [.plain 5, .plain 0]).notices)
            = (nested.connect "clk" (some (.plain 5)) [.plain 5, .plain 0]).store.clashReports
              "connection clk" Hop.clash made ∧
          (clashesOf (Notice.diagnostics
              (nested.connect "clk" (some (.plain 5)) [.plain 5, .plain 0]).notices)).map
              (fun d => (d.code, d.subject))
            = (made.filter fun y => y.1.clash && (nested.connect "clk" (some (.plain 5))
                [.plain 5, .plain 0]).store.isAtBoundary y.2).map fun y =>
                  (⟨.warning, 300⟩, some ((nested.connect "clk" (some (.plain 5))
                    [.plain 5, .plain 0]).store.describe y.2)) := by
  have hreachable : nested.Reachable := reachable_execAll _
  have hresult : (nested.connect "clk" (some (.plain 5)) [.plain 5, .plain 0]).result
      = .ok [7, 8, 9, 10] := rfl
  exact ⟨hreachable, hresult, rfl, _, rfl, rfl, directed_of_connect hreachable hresult rfl rfl⟩

end Store

end Interconnect
