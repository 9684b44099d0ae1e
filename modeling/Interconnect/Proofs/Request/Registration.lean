import Interconnect.Proofs.Request.Tracing

/-!
# What pins and ports refer to is registered

A hop whose id is taken does not get its object, but its name is handed down all the same.  The id
is taken by some object, though, and so the name that is handed down is registered whether the hop
has got its object or not.  A pin that was created connects to a name that was handed down to its
hop, a port bears such a name, and the name of a pin on a default instance is handed on to the
module.  So none of these refers to an id under which there is nothing, whichever hops are skipped.
-/

namespace Interconnect.Store

/-- There is an object under the id for a name at an owner. -/
def IsRegistered (s : Store) (k : Kind) (owner : Handle) (name : String) : Prop :=
  ∃ o, s.object? owner = some o ∧ (s.objectById? (k.objectId (o.name ++ "." ++ name))).isSome

/-- What the pins and ports among some objects refer to is registered: for a pin, what it connects
to in the module around its instance, unless the instance is the root, and the port of its name in
the module of the instance, unless that is a resource; for a port, the pin of its name on the
default instance of its module. -/
structure Anchored (s : Store) (root : Handle) (created : List Handle) : Prop where
  connection : ∀ c ∈ created, ∀ {o : Object} {owner : Handle} {connection : String}
    {inverted : Bool} {net : Option Handle}, s.object? c = some o →
    o.body = .part owner (.pin connection inverted net) → owner ≠ root →
    ∃ i parent, s.instance? owner = some i ∧ i.parent = some parent ∧
      (s.IsRegistered .declaration parent connection ∨ s.IsRegistered .port parent connection)
  pin : ∀ c ∈ created, ∀ {o : Object} {owner : Handle} {connection : String} {inverted : Bool}
    {net : Option Handle}, s.object? c = some o →
    o.body = .part owner (.pin connection inverted net) →
    ∃ i m, s.instance? owner = some i ∧ s.module? i.module = some m ∧
      (m.resource = false → s.IsRegistered .port i.module o.name)
  port : ∀ c ∈ created, ∀ {o : Object} {owner : Handle} {direction : PortDirection}
    {net : Option Handle}, s.object? c = some o →
    o.body = .part owner (.port direction net) →
    ∃ m inst, s.module? owner = some m ∧ m.defaultInstance = some inst ∧
      s.IsRegistered .pin inst o.name

/-- An instance and the module it is placed in are still there in a store that has more in it. -/
theorem Extends.exists_parent {s s' : Store} (h : s.Extends s') {inst parent : Handle}
    (ht : s.target .child inst = some parent) :
    ∃ i, s'.instance? inst = some i ∧ i.parent = some parent := by
  rw [← h.hierarchy.child, target_child_eq] at ht
  exact Option.bind_eq_some_iff.1 ht

/-- So are an instance and its module. -/
theorem Extends.exists_module {s s' : Store} (h : s.Extends s') (hs : s.Coherent) {inst : Handle}
    {x : Object} {i : Instance} (hx : s.object? inst = some x) (hi : x.body = .inst i) :
    ∃ i' m, s'.instance? inst = some i' ∧ s'.module? i'.module = some m ∧
      (m.resource = false → s.frame i'.module = some (false, some inst)) := by
  have ht : s'.target .placement inst = some i.module := by
    rw [h.hierarchy.placement]
    exact target_eq_some_iff.2 ⟨x, hx, Object.target_placement_eq_some.2 ⟨i, hi, rfl⟩⟩
  obtain ⟨o, m, ho, hm, -⟩ := hs.wellFormed.module hx hi
  have hf := frame_of_module ho hm
  rw [← h.hierarchy.frame] at hf
  obtain ⟨i', m', hi', -, hm', -⟩ := exists_instance_of_frame ht hf
  refine ⟨i', m', hi', hm', fun hres => ?_⟩
  rw [← h.hierarchy.frame]
  exact h.coherent.frame_of_instance hi' hm' hres

namespace Traced

variable {s s' : Store} {t : Task} {tree : HopTree} {made : List (Hop × Handle)}
  (h : s.Traced s' t tree made) (ht : t.mode = .signal)
  (hplaces : ∀ hop, tree.Passes hop → (s.above? hop.object).isSome)

include h ht hplaces

/-- What a hop hands down is registered, whether the hop has got its object or not. -/
theorem exists_registered {above : Option String} {sub : HopTree}
    (hvisits : t.Visits s none tree above sub)
    (htop : above = none → ∀ d, s.frame sub.hop.object ≠ some (true, d)) :
    ∃ d clash, t.Gets s above sub.hop d clash ∧ d.name = (t.atHop s above sub.hop).2 ∧
      s'.IsRegistered d.part.kind sub.hop.object d.name := by
  have hplace := hplaces _ (hvisits.within.passes sub.passes_hop)
  obtain ⟨d, clash, hstep, hgets, hname⟩ := Task.exists_gets ht hplace htop
  refine ⟨d, clash, hgets, hname, ?_⟩
  obtain ⟨o, ho⟩ := hgets.exists_owner
  obtain ⟨o', ho', hlabel⟩ := label?_eq_some_iff.1 (h.extended.label (label?_of_object? ho))
  have hsame : o'.name = o.name := congrArg Label.name hlabel
  have hregistered := h.registered hvisits hstep
  rw [demandId, name?_of_object? ho, Option.getD_some, partId, ← hsame] at hregistered
  rw [hgets.owner_eq] at ho'
  exact ⟨o', ho', hregistered⟩

section Made

variable (hs : s.Coherent) (hhangs : tree.Hangs s) {y : Hop × Handle} (hy : y ∈ made) {o : Object}
  {owner : Handle} (ho : s'.object? y.2 = some o)

include hs hhangs hy ho

/-- A pin connects to what the module around its instance hands down. -/
theorem connection_isRegistered {connection : String} {inverted : Bool} {net : Option Handle}
    (hbody : o.body = .part owner (.pin connection inverted net))
    (hroot : owner ≠ tree.hop.object) :
    ∃ i parent, s'.instance? owner = some i ∧ i.parent = some parent ∧
      (s'.IsRegistered .declaration parent connection ∨
        s'.IsRegistered .port parent connection) := by
  obtain ⟨above, sub, x, i, hvisits, hhop, howner, hx, hi, rfl, -⟩ := h.exists_of_pin hy ho hbody
  rw [← hhop] at howner
  rcases hvisits.exists_upper with ⟨-, rfl⟩ | ⟨name, hop, branches, hupper, hb, rfl⟩
  · exact absurd howner.symm hroot
  · have habove := hupper.within.above?_eq hhangs hb
    rw [howner] at habove
    rcases hs.above?_cases habove with ⟨hf, -⟩ | ⟨-, hchild, f, hf⟩
    · rw [frame_of_instance_eq_none hx hi] at hf
      cases hf
    · obtain ⟨i', hi', hparent⟩ := h.extended.exists_parent hchild
      refine ⟨i', hop.object, hi', hparent, ?_⟩
      obtain ⟨d, clash, hgets, hname, hregistered⟩ :=
        h.exists_registered ht hplaces hupper fun _ => hs.frame_ne_of_above? habove
      rw [hname] at hregistered
      rcases hgets.at_module hf with ⟨-, hkind⟩ | ⟨-, hkind⟩
      · exact Or.inl (hkind ▸ hregistered)
      · exact Or.inr (hkind ▸ hregistered)

/-- The name of a pin is handed on to the module of its instance. -/
theorem pin_isRegistered {connection : String} {inverted : Bool} {net : Option Handle}
    (hbody : o.body = .part owner (.pin connection inverted net)) :
    ∃ i m, s'.instance? owner = some i ∧ s'.module? i.module = some m ∧
      (m.resource = false → s'.IsRegistered .port i.module o.name) := by
  obtain ⟨above, sub, x, i, hvisits, hhop, rfl, hx, hi, -, hname⟩ := h.exists_of_pin hy ho hbody
  rw [← hhop] at hx hname ⊢
  obtain ⟨i', m, hi', hm, hdefault⟩ := h.extended.exists_module hs hx hi
  refine ⟨i', m, hi', hm, fun hres => ?_⟩
  -- Below a default instance there is a branch at its module.
  cases hvisits.within.hangs hhangs with
  | @node hop branches _ hbelow _ =>
    obtain ⟨b, hb, hobject⟩ := hbelow _ (hdefault hres)
    obtain ⟨d, clash, hgets, -, hregistered⟩ :=
      h.exists_registered ht hplaces (hvisits.branch hb) nofun
    rcases hgets.at_module (hobject ▸ hdefault hres) with ⟨habsurd, -⟩ | ⟨hsame, hkind⟩
    · cases habsurd
    · rw [hkind, hobject, ← Option.some.inj hsame] at hregistered
      exact hname ▸ hregistered

/-- A port has the name of the pin on the default instance of its module. -/
theorem port_isRegistered {direction : PortDirection} {net : Option Handle}
    (hbody : o.body = .part owner (.port direction net)) :
    ∃ m inst, s'.module? owner = some m ∧ m.defaultInstance = some inst ∧
      s'.IsRegistered .pin inst o.name := by
  obtain ⟨name, hop, branches, sub, hupper, -, -, -, -, hf, hname⟩ :=
    h.exists_of_port hy ho hs hhangs hbody
  have hinst := hs.frame_default hf
  obtain ⟨d, clash, hgets, hsame, hregistered⟩ :=
    h.exists_registered ht hplaces hupper fun _ d => by
      rw [HopTree.hop, hinst]
      nofun
  rw [← h.extended.hierarchy.frame] at hf
  obtain ⟨m, hm, -, hdefault⟩ := exists_module_of_frame hf
  refine ⟨m, hop.object, hm, hdefault, ?_⟩
  rw [(hgets.at_instance hinst).1, hsame] at hregistered
  exact hname ▸ hregistered

end Made

/-- What the pins and ports that were made refer to is what hops next to theirs hand down. -/
theorem anchored (hs : s.Coherent) (hhangs : tree.Hangs s) :
    s'.Anchored tree.hop.object (made.map Prod.snd) := by
  constructor
  case connection =>
    intro c hc o owner connection inverted net ho hbody hroot
    obtain ⟨y, hy, rfl⟩ := List.mem_map.1 hc
    exact h.connection_isRegistered ht hplaces hs hhangs hy ho hbody hroot
  case pin =>
    intro c hc o owner connection inverted net ho hbody
    obtain ⟨y, hy, rfl⟩ := List.mem_map.1 hc
    exact h.pin_isRegistered ht hplaces hs hhangs hy ho hbody
  case port =>
    intro c hc o owner direction net ho hbody
    obtain ⟨y, hy, rfl⟩ := List.mem_map.1 hc
    exact h.port_isRegistered ht hplaces hs hhangs hy ho hbody

end Traced

/-- After a connection, what the pins and ports that it has created refer to is registered, also
where ids were taken and hops have been skipped. -/
theorem anchored_of_connect {s : Store} (hs : s.Reachable) {signal : String}
    {source : Option Endpoint} {targets : List Endpoint} {created : List Handle}
    (hok : (s.connect signal source targets).result = .ok created) :
    ∃ tree, (s.spanningTree ("connection " ++ signal) signal (connectionEnds source targets)).result
        = .ok (some tree) ∧
      (s.connect signal source targets).store.Anchored tree.hop.object created := by
  obtain ⟨tree, -, -, htree, -⟩ := hs.errors_of_connect hok
  obtain ⟨hhangs, -, -⟩ := hs.spanningTree_spec htree
  obtain ⟨made, -, rfl, htraced, -⟩ := hs.traced_of_connect hok htree
  have hplaces : ∀ hop, tree.Passes hop → (s.above? hop.object).isSome :=
    fun hop hp => (hs.name_of_passes htree hp).1
  exact ⟨tree, htree, htraced.anchored rfl hplaces hs.coherent hhangs⟩

/-- The memory's instance, the leaf under the name that its port `clk` has already, and the top. -/
def takenEnds : List Endpoint :=
  [.plain 5, { Endpoint.plain 2 with name := some "clk", forced := true }, .plain 0]

/-- In `nested`, the leaf does not get its port.  The pin of that name on the instance of the leaf
refers to the port that is there, and so does the pin in the leaf. -/
theorem anchored_taken :
    nested.Reachable ∧ (nested.connect "clk" none takenEnds).result = .ok [7, 8, 9] ∧
      Notice.diagnostics (nested.connect "clk" none takenEnds).notices
        = [Report.idTaken "connection clk" "port::leaf.clk"] ∧
      ∃ tree, (nested.spanningTree "connection clk" "clk"
          (connectionEnds none takenEnds)).result = .ok (some tree) ∧
        (nested.connect "clk" none takenEnds).store.Anchored tree.hop.object [7, 8, 9] := by
  have hreachable : nested.Reachable := reachable_execAll _
  have hresult : (nested.connect "clk" none takenEnds).result = .ok [7, 8, 9] := rfl
  exact ⟨hreachable, hresult, rfl, anchored_of_connect hreachable hresult⟩

end Interconnect.Store
