import Interconnect.Proofs.Request.Handover

/-!
# What a plan for a signal asks for

A plan in which nothing is reported asks for one object at each hop of its tree: for a
declaration on top, for a port at every other module, and for a pin at every instance.  The
name of each object is handed down.  So a port bears the name of the pin on the default
instance above it, and a pin connects to the name of the object in the module above it; going
up in this way leads to the declaration.

`Asks` is what one hop asks for, and `Up` is one step from a demand to the one above it.
-/

namespace Interconnect

namespace Task

/-- What a hop of a signal asks for.  `above` is the name that was handed down to it. -/
inductive Asks (t : Task) (s : Store) (hop : Hop) : Option String → Demand → Prop where
  | declaration {o : Object} {m : Module} :
    s.object? hop.object = some o → o.body = .module m → m.resource = false →
    Asks t s hop none
      ⟨hop.object, t.ownName hop Naming.signalName, .declaration true none none⟩
  | port {o : Object} {m : Module} (name : String) :
    s.object? hop.object = some o → o.body = .module m →
    Asks t s hop (some name) ⟨hop.object, name, .port hop.heading.portDirection none⟩
  | pin {o : Object} {i : Instance} (connection : String) :
    s.object? hop.object = some o → o.body = .inst i →
    Asks t s hop (some connection)
      ⟨hop.object, t.ownName hop fun n => Naming.pinName n hop.heading,
        .pin connection hop.inverted none⟩

theorem Asks.owner_eq {t : Task} {s : Store} {hop : Hop} {above : Option String} {d : Demand}
    (h : Asks t s hop above d) : d.owner = hop.object := by
  cases h <;> rfl

/-- What a hop of a signal wants is what it asks for. -/
theorem Wants.asks {t : Task} (ht : t.mode = .signal) {s : Store} {hop : Hop}
    {above : Option String} {d : Demand} (h : t.Wants s above hop d) : Asks t s hop above d := by
  obtain ⟨clash, hsteps⟩ := h.steps
  unfold atHop at hsteps
  split at hsteps
  · cases hsteps
  · rename_i o ho
    split at hsteps
    · rename_i m hm
      unfold atModule at hsteps
      rw [ht] at hsteps
      cases above with
      | some name =>
        cases hsteps
        exact .port name ho hm
      | none =>
        dsimp only at hsteps
        split at hsteps
        · cases hsteps
        · rename_i hres
          cases hsteps
          exact .declaration ho hm (Bool.eq_false_iff.2 hres)
    · rename_i i hi
      unfold atInstance at hsteps
      rw [ht] at hsteps
      cases above with
      | some connection =>
        cases hsteps
        exact .pin connection ho hi
      | none => simp [topInstance, ht] at hsteps
    · cases hsteps

/-- An instance on top is reported. -/
theorem unnamedInstance_mem_plan {t : Task} (ht : t.mode = .signal) {s : Store}
    {tree : HopTree} {o : Object} {i : Instance} (ho : s.object? tree.hop.object = some o)
    (hi : o.body = .inst i) :
    .report (Report.unnamedInstance t.request o.id) ∈ t.plan s none tree := by
  cases tree with
  | node hop branches =>
    rw [HopTree.hop] at ho
    unfold plan atHop
    rw [ho]
    dsimp only
    rw [hi]
    simp [atInstance, topInstance, ht]

/-! ## A whole tree -/

section Place

variable {t : Task} {s : Store}

/-- Nothing is wrong with a hop in the hierarchy that is not on top. -/
theorem creates_of_some {hop : Hop} (hplace : (s.above? hop.object).isSome) (name : String) :
    ∀ step ∈ (t.atHop s (some name) hop).1, step.Creates := by
  obtain ⟨o, -, ⟨m, -, hsteps⟩ | ⟨i, -, hsteps⟩⟩ := atHop_cases t (some name) hplace
  · rw [hsteps]
    unfold atModule
    cases t.mode with
    | signal | parameter =>
      intro step hstep
      rw [List.mem_singleton.1 hstep]
      rfl
  · rw [hsteps]
    unfold atInstance
    cases t.mode with
    | signal | parameter =>
      intro step hstep
      rw [List.mem_singleton.1 hstep]
      rfl

/-- Nothing is wrong with a tree below a place of the hierarchy. -/
theorem clean_of_some {tree : HopTree} (hhangs : tree.Hangs s)
    (hplace : (s.above? tree.hop.object).isSome) (name : String) : t.Clean s (some name) tree := by
  induction hhangs generalizing name with
  | node habove _ _ ih =>
    refine clean_node (creates_of_some hplace name) fun b hb => ih b hb ?_ _
    rw [habove b hb, Option.isSome_some]

variable (ht : t.mode = .signal)

include ht

/-- Nothing is wrong with a module on top that is no resource. -/
theorem creates_of_none {hop : Hop} {d : Option Handle}
    (hf : s.frame hop.object = some (false, d)) :
    ∀ step ∈ (t.atHop s none hop).1, step.Creates := by
  obtain ⟨m, hm, hres, -⟩ := Store.exists_module_of_frame hf
  obtain ⟨o, ho, hbody⟩ := Option.bind_eq_some_iff.1 hm
  unfold atHop
  rw [ho]
  dsimp only
  rw [Object.module?_eq_some.1 hbody]
  unfold atModule
  rw [ht]
  dsimp only
  rw [hres, if_neg Bool.false_ne_true]
  intro step hstep
  rw [List.mem_singleton.1 hstep]
  rfl

/-- Nothing is wrong with a tree that has a module on top if the module is no resource. -/
theorem clean_of_frame {tree : HopTree} (hhangs : tree.Hangs s) {d : Option Handle}
    (hf : s.frame tree.hop.object = some (false, d)) : t.Clean s none tree := by
  cases hhangs with
  | node habove _ hbranches =>
    refine clean_node (creates_of_none ht hf) fun b hb =>
      clean_of_some (hbranches b hb) ?_ _
    rw [habove b hb, Option.isSome_some]

end Place

/-- A clean tree asks for the object of its topmost hop, and then for those of its branches. -/
theorem demands_node {t : Task} (ht : t.mode = .signal) {s : Store} {above : Option String}
    {hop : Hop} {branches : List HopTree} (hclean : t.Clean s above (.node hop branches)) :
    ∃ d, Asks t s hop above d ∧ (∀ b ∈ branches, t.Clean s (some d.name) b) ∧
      t.demands s above (.node hop branches)
        = d :: branches.flatMap (t.demands s (some d.name)) := by
  obtain ⟨d, hwants, hrest⟩ := exists_wants_node hclean
  exact ⟨d, hwants.asks ht, hrest⟩

/-- The demands of a clean tree are what its hops ask for, one after the other. -/
theorem demands_asked {t : Task} (ht : t.mode = .signal) {s : Store} (tree : HopTree)
    {above : Option String} (hclean : t.Clean s above tree) :
    List.Forall₂ (fun hop d => ∃ above, Asks t s hop above d) tree.hops
      (t.demands s above tree) :=
  (demands_wanted tree hclean).imp fun _ _ ⟨above, hwants⟩ => ⟨above, hwants.asks ht⟩

/-- The demand is for what can stand at its owner. -/
inductive Stands (s : Store) (d : Demand) : Prop where
  | atModule {o : Object} {m : Module} : s.object? d.owner = some o → o.body = .module m →
    ((∃ direction, d.part = .port direction none) ∨ d.part = .declaration true none none) →
    Stands s d
  | atInstance {o : Object} {i : Instance} {connection : String} {inverted : Bool} :
    s.object? d.owner = some o → o.body = .inst i → d.part = .pin connection inverted none →
    Stands s d

theorem Asks.stands {t : Task} {s : Store} {hop : Hop} {above : Option String} {d : Demand}
    (h : Asks t s hop above d) : Stands s d := by
  cases h with
  | declaration ho hm _ => exact .atModule ho hm (Or.inr rfl)
  | port name ho hm => exact .atModule ho hm (Or.inl ⟨_, rfl⟩)
  | pin connection ho hi => exact .atInstance ho hi rfl

/-- One step up: from a port to the pin of its name on the default instance, and from a pin to
the object in the module above that it connects to. -/
inductive Up (s : Store) (D : List Demand) (d e : Demand) : Prop where
  | port {direction : PortDirection} {connection : String} {inverted : Bool} :
    d.part = .port direction none → s.frame d.owner = some (false, some e.owner) →
    e.part = .pin connection inverted none → e.name = d.name → e ∈ D → Up s D d e
  | pin {connection : String} {inverted : Bool} :
    d.part = .pin connection inverted none → s.target .child d.owner = some e.owner →
    ((∃ direction, e.part = .port direction none) ∨ e.part = .declaration true none none) →
    e.name = connection → e ∈ D → Up s D d e

/-- A demand leads up to the topmost one, and a pin on a default instance goes on in the module
of the instance. -/
structure Linked (s : Store) (D : List Demand) (top d : Demand) : Prop where
  up : ∃ e, Up s D d e ∧ Relation.ReflTransGen (Up s D) e top
  down : ∀ connection inverted, d.part = .pin connection inverted none →
    ∀ m, s.frame m = some (false, some d.owner) →
    ∃ e ∈ D, e.owner = m ∧ e.name = d.name ∧ ∃ direction, e.part = .port direction none

/-- What stands at a module is a port or a declaration. -/
theorem Stands.at_module {s : Store} {d : Demand} (hd : Stands s d) {f : Bool × Option Handle}
    (hf : s.frame d.owner = some f) :
    (∃ direction, d.part = .port direction none) ∨ d.part = .declaration true none none := by
  cases hd with
  | atModule _ _ hpart => exact hpart
  | atInstance ho hi _ =>
    rw [Store.frame_of_instance_eq_none ho hi] at hf
    cases hf

/-- What stands at an instance is a pin. -/
theorem Stands.at_instance {s : Store} {d : Demand} (hd : Stands s d) {m : Handle}
    (ht : s.target .placement d.owner = some m) :
    ∃ connection inverted, d.part = .pin connection inverted none := by
  cases hd with
  | atModule ho hm _ =>
    rw [Store.target_eq_none_of_frame (Store.frame_of_module ho hm)] at ht
    cases ht
  | atInstance _ _ hpart => exact ⟨_, _, hpart⟩

section Climb

variable {t : Task} (ht : t.mode = .signal) {s : Store}

include ht

section Coherent

variable (hs : s.Coherent) {D : List Demand}

include hs

/-- A name that is handed down is one step up. -/
theorem Under.up {d c : Demand} (h : t.Under s D d c) : Up s D d c := by
  obtain ⟨hop, hwants⟩ := h.wants
  obtain ⟨hop', above, hwants'⟩ := h.wanted
  have hasks := hwants.asks ht
  have hstands := (hwants'.asks ht).stands
  generalize hname : some c.name = handed at hasks
  rcases hs.above?_cases h.above with ⟨hframe, htarget⟩ | ⟨hnone, htarget, f, hframe⟩
  · obtain ⟨connection, inverted, hpart⟩ := hstands.at_instance htarget
    cases hasks with
    | declaration => cases hname
    | port name ho hm =>
      cases hname
      exact .port rfl hframe hpart rfl h.mem
    | pin connection ho hi =>
      rw [Store.frame_of_instance_eq_none ho hi] at hframe
      cases hframe
  · have hpart := hstands.at_module hframe
    cases hasks with
    | declaration => cases hname
    | port name ho hm =>
      rw [Store.frame_of_module ho hm] at hnone
      cases hnone
    | pin connection =>
      cases hname
      exact .pin rfl htarget hpart rfl h.mem

theorem Hung.linked {top d : Demand} (h : t.Hung s D top d) : Linked s D top d := by
  obtain ⟨⟨c, hunder, hclimb⟩, hdown⟩ := h
  have hups : Relation.ReflTransGen (Up s D) c top :=
    hclimb.lift id fun _ _ h => Under.up ht hs h
  refine ⟨⟨c, hunder.up ht hs, hups⟩, fun _ _ _ m hm => ?_⟩
  obtain ⟨e, he, howner, hop, hwants⟩ := hdown m hm
  have hasks := hwants.asks ht
  generalize hname : some d.name = handed at hasks
  cases hasks with
  | declaration => cases hname
  | port name =>
    cases hname
    exact ⟨_, he, howner, rfl, _, rfl⟩
  | pin connection ho hi =>
    rw [← howner, Store.frame_of_instance_eq_none ho hi] at hm
    cases hm

/-- A plan for a signal, in which nothing is reported, asks for a declaration on top, and every
other demand leads up to it. -/
theorem demands_spec {tree : HopTree} (hh : HopTree.Hangs s tree) (hclean : t.Clean s none tree) :
    ∃ top rest, t.demands s none tree = top :: rest ∧ top.owner = tree.hop.object ∧
      top.part = .declaration true none none ∧
      ∀ d ∈ rest, Linked s (top :: rest) top d := by
  obtain ⟨top, rest, hdemands, hwants, hhung⟩ := demands_hung hh hclean
  refine ⟨top, rest, hdemands, hwants.owner_eq, ?_, fun d hd => (hhung d hd).linked ht hs⟩
  have hasks := hwants.asks ht
  generalize hname : (none : Option String) = handed at hasks
  cases hasks with
  | declaration => rfl
  | port => cases hname
  | pin => cases hname

end Coherent

/-- Every hop of a clean tree has its demand. -/
theorem exists_demand_of_passes {tree : HopTree} {hop : Hop} (hp : HopTree.Passes tree hop)
    {above : Option String} (hclean : t.Clean s above tree) :
    ∃ d ∈ t.demands s above tree, d.owner = hop.object ∧ Stands s d := by
  obtain ⟨d, hd, above', hwants⟩ := exists_wanted_of_passes hp hclean
  exact ⟨d, hd, hwants.owner_eq, (hwants.asks ht).stands⟩

end Climb

end Task

end Interconnect
