import Interconnect.Proofs.Request.Realizing
import Interconnect.Proofs.Route.Separation

/-!
# Parameters and the adjustments that set them

A plan for a parameter asks for a parameter at each module of its tree and for an adjustment at
each instance.  An adjustment sets the parameter of its name in the module of its instance, and
its value is the name of a parameter in the module that the instance is placed in.  So a parameter
takes its value from the adjustment on the default instance, and an adjustment takes its value from
the parameter that it names; going on in this way leads to the parameter on top.

`Gives` is what one hop asks for and `Draws` is one step from a demand to the one above it.
`Parametrized` states of a store how the objects that were created fit together, and
`parametrized_of_drawn` derives it from the demands.
-/

namespace Interconnect

namespace Task

/-! ## What a plan asks for -/

/-- What a hop of a parameter asks for.  `above` is the name that was handed down to it. -/
inductive Gives (t : Task) (s : Store) (value : String) (isLocal : Bool) (hop : Hop) :
    Option String → Demand → Prop where
  | root {f : Bool × Option Handle} : s.frame hop.object = some f →
    Gives t s value isLocal hop none ⟨hop.object, t.nameAt hop, .parameter value isLocal⟩
  | parameter {f : Bool × Option Handle} (name : String) : s.frame hop.object = some f →
    Gives t s value isLocal hop (some name) ⟨hop.object, name, .parameter value false⟩
  | adjustment {m : Handle} (outer : String) : s.target .placement hop.object = some m →
    Gives t s value isLocal hop (some outer) ⟨hop.object, t.nameAt hop, .adjustment outer⟩

/-- One step up: from a parameter to the adjustment of its name on the default instance, and from
an adjustment to the parameter in the module above that its value names. -/
inductive Draws (s : Store) (value : String) (D : List Demand) (d c : Demand) : Prop where
  | parameter {outer : String} :
    d.part = .parameter value false → s.frame d.owner = some (false, some c.owner) →
    c.part = .adjustment outer → c.name = d.name → c ∈ D → Draws s value D d c
  | adjustment {isLocal : Bool} :
    d.part = .adjustment c.name → s.target .child d.owner = some c.owner →
    c.part = .parameter value isLocal → c ∈ D → Draws s value D d c

/-- A demand leads up to the topmost one, and an adjustment on a default instance sets a parameter
of the module. -/
structure Drawn (s : Store) (value : String) (D : List Demand) (top d : Demand) : Prop where
  up : ∃ c, Draws s value D d c ∧ Relation.ReflTransGen (Draws s value D) c top
  down : ∀ m, s.frame m = some (false, some d.owner) →
    ∃ e ∈ D, e.owner = m ∧ e.name = d.name ∧ ∃ isLocal, e.part = .parameter value isLocal

section Gives

variable {t : Task} {s : Store} {value : String} {isLocal : Bool} {hop : Hop}
  {above : Option String} {d : Demand}

theorem Wants.gives (ht : t.mode = .parameter value isLocal) (h : t.Wants s above hop d) :
    t.Gives s value isLocal hop above d := by
  obtain ⟨clash, hsteps⟩ := h.steps
  unfold atHop at hsteps
  split at hsteps
  · cases hsteps
  · rename_i o ho
    split at hsteps
    · rename_i m hm
      have hframe := Store.frame_of_module ho hm
      unfold atModule at hsteps
      rw [ht] at hsteps
      cases above with
      | some name =>
        cases hsteps
        exact .parameter name hframe
      | none =>
        cases hsteps
        exact .root hframe
    · rename_i i hi
      have htarget := Store.target_eq_some_iff.2
        ⟨o, ho, Object.target_placement_eq_some.2 ⟨i, hi, rfl⟩⟩
      unfold atInstance at hsteps
      rw [ht] at hsteps
      cases above with
      | some outer =>
        cases hsteps
        exact .adjustment outer htarget
      | none => cases isLocal <;> simp [topInstance, ht] at hsteps
    · cases hsteps

/-- At a module there is a parameter. -/
theorem Gives.at_module (h : t.Gives s value isLocal hop above d) {f : Bool × Option Handle}
    (hf : s.frame d.owner = some f) : ∃ isLocal', d.part = .parameter value isLocal' := by
  cases h with
  | root => exact ⟨_, rfl⟩
  | parameter => exact ⟨_, rfl⟩
  | adjustment outer htarget =>
    rw [Store.target_eq_none_of_frame hf] at htarget
    cases htarget

/-- At an instance there is an adjustment. -/
theorem Gives.at_instance (h : t.Gives s value isLocal hop above d) {m : Handle}
    (ht : s.target .placement d.owner = some m) : ∃ outer, d.part = .adjustment outer := by
  cases h with
  | root hf =>
    rw [Store.target_eq_none_of_frame hf] at ht
    cases ht
  | parameter name hf =>
    rw [Store.target_eq_none_of_frame hf] at ht
    cases ht
  | adjustment outer _ => exact ⟨outer, rfl⟩

end Gives

/-- Names lead up from other places than the topmost one. -/
theorem Hung.owner_ne {t : Task} {s : Store} (hs : s.Reachable) {D : List Demand}
    {top d : Demand} (h : t.Hung s D top d) : d.owner ≠ top.owner := by
  obtain ⟨c, hunder, hclimb⟩ := h.up
  have hbelow : s.Below c.owner top.owner :=
    hclimb.lift Demand.owner fun _ _ hstep => hstep.above
  intro heq
  rw [← heq] at hbelow
  exact hs.not_below hunder.above hbelow

section Climb

variable {t : Task} {value : String} {isLocal : Bool} (ht : t.mode = .parameter value isLocal)
  {s : Store} (hs : s.Coherent) {D : List Demand}

include ht hs

/-- A name that is handed down is one step up. -/
theorem Under.draws {d c : Demand} (h : t.Under s D d c) : Draws s value D d c := by
  obtain ⟨hop, hwants⟩ := h.wants
  obtain ⟨hop', above, hwants'⟩ := h.wanted
  have hgives := hwants.gives ht
  have hgives' := hwants'.gives ht
  generalize hname : some c.name = handed at hgives
  rcases hs.above?_cases h.above with ⟨hframe, htarget⟩ | ⟨hnone, htarget, f, hframe⟩
  · obtain ⟨outer, hpart⟩ := hgives'.at_instance htarget
    cases hgives with
    | root => cases hname
    | parameter name _ =>
      cases hname
      exact .parameter rfl hframe hpart rfl h.mem
    | adjustment _ hplaced =>
      rw [Store.target_eq_none_of_frame hframe] at hplaced
      cases hplaced
  · obtain ⟨isLocal', hpart⟩ := hgives'.at_module hframe
    cases hgives with
    | root => cases hname
    | parameter name hf =>
      rw [hnone] at hf
      cases hf
    | adjustment outer _ =>
      cases hname
      exact .adjustment rfl htarget hpart h.mem

theorem Hung.drawn {top d : Demand} (h : t.Hung s D top d) : Drawn s value D top d := by
  obtain ⟨⟨c, hunder, hclimb⟩, hdown⟩ := h
  have hdraws : Relation.ReflTransGen (Draws s value D) c top :=
    hclimb.lift id fun _ _ h => Under.draws ht hs h
  refine ⟨⟨c, hunder.draws ht hs, hdraws⟩, fun m hm => ?_⟩
  obtain ⟨e, he, rfl, hop, hwants⟩ := hdown m hm
  have hgives := hwants.gives ht
  generalize hname : some d.name = handed at hgives
  cases hgives with
  | root => cases hname
  | parameter name =>
    cases hname
    exact ⟨_, he, rfl, rfl, false, rfl⟩
  | adjustment outer htarget =>
    rw [Store.target_eq_none_of_frame hm] at htarget
    cases htarget

end Climb

end Task

namespace Store

/-! ## What was created -/

/-- A parameter of a module. -/
def IsParameter (s : Store) (c module : Handle) (name value : String) (isLocal : Bool) : Prop :=
  s.Holds c module name (.parameter value isLocal)

/-- An adjustment on an instance. -/
def IsAdjustment (s : Store) (c inst : Handle) (name value : String) : Prop :=
  s.Holds c inst name (.adjustment value)

/-- One step up: a parameter takes its value from the adjustment of its name on the default
instance, and an adjustment takes it from the parameter that it names in the module that its
instance is placed in. -/
inductive TakesFrom (s : Store) (created : List Handle) (c d : Handle) : Prop where
  | parameter {m inst : Handle} {name value outer : String} {isLocal : Bool} :
    s.IsParameter c m name value isLocal →
    (s.module? m).bind Module.defaultInstance = some inst →
    d ∈ created → s.IsAdjustment d inst name outer → TakesFrom s created c d
  | adjustment {inst parent : Handle} {name outer value : String} {isLocal : Bool} :
    s.IsAdjustment c inst name outer →
    (s.instance? inst).bind Instance.parent = some parent →
    d ∈ created → s.IsParameter d parent outer value isLocal → TakesFrom s created c d

/-- The objects give a parameter to the module `root` and to what is below. -/
structure Parametrized (s : Store) (root : Handle) (value : String) (isLocal : Bool)
    (created : List Handle) : Prop where
  nodup : created.Nodup
  isModule : ∃ m, s.module? root = some m
  /-- There is one parameter in the root, local or not as requested.  No other is local. -/
  topmost : ∃ c ∈ created, (∃ name, s.IsParameter c root name value isLocal) ∧
    ∀ c' ∈ created, c' ≠ c → ∀ {m : Handle} {name value' : String} {isLocal' : Bool},
      s.IsParameter c' m name value' isLocal' → m ≠ root ∧ isLocal' = false
  /-- Every parameter has the default value. -/
  defaults : ∀ c ∈ created, ∀ {m : Handle} {name value' : String} {isLocal' : Bool},
    s.IsParameter c m name value' isLocal' → value' = value
  /-- The value of an adjustment is the name of a parameter in the module that its instance is
  placed in. -/
  adjustment : ∀ c ∈ created, ∀ {inst : Handle} {name outer : String},
    s.IsAdjustment c inst name outer →
    ∃ parent, (s.instance? inst).bind Instance.parent = some parent ∧
      ∃ d ∈ created, ∃ value' isLocal', s.IsParameter d parent outer value' isLocal'
  /-- An adjustment sets a parameter of its name, unless the module is a resource. -/
  inner : ∀ c ∈ created, ∀ {inst : Handle} {name outer : String},
    s.IsAdjustment c inst name outer → ∀ {i : Instance} {m : Module},
    s.instance? inst = some i → s.module? i.module = some m → m.resource = false →
    ∃ d ∈ created, ∃ value' isLocal', s.IsParameter d i.module name value' isLocal'
  /-- Below the root, a parameter is set by an adjustment of its name on the default instance. -/
  parameter : ∀ c ∈ created, ∀ {m : Handle} {name value' : String} {isLocal' : Bool},
    s.IsParameter c m name value' isLocal' → m ≠ root →
    ∃ inst, (s.module? m).bind Module.defaultInstance = some inst ∧
      ∃ d ∈ created, ∃ outer, s.IsAdjustment d inst name outer
  /-- Every object takes its value from the parameter in the root. -/
  reaches : ∀ c ∈ created, ∃ d ∈ created, (∃ name, s.IsParameter d root name value isLocal) ∧
    Relation.ReflTransGen (s.TakesFrom created) c d

/-- The objects give the parameter to an endpoint: to its module, or to the endpoint itself if it
is an instance of a resource. -/
inductive Supplied (s : Store) (created : List Handle) (h : Handle) : Prop where
  | module {m : Module} {c : Handle} {name value : String} {isLocal : Bool} :
    s.module? h = some m → c ∈ created → s.IsParameter c h name value isLocal →
    Supplied s created h
  | inst {i : Instance} {m : Module} {c : Handle} {name value : String} {isLocal : Bool} :
    s.instance? h = some i → s.module? i.module = some m → m.resource = false →
    c ∈ created → s.IsParameter c i.module name value isLocal → Supplied s created h
  | placement {i : Instance} {m : Module} {c : Handle} {name outer : String} :
    s.instance? h = some i → s.module? i.module = some m → m.resource = true →
    c ∈ created → s.IsAdjustment c h name outer → Supplied s created h

section Objects

variable {s : Store} {created : List Handle} {c d : Handle}

theorem IsParameter.not_isAdjustment {m inst : Handle} {name name' value outer : String}
    {isLocal : Bool} (h : s.IsParameter c m name value isLocal) :
    ¬ s.IsAdjustment c inst name' outer := by
  intro h'
  cases (Holds.unique h h').2.2

theorem IsParameter.unique {m m' : Handle} {name name' value value' : String}
    {isLocal isLocal' : Bool} (h : s.IsParameter c m name value isLocal)
    (h' : s.IsParameter c m' name' value' isLocal') :
    m = m' ∧ name = name' ∧ value = value' ∧ isLocal = isLocal' := by
  obtain ⟨hm, hname, hpart⟩ := Holds.unique h h'
  cases hpart
  exact ⟨hm, hname, rfl, rfl⟩

theorem IsAdjustment.unique {inst inst' : Handle} {name name' outer outer' : String}
    (h : s.IsAdjustment c inst name outer) (h' : s.IsAdjustment c inst' name' outer') :
    inst = inst' ∧ name = name' ∧ outer = outer' := by
  obtain ⟨hinst, hname, hpart⟩ := Holds.unique h h'
  cases hpart
  exact ⟨hinst, hname, rfl⟩

theorem TakesFrom.of_isAdjustment (h : s.TakesFrom created c d) {inst : Handle}
    {name outer : String} (hc : s.IsAdjustment c inst name outer) :
    ∃ parent, (s.instance? inst).bind Instance.parent = some parent ∧
      ∃ d ∈ created, ∃ value isLocal, s.IsParameter d parent outer value isLocal := by
  cases h with
  | parameter hparameter => exact absurd hc hparameter.not_isAdjustment
  | adjustment hadjustment hparent hd hparameter =>
    obtain ⟨rfl, rfl, rfl⟩ := hc.unique hadjustment
    exact ⟨_, hparent, d, hd, _, _, hparameter⟩

theorem TakesFrom.of_isParameter (h : s.TakesFrom created c d) {m : Handle}
    {name value : String} {isLocal : Bool} (hc : s.IsParameter c m name value isLocal) :
    ∃ inst, (s.module? m).bind Module.defaultInstance = some inst ∧
      ∃ d ∈ created, ∃ outer, s.IsAdjustment d inst name outer := by
  cases h with
  | parameter hparameter hinst hd hadjustment =>
    obtain ⟨rfl, rfl, -, -⟩ := hc.unique hparameter
    exact ⟨_, hinst, d, hd, _, hadjustment⟩
  | adjustment hadjustment => exact absurd hadjustment hc.not_isAdjustment

end Objects

/-! ## From demands to objects -/

section Demands

variable {s s' : Store} {value : String} {isLocal : Bool} {D : List Demand}
  {created : List Handle}

/-- The demand got the object. -/
def Obtains (s : Store) (d : Demand) (c : Handle) : Prop :=
  s.Holds c d.owner d.name d.part

theorem Obtains.isParameter {d : Demand} {c : Handle} (h : s.Obtains d c)
    (hd : d.part = .parameter value isLocal) : s.IsParameter c d.owner d.name value isLocal := by
  unfold Obtains at h
  rwa [hd] at h

theorem Obtains.isAdjustment {d : Demand} {c : Handle} (h : s.Obtains d c) {outer : String}
    (hd : d.part = .adjustment outer) : s.IsAdjustment c d.owner d.name outer := by
  unfold Obtains at h
  rwa [hd] at h

/-- One step up among demands is one step up among objects. -/
theorem exists_takesFrom (hh : SameHierarchy s s')
    (hgot : List.Forall₂ s'.Obtains D created) {d e : Demand}
    (hdraws : Task.Draws s value D d e) {c : Handle} (hc : s'.Obtains d c) :
    ∃ c' ∈ created, s'.Obtains e c' ∧ s'.TakesFrom created c c' := by
  cases hdraws with
  | parameter hd hframe he hname hmem =>
    obtain ⟨c', hc', hgot'⟩ := exists_right_of_mem hgot hmem
    rw [← hh.frame] at hframe
    have hadjustment := hgot'.isAdjustment he
    rw [hname] at hadjustment
    exact ⟨c', hc', hgot', .parameter (hc.isParameter hd) (defaultInstance_of_frame hframe) hc'
      hadjustment⟩
  | adjustment hd htarget he hmem =>
    obtain ⟨c', hc', hgot'⟩ := exists_right_of_mem hgot hmem
    rw [← hh.child, target_child_eq] at htarget
    exact ⟨c', hc', hgot', .adjustment (hc.isAdjustment hd) htarget hc' (hgot'.isParameter he)⟩

/-- A parameter that was not asked for on top has the default value and is not local. -/
theorem Obtains.eq_of_draws {d e : Demand} {c : Handle} (h : s'.Obtains d c)
    (hdraws : Task.Draws s value D d e) {m : Handle} {name value' : String} {isLocal' : Bool}
    (hc : s'.IsParameter c m name value' isLocal') :
    m = d.owner ∧ value' = value ∧ isLocal' = false := by
  cases hdraws with
  | parameter hd =>
    obtain ⟨howner, -, hvalue, hlocal⟩ := hc.unique (h.isParameter hd)
    exact ⟨howner, hvalue, hlocal⟩
  | adjustment hd => exact absurd (h.isAdjustment hd) hc.not_isAdjustment

end Demands

/-- If the demands lead up to the topmost one, which is for a parameter in a module, then the
objects that they got give the parameter to the modules. -/
theorem parametrized_of_drawn {s s' : Store} (hs' : s'.Coherent) (hh : SameHierarchy s s')
    {value : String} {isLocal : Bool} {top : Demand} {rest : List Demand} {created : List Handle}
    (hgot : List.Forall₂ s'.Obtains (top :: rest) created) (hnodup : created.Nodup)
    {f : Bool × Option Handle} (hframe : s.frame top.owner = some f)
    (htop : top.part = .parameter value isLocal)
    (hdrawn : ∀ d ∈ rest, Task.Drawn s value (top :: rest) top d)
    (hapart : ∀ d ∈ rest, d.owner ≠ top.owner) :
    s'.Parametrized top.owner value isLocal created := by
  cases hgot with
  | @cons _ c₀ _ cs hgot₀ hrest =>
    have hgot : List.Forall₂ s'.Obtains (top :: rest) (c₀ :: cs) := .cons hgot₀ hrest
    have hroot := hgot₀.isParameter htop
    -- Whatever is not the parameter in the root was asked for below it.
    have hbelow : ∀ c ∈ c₀ :: cs, c = c₀ ∨ ∃ d ∈ rest, s'.Obtains d c ∧
        ∃ e, Task.Draws s value (top :: rest) d e := by
      intro c hc
      rcases List.mem_cons.1 hc with rfl | hc
      · exact Or.inl rfl
      · obtain ⟨d, hd, hgot'⟩ := exists_left_of_mem hrest hc
        obtain ⟨e, hdraws, -⟩ := (hdrawn d hd).up
        exact Or.inr ⟨d, hd, hgot', e, hdraws⟩
    constructor
    case nodup => exact hnodup
    case isModule =>
      rw [← hh.frame] at hframe
      obtain ⟨m, hm, -⟩ := exists_module_of_frame hframe
      exact ⟨m, hm⟩
    case topmost =>
      refine ⟨c₀, List.mem_cons_self, ⟨_, hroot⟩, fun c hc hne m name value' isLocal' hc' => ?_⟩
      obtain ⟨d, hd, hgot', e, hdraws⟩ := (hbelow c hc).resolve_left hne
      obtain ⟨rfl, -, hlocal⟩ := hgot'.eq_of_draws hdraws hc'
      exact ⟨hapart d hd, hlocal⟩
    case defaults =>
      intro c hc m name value' isLocal' hc'
      rcases hbelow c hc with rfl | ⟨d, -, hgot', e, hdraws⟩
      · exact (hc'.unique hroot).2.2.1
      · exact (hgot'.eq_of_draws hdraws hc').2.1
    case adjustment =>
      intro c hc inst name outer hadjustment
      rcases hbelow c hc with rfl | ⟨d, -, hgot', e, hdraws⟩
      · exact absurd hadjustment hroot.not_isAdjustment
      · obtain ⟨c', -, -, htakes⟩ := exists_takesFrom hh hgot hdraws hgot'
        exact htakes.of_isAdjustment hadjustment
    case inner =>
      intro c hc inst name outer hadjustment i m hi hm hres
      have hdefault := hs'.frame_of_instance hi hm hres
      rw [hh.frame] at hdefault
      rcases hbelow c hc with rfl | ⟨d, hd, hgot', e, hdraws⟩
      · exact absurd hadjustment hroot.not_isAdjustment
      · cases hdraws with
        | parameter hpart => exact absurd hadjustment (hgot'.isParameter hpart).not_isAdjustment
        | adjustment hpart =>
          obtain ⟨rfl, rfl, -⟩ := hadjustment.unique (hgot'.isAdjustment hpart)
          obtain ⟨e', he', howner, hname, isLocal', hpart'⟩ := (hdrawn d hd).down _ hdefault
          obtain ⟨c', hc', hgot''⟩ := exists_right_of_mem hgot he'
          have hparameter := hgot''.isParameter hpart'
          rw [howner, hname] at hparameter
          exact ⟨c', hc', _, _, hparameter⟩
    case parameter =>
      intro c hc m name value' isLocal' hparameter hne
      rcases hbelow c hc with rfl | ⟨d, -, hgot', e, hdraws⟩
      · exact absurd (hparameter.unique hroot).1 hne
      · obtain ⟨c', -, -, htakes⟩ := exists_takesFrom hh hgot hdraws hgot'
        exact htakes.of_isParameter hparameter
    case reaches =>
      intro c hc
      obtain ⟨d, hd, hgot'⟩ := exists_left_of_mem hgot hc
      have hclimb : Relation.ReflTransGen (Task.Draws s value (top :: rest)) d top := by
        rcases List.mem_cons.1 hd with rfl | hd
        · exact .refl
        · obtain ⟨e, hdraws, hrest⟩ := (hdrawn d hd).up
          exact .head hdraws hrest
      obtain ⟨c', hc', hgot'', hreach⟩ := exists_reflTransGen hclimb hc hgot'
        fun hgot' hdraws => exists_takesFrom hh hgot hdraws hgot'
      exact ⟨c', hc', ⟨_, hgot''.isParameter htop⟩, hreach⟩

end Store

end Interconnect
