import Interconnect.Proofs.Store.Hierarchy
import Interconnect.Proofs.Store.Identity

/-!
# Containment

No module comes to contain itself.  What that means is said downwards: `Contains` follows the lists
of instances from a module to the modules inside it, at any depth.  What is checked is a climb: the
place of a new instance must not be found above itself.  In a coherent store both say the same of a
container that is no resource (`mem_climb_iff`), since such a module has one instance, and that is
where the climb goes on.

So it is known which placements are accepted, and which are refused because of a cycle
(`placement_decided`).
-/

namespace Interconnect.Store

/-! ## Downwards and upwards -/

/-- Directly inside `outer` there is an instance of `inner`. -/
def Includes (s : Store) (outer inner : Handle) : Prop :=
  ∃ m inst i, s.module? outer = some m ∧ inst ∈ m.children ∧ s.instance? inst = some i ∧
    i.module = inner

/-- Inside the one module, at some depth, there is an instance of the other. -/
def Contains (s : Store) : Handle → Handle → Prop :=
  Relation.TransGen s.Includes

namespace Coherent

variable {s : Store} (hs : s.Coherent)

include hs

/-- An instance says itself what it is inside of. -/
theorem includes_iff {outer inner : Handle} :
    s.Includes outer inner ↔
      ∃ inst, s.target .child inst = some outer ∧ s.target .placement inst = some inner := by
  constructor
  · rintro ⟨m, inst, i, hm, hmem, hi, rfl⟩
    obtain ⟨o, ho, hbody⟩ := Option.bind_eq_some_iff.1 hm
    refine ⟨inst, (hs.linked .child).mem_links.1 ?_, ?_⟩
    · rwa [links_of_object? ho, (links_of_module (Object.module?_eq_some.1 hbody)).1]
    · rw [target_placement_eq, hi, Option.map_some]
  · rintro ⟨inst, hchild, hplacement⟩
    obtain ⟨i, hi, rfl⟩ := exists_instance_of_target hplacement
    obtain ⟨x, hx, htarget⟩ := target_eq_some_iff.1 hchild
    obtain ⟨o, ho, hmem⟩ := hs.listed hx htarget
    obtain ⟨m, hm⟩ := module_of_mem_links (Or.inl rfl) hmem
    rw [(links_of_module hm).1] at hmem
    exact ⟨m, inst, i, by rw [module?, ho, Option.bind_some, Object.module?_eq_some.2 hm], hmem,
      hi, rfl⟩

/-- A resource has nothing inside. -/
theorem not_includes_of_resource {outer inner : Handle} {d : Option Handle}
    (hf : s.frame outer = some (true, d)) : ¬ s.Includes outer inner := by
  rw [hs.includes_iff]
  rintro ⟨inst, hchild, -⟩
  have hmem := (hs.linked .child).mem_links.2 hchild
  rw [(hs.resource hf).2 .child rfl] at hmem
  cases hmem

theorem not_contains_of_resource {outer inner : Handle} {d : Option Handle}
    (hf : s.frame outer = some (true, d)) : ¬ s.Contains outer inner := by
  intro hcontains
  obtain ⟨x, hincludes, -⟩ := Relation.TransGen.head'_iff.1 hcontains
  exact hs.not_includes_of_resource hf hincludes

/-- What has something inside is a module that is no resource. -/
theorem frame_of_includes {outer inner : Handle} (h : s.Includes outer inner) :
    ∃ d, s.frame outer = some (false, d) := by
  obtain ⟨m, -, -, hm, -⟩ := id h
  have hf : s.frame outer = some (m.resource, m.defaultInstance) := by
    rw [frame_eq, hm, Option.map_some]
  cases hres : m.resource with
  | false => exact ⟨m.defaultInstance, by rw [hf, hres]⟩
  | true =>
    rw [hres] at hf
    exact absurd h (hs.not_includes_of_resource hf)

/-- A module that a climb passes is the module where the climb starts, or has it inside.  A climb
from an instance is seen as one from its module. -/
theorem contains_of_mem_climb {h x : Handle} {path : List Handle} {f : Bool × Option Handle}
    (hc : Climbs s.above? h path) (hf : s.frame x = some f) (hx : x ∈ path) {y : Handle}
    (hy : (h = y ∧ (s.frame h).isSome) ∨ s.target .placement h = some y) :
    Relation.ReflTransGen s.Includes x y := by
  have hself : x = h → Relation.ReflTransGen s.Includes x y := by
    rintro rfl
    rcases hy with ⟨rfl, -⟩ | htarget
    · exact .refl
    · rw [target_eq_none_of_frame hf] at htarget
      cases htarget
  induction hc generalizing y with
  | root _ => exact hself (List.mem_singleton.1 hx)
  | @step h upper path hstep hrest ih =>
    rcases List.mem_cons.1 hx with heq | hx
    · exact hself heq
    · rcases hs.above?_cases hstep with ⟨hframe, hdefault⟩ | ⟨hframe, hchild, g, hg⟩
      · -- A module: its default instance stands for it.
        rcases hy with ⟨rfl, -⟩ | htarget
        · refine ih hx (Or.inr hdefault) ?_
          rintro rfl
          rw [target_eq_none_of_frame hf] at hdefault
          cases hdefault
        · rw [target_eq_none_of_frame hframe] at htarget
          cases htarget
      · -- An instance: the module that it is placed in has its module inside.
        rcases hy with ⟨rfl, hsome⟩ | htarget
        · rw [hframe] at hsome
          cases hsome
        · refine .tail (ih hx (Or.inl ⟨rfl, by rw [hg, Option.isSome_some]⟩) ?_)
            (hs.includes_iff.2 ⟨h, hchild, htarget⟩)
          rintro rfl
          exact .refl

/-- The climb from a module that is no resource passes every module that has it inside. -/
theorem mem_climb_of_contains {x y : Handle} (h : Relation.ReflTransGen s.Includes x y)
    {d : Option Handle} (hf : s.frame y = some (false, d)) {path : List Handle}
    (hc : Climbs s.above? y path) : x ∈ path := by
  induction h generalizing d path with
  | refl => exact List.mem_of_mem_head? hc.head?_eq
  | @tail y z _ hincludes ih =>
    obtain ⟨inst, hchild, hplacement⟩ := hs.includes_iff.1 hincludes
    obtain ⟨e, he⟩ := hs.frame_of_includes hincludes
    -- The only instance of the module is the one inside, and so the climb leads there.
    obtain ⟨inst', rfl, hlinks, -⟩ := hs.ordinary hf
    have hmem := (hs.linked .placement).mem_links.2 hplacement
    rw [hlinks, List.mem_singleton] at hmem
    subst hmem
    obtain ⟨o, ho, htarget⟩ := target_eq_some_iff.1 hchild
    obtain ⟨i, hi, hparent⟩ := Object.target_child_eq_some.1 htarget
    cases hc with
    | root hroot =>
      rw [above?_of_frame hf] at hroot
      cases hroot
    | step hstep hrest =>
      rw [above?_of_frame hf] at hstep
      cases hstep
      cases hrest with
      | root hroot =>
        rw [above?_of_instance ho hi, hparent] at hroot
        cases hroot
      | step hstep hrest =>
        rw [above?_of_instance ho hi, hparent] at hstep
        cases hstep
        exact List.mem_cons_of_mem _ (List.mem_cons_of_mem _ (ih he hrest))

/-- What is found above a module that is no resource is the module itself, or has it inside. -/
theorem mem_climb_iff {module parent : Handle} {f : Bool × Option Handle} {d : Option Handle}
    (hmodule : s.frame module = some f) (hparent : s.frame parent = some (false, d))
    {path : List Handle} (hc : Climbs s.above? parent path) :
    module ∈ path ↔ parent = module ∨ s.Contains module parent := by
  rw [Contains, ← Relation.reflTransGen_iff_eq_or_transGen]
  constructor
  · intro hmem
    exact hs.contains_of_mem_climb hc hmodule hmem
      (Or.inl ⟨rfl, by rw [hparent, Option.isSome_some]⟩)
  · intro hcontains
    exact hs.mem_climb_of_contains hcontains hparent hc

end Coherent

/-! ## What a placement asks for -/

/-- The handle of a module that is no resource. -/
def CanHold (s : Store) (parent : Handle) : Prop :=
  ∃ c, s.module? parent = some c ∧ c.resource = false

/-- A resource, and a name that no instance has. -/
def IsNewInstance (s : Store) (name : String) (module : Handle) : Prop :=
  (∃ m, s.module? module = some m ∧ m.resource = true) ∧
    ∀ x i, s.instance? x = some i → s.name? x ≠ some name

/-- A module that is no resource, its own name, and a default instance without a place. -/
def AwaitsPlace (s : Store) (name : String) (module : Handle) : Prop :=
  ∃ m inst i, s.module? module = some m ∧ m.resource = false ∧ s.name? module = some name ∧
    m.defaultInstance = some inst ∧ s.instance? inst = some i ∧ i.parent = none

theorem canHold_iff {s : Store} {parent : Handle} :
    s.CanHold parent ↔ ∃ d, s.frame parent = some (false, d) := by
  unfold CanHold
  rw [frame_eq]
  constructor
  · rintro ⟨c, hc, hres⟩
    exact ⟨c.defaultInstance, by rw [hc, Option.map_some, hres]⟩
  · rintro ⟨d, hf⟩
    obtain ⟨c, hc, heq⟩ := Option.map_eq_some_iff.1 hf
    exact ⟨c, hc, congrArg Prod.fst heq⟩

/-- Only instances are of that kind. -/
theorem Object.exists_inst_of_kind {o : Object} (hk : o.kind = .inst) : ∃ i, o.body = .inst i := by
  obtain ⟨handle, id, name, attributes, body⟩ := o
  cases body with
  | inst i => exact ⟨i, rfl⟩
  | part owner p => cases p <;> cases hk
  | _ => cases hk

/-- The index of instances knows every name that an instance has. -/
theorem Indexed.instances_eq_none_iff {s : Store} (hs : s.Indexed) {name : String} :
    s.instances.get? name = none ↔ ∀ x i, s.instance? x = some i → s.name? x ≠ some name := by
  constructor
  · intro hnone x i hi hname
    obtain ⟨o, ho, hbody⟩ := Option.bind_eq_some_iff.1 hi
    rw [name?_of_object? ho] at hname
    have hget : s.instances.get? name = some x := hs.instances.get?_eq_some_iff.2
      ⟨o.outline.toLabel, by rw [label?, outline?_of_object? ho, Option.map_some],
        o.kind_of_inst (Object.instance?_eq_some.1 hbody), Option.some.inj hname⟩
    rw [hnone] at hget
    cases hget
  · intro hall
    refine Option.eq_none_iff_forall_ne_some.2 fun x hx => ?_
    obtain ⟨v, hv, hkind, hname⟩ := hs.instances.get?_eq_some_iff.1 hx
    obtain ⟨w, hw, rfl⟩ := Option.map_eq_some_iff.1 hv
    obtain ⟨o, ho, rfl⟩ := Option.map_eq_some_iff.1 hw
    obtain ⟨i, hi⟩ := Object.exists_inst_of_kind hkind
    refine hall x i ?_ ?_
    · rw [instance?, ho, Option.bind_some, Object.instance?_eq_some.2 hi]
    · rw [name?_of_object? ho]
      exact congrArg some hname

namespace Reachable

variable {s : Store} (hs : s.Reachable) {name : String} {module parent : Handle}

include hs

/-- The check for a cycle finds out whether the module is its container, or contains it. -/
theorem wouldCreateCycle_eq_ok {m : Module} (hmodule : s.module? module = some m)
    (hparent : s.CanHold parent) : ∃ cycle, s.wouldCreateCycle module parent = .ok cycle ∧
      (cycle = true ↔ parent = module ∨ s.Contains module parent) := by
  obtain ⟨d, hframe⟩ := canHold_iff.1 hparent
  obtain ⟨path, hc⟩ := hs.rooted parent (by rw [above?_of_frame hframe, Option.isSome_some])
  have hmem := hs.coherent.mem_climb_iff (by rw [frame_eq, hmodule, Option.map_some]) hframe hc
  refine ⟨path.contains module, ?_, by simpa using hmem⟩
  unfold wouldCreateCycle
  rw [hierarchyPath_eq_ok.2 hc]
  rfl

/-- Nothing that can hold a module is inside a resource. -/
theorem not_inside_resource {m : Module} (hmodule : s.module? module = some m)
    (hres : m.resource = true) (hparent : s.CanHold parent) :
    ¬ (parent = module ∨ s.Contains module parent) := by
  rintro (rfl | hcontains)
  · obtain ⟨c, hc, hordinary⟩ := hparent
    rw [hmodule] at hc
    cases hc
    rw [hres] at hordinary
    cases hordinary
  · exact hs.coherent.not_contains_of_resource (d := m.defaultInstance)
      (by rw [frame_eq, hmodule, Option.map_some, hres]) hcontains

/-- There is something to place where a new instance of a resource is asked for, or the place of a
default instance that has none. -/
theorem exists_prepares_iff :
    (∃ placed, s.Prepares name module parent placed) ↔
      s.IsNewInstance name module ∨ s.AwaitsPlace name module := by
  constructor
  · rintro ⟨placed, o, m, ho, hm, hplaced⟩
    have hmodule : s.module? module = some m := by
      rw [module?, ho, Option.bind_some, Object.module?_eq_some.2 hm]
    rcases hplaced with ⟨hres, hfresh, -, -⟩ | ⟨hres, rfl, inst, hinst, ⟨d, i, hd, hi, hnone⟩, -⟩
    · exact Or.inl ⟨⟨m, hmodule, hres⟩, hs.coherent.instances_eq_none_iff.1 hfresh⟩
    · exact Or.inr ⟨m, inst, i, hmodule, hres, name?_of_object? ho, hinst,
        by rw [instance?, hd, Option.bind_some, Object.instance?_eq_some.2 hi], hnone⟩
  · rintro (⟨⟨m, hm, hres⟩, hfresh⟩ | ⟨m, inst, i, hm, hres, hsame, hinst, hi, hnone⟩)
    · obtain ⟨o, ho, hbody⟩ := Option.bind_eq_some_iff.1 hm
      have hget := hs.coherent.instances_eq_none_iff.2 hfresh
      -- A name that no instance has makes an id that no object has.
      have hfree : s.ids.get? (Kind.inst.objectId name) = none :=
        hs.identified.free hs.coherent.toIndexed (Or.inr (Or.inl rfl)) hs.coherent.instances hget
      exact ⟨_, o, m, ho, Object.module?_eq_some.1 hbody, Or.inl ⟨hres, hget, hfree, rfl⟩⟩
    · obtain ⟨o, ho, hbody⟩ := Option.bind_eq_some_iff.1 hm
      obtain ⟨d, hd, hibody⟩ := Option.bind_eq_some_iff.1 hi
      rw [name?_of_object? ho] at hsame
      exact ⟨_, o, m, ho, Object.module?_eq_some.1 hbody, Or.inr ⟨hres,
        (Option.some.inj hsame).symm, inst, hinst,
        ⟨d, i, hd, Object.instance?_eq_some.1 hibody, hnone⟩, rfl⟩⟩

/-- A placement that comes to the check for a cycle was asked for as it should be. -/
theorem asked_of_addInstance {r : Except StoreError (Store × Handle)} (hr : IsVerdict r)
    (h : s.addInstance name module parent = r) :
    name ≠ "" ∧ s.CanHold parent ∧ (s.IsNewInstance name module ∨ s.AwaitsPlace name module) := by
  obtain ⟨hname, p, c, placed, cycle, hp, hc, hcontainer, hplaced, -⟩ :=
    (addInstance_eq_iff hr).1 h
  have hparent : s.module? parent = some c := by
    rw [module?, hp, Option.bind_some, Object.module?_eq_some.2 hc]
  exact ⟨hname, ⟨c, hparent, hcontainer⟩, hs.exists_prepares_iff.1 ⟨placed, hplaced⟩⟩

/-- A placement that is asked for as it should be is refused only because of a cycle. -/
theorem addInstance_of_asked (hname : name ≠ "") (hparent : s.CanHold parent)
    (hasked : s.IsNewInstance name module ∨ s.AwaitsPlace name module) :
    ∃ p placed cycle, s.name? parent = some p ∧
      (cycle = true ↔ parent = module ∨ s.Contains module parent) ∧
      s.addInstance name module parent
        = if cycle then .error (.wouldCreateCycle name p) else .ok placed := by
  obtain ⟨placed, hplaced⟩ := hs.exists_prepares_iff.2 hasked
  obtain ⟨o, m, ho, hm, -⟩ := id hplaced
  have hmodule : s.module? module = some m := by
    rw [module?, ho, Option.bind_some, Object.module?_eq_some.2 hm]
  obtain ⟨cycle, hcycle, hiff⟩ := hs.wouldCreateCycle_eq_ok hmodule hparent
  obtain ⟨c, hc, hcontainer⟩ := hparent
  obtain ⟨p, hp, hcbody⟩ := Option.bind_eq_some_iff.1 hc
  refine ⟨p.name, placed, cycle, name?_of_object? hp, hiff, ?_⟩
  exact (addInstance_eq_iff (.check cycle name p.name placed)).2 ⟨hname, p, c, placed, cycle, hp,
    Object.module?_eq_some.1 hcbody, hcontainer, hplaced, hcycle, rfl⟩

/-- A placement is accepted where it is asked for as it should be and makes no cycle. -/
theorem addInstance_eq_ok_iff :
    (∃ placed, s.addInstance name module parent = .ok placed) ↔
      name ≠ "" ∧ s.CanHold parent ∧ (s.IsNewInstance name module ∨
        s.AwaitsPlace name module ∧ parent ≠ module ∧ ¬ s.Contains module parent) := by
  constructor
  · rintro ⟨placed, hok⟩
    obtain ⟨hname, hparent, hasked⟩ := hs.asked_of_addInstance (.ok placed) hok
    obtain ⟨p, placed', cycle, -, hiff, heq⟩ := hs.addInstance_of_asked hname hparent hasked
    rw [heq] at hok
    cases cycle with
    | true => cases hok
    | false =>
      have hinside : ¬ (parent = module ∨ s.Contains module parent) := fun h => by cases hiff.2 h
      exact ⟨hname, hparent, hasked.imp_right fun h => ⟨h, not_or.1 hinside⟩⟩
  · rintro ⟨hname, hparent, hasked⟩
    have hinside : ¬ (parent = module ∨ s.Contains module parent) := by
      rcases hasked with ⟨⟨m, hm, hres⟩, -⟩ | ⟨-, hnot⟩
      · exact hs.not_inside_resource hm hres hparent
      · exact not_or.2 hnot
    obtain ⟨p, placed, cycle, -, hiff, heq⟩ :=
      hs.addInstance_of_asked hname hparent (hasked.imp_right And.left)
    exact ⟨placed, by rw [heq, if_neg fun h => hinside (hiff.1 h)]⟩

/-- A placement is refused as a cycle where it is asked for as it should be, and the module is its
container or contains it.  Then it is no new instance of a resource. -/
theorem addInstance_eq_cycle_iff {inst p : String} :
    s.addInstance name module parent = .error (.wouldCreateCycle inst p) ↔
      inst = name ∧ s.name? parent = some p ∧ name ≠ "" ∧ s.CanHold parent ∧
        s.AwaitsPlace name module ∧ (parent = module ∨ s.Contains module parent) := by
  constructor
  · intro herror
    obtain ⟨hname, hparent, hasked⟩ := hs.asked_of_addInstance (.cycle inst p) herror
    obtain ⟨p', placed, cycle, hp', hiff, heq⟩ := hs.addInstance_of_asked hname hparent hasked
    rw [heq] at herror
    cases cycle with
    | false => cases herror
    | true =>
      cases herror
      have hinside := hiff.1 rfl
      refine ⟨rfl, hp', hname, hparent, hasked.resolve_left ?_, hinside⟩
      rintro ⟨⟨m, hm, hres⟩, -⟩
      exact hs.not_inside_resource hm hres hparent hinside
  · rintro ⟨rfl, hp, hname, hparent, hasked, hinside⟩
    obtain ⟨p', placed, cycle, hp', hiff, heq⟩ :=
      hs.addInstance_of_asked hname hparent (Or.inr hasked)
    rw [hp] at hp'
    cases hp'
    rw [heq, if_pos (hiff.2 hinside)]

/-- A new instance of a resource is accepted under a name that no instance has, and the default
instance of another module where it has no place yet, under its own name, and unless the module
would come to contain itself.  Only this is refused as a cycle. -/
theorem placement_decided (name : String) (module parent : Handle) :
    ((∃ placed, s.addInstance name module parent = .ok placed) ↔
        name ≠ "" ∧ s.CanHold parent ∧ (s.IsNewInstance name module ∨
          s.AwaitsPlace name module ∧ parent ≠ module ∧ ¬ s.Contains module parent)) ∧
      (∀ inst p, s.addInstance name module parent = .error (.wouldCreateCycle inst p) ↔
        inst = name ∧ s.name? parent = some p ∧ name ≠ "" ∧ s.CanHold parent ∧
          s.AwaitsPlace name module ∧ (parent = module ∨ s.Contains module parent)) ∧
      ∀ m, s.module? module = some m → m.resource = true → ∀ inst p,
        s.addInstance name module parent ≠ .error (.wouldCreateCycle inst p) := by
  refine ⟨hs.addInstance_eq_ok_iff, fun inst p => hs.addInstance_eq_cycle_iff, ?_⟩
  intro m hm hres inst p herror
  obtain ⟨-, -, -, hparent, -, hinside⟩ := hs.addInstance_eq_cycle_iff.1 herror
  exact hs.not_inside_resource hm hres hparent hinside

end Reachable

theorem placement_decided_nested :
    nested.Reachable ∧ nested.AwaitsPlace "top" 0 ∧ nested.Contains 0 2 ∧
      nested.addInstance "top" 0 2 = .error (.wouldCreateCycle "top" "leaf") ∧
      ((∃ placed, nested.addInstance "ram1" 4 0 = .ok placed) ∧
        nested.IsNewInstance "ram1" 4) := by
  have hreachable : nested.Reachable := reachable_execAll _
  obtain ⟨-, hcycle, -⟩ := hreachable.placement_decided "top" 0 2
  obtain ⟨-, -, -, -, hawaits, hinside⟩ := (hcycle "top" "leaf").1 rfl
  obtain ⟨haccepted, -, -⟩ := hreachable.placement_decided "ram1" 4 0
  have hplaced : ∃ placed, nested.addInstance "ram1" 4 0 = .ok placed := ⟨_, rfl⟩
  refine ⟨hreachable, hawaits, hinside.resolve_left (by decide), rfl, hplaced, ?_⟩
  refine (haccepted.1 hplaced).2.2.resolve_right ?_
  rintro ⟨⟨m, -, -, hm, hordinary, -⟩, -⟩
  cases hm
  cases hordinary

end Interconnect.Store
