import Interconnect.Proofs.Store.Operation
import Mathlib.Logic.Function.Basic

/-!
# Outlines

The outline of an object is the object without its attributes and without the values in its
body: who it is, whom it belongs to, whom it lists, and what its module's flags say.  The
coherence of a store is a matter of outlines and indices alone, so all that it needs to know
about a change of an object is how the outline changes.  There is one lemma for each way in
which an operation changes an object.

References between objects go in two directions.  A `Link` is a kind of reference: `target`
is the object that the reference leads to, and `links` lists, at that object, the objects
that refer to it.
-/

namespace Interconnect

/-- A kind of reference from one object to another. -/
inductive Link where
  /-- From a part of a kind to its owner. -/
  | part (k : Kind)
  /-- From an instance to the module that it is placed in. -/
  | child
  /-- From an instance to the module that it is a placement of. -/
  | placement
  deriving DecidableEq

/-- Through such references a module gets inner content, which a resource has not. -/
def Link.isInner : Link → Bool
  | .part .declaration | .part .code | .part .regfile | .child => true
  | _ => false

namespace Object

/-- The object that a reference of this kind leads to. -/
def target (o : Object) : Link → Option Handle
  | .part k =>
    match o.body with
    | .part owner p => if p.kind = k then some owner else none
    | _ => none
  | .child => o.instance?.bind Instance.parent
  | .placement => o.instance?.map Instance.module

/-- The parts of a kind that the object lists. -/
def listed (o : Object) (k : Kind) : List Handle :=
  match o.body, k with
  | .module m, .port => m.ports
  | .module m, .parameter => m.params
  | .module m, .declaration => m.decls
  | .module m, .code => m.code
  | .module m, .regfile => m.regfiles
  | .inst i, .pin => i.pins
  | .inst i, .adjustment => i.adjustments
  | .part _ (.regfile entries), .entry => entries
  | .part _ (.entry registers), .register => registers
  | _, _ => []

/-- The objects that refer to this one, as it lists them. -/
def links (o : Object) : Link → List Handle
  | .part k => o.listed k
  | .child => o.module?.elim [] Module.children
  | .placement => o.module?.elim [] Module.placements

theorem target_part_eq_some {o : Object} {k : Kind} {h : Handle} :
    o.target (.part k) = some h ↔ ∃ p, o.body = .part h p ∧ p.kind = k := by
  obtain ⟨handle, id, name, attributes, body⟩ := o
  cases body with
  | part owner p =>
    simp only [target, Option.ite_none_right_eq_some, Option.some.injEq, Body.part.injEq]
    constructor
    · rintro ⟨hk, howner⟩
      exact ⟨p, ⟨howner, rfl⟩, hk⟩
    · rintro ⟨q, ⟨howner, rfl⟩, hk⟩
      exact ⟨hk, howner⟩
  | _ => simp [target]

theorem target_child_eq_some {o : Object} {h : Handle} :
    o.target .child = some h ↔ ∃ i, o.body = .inst i ∧ i.parent = some h := by
  unfold target
  rw [Option.bind_eq_some_iff]
  simp only [instance?_eq_some]

theorem target_placement_eq_some {o : Object} {h : Handle} :
    o.target .placement = some h ↔ ∃ i, o.body = .inst i ∧ i.module = h := by
  unfold target
  rw [Option.map_eq_some_iff]
  simp only [instance?_eq_some]

/-- The flag of a module that says that it is a resource, and its default instance. -/
def frame (o : Object) : Option (Bool × Option Handle) :=
  o.module?.map fun m => (m.resource, m.defaultInstance)

end Object

/-- What indices say about an object. -/
structure Label where
  handle : Handle
  id : String
  name : String
  kind : Kind

/-- What the coherence of a store has to know about an object. -/
structure Outline extends Label where
  target : Link → Option Handle
  links : Link → List Handle
  frame : Option (Bool × Option Handle)

/-- The outline of an object. -/
def Object.outline (o : Object) : Outline :=
  { handle := o.handle
    id := o.id
    name := o.name
    kind := o.kind
    target := o.target
    links := o.links
    frame := o.frame }

namespace Outline

/-- The outline with one more object in a list. -/
def listing (v : Outline) (l : Link) (c : Handle) : Outline :=
  { v with links := Function.update v.links l (v.links l ++ [c]) }

/-- The outline with a reference to another object. -/
def pointing (v : Outline) (l : Link) (h : Handle) : Outline :=
  { v with target := Function.update v.target l (some h) }

theorem links_listing_self (v : Outline) (l : Link) (c : Handle) :
    (v.listing l c).links l = v.links l ++ [c] := by
  simp only [listing, Function.update_self]

theorem links_listing_of_ne (v : Outline) {l l' : Link} (c : Handle) (hl : l' ≠ l) :
    (v.listing l c).links l' = v.links l' := by
  simp only [listing, Function.update_of_ne hl]

theorem target_pointing_self (v : Outline) (l : Link) (h : Handle) :
    (v.pointing l h).target l = some h := by
  simp only [pointing, Function.update_self]

theorem target_pointing_of_ne (v : Outline) {l l' : Link} (h : Handle) (hl : l' ≠ l) :
    (v.pointing l h).target l' = v.target l' := by
  simp only [pointing, Function.update_of_ne hl]

end Outline

/-- An outline is the other with one more object in a list if only that list differs. -/
theorem Outline.eq_listing {v w : Outline} {l : Link} {c : Handle}
    (hlabel : w.toLabel = v.toLabel) (htarget : w.target = v.target) (hframe : w.frame = v.frame)
    (hself : w.links l = v.links l ++ [c]) (hother : ∀ l', l' ≠ l → w.links l' = v.links l') :
    w = v.listing l c := by
  have hlinks : w.links = Function.update v.links l (v.links l ++ [c]) := by
    funext l'
    by_cases hl : l' = l
    · subst hl
      rw [Function.update_self, hself]
    · rw [Function.update_of_ne hl, hother l' hl]
  obtain ⟨_, _, _, _⟩ := w
  simp only at hlabel htarget hframe hlinks
  simp only [Outline.listing, hlabel, htarget, hframe, hlinks]

/-! ## How operations change an outline -/

@[simp] theorem outline_write (name : String) (a : Attribute) (o : Object) :
    (o.write name a).outline = o.outline :=
  rfl

@[simp] theorem outline_joinNet (net : Handle) (o : Object) :
    (Store.joinNet net o).outline = o.outline := by
  obtain ⟨handle, id, name, attributes, body⟩ := o
  cases body with
  | part owner p => cases p <;> rfl
  | _ => rfl

section Adoption

variable (o : Object) (p : Part) (c : Handle)

theorem target_adopt : (o.adopt p c).target = o.target := by
  obtain ⟨handle, id, name, attributes, body⟩ := o
  funext l
  cases body with
  | part owner q => cases q <;> cases p <;> cases l <;> rfl
  | _ => cases p <;> cases l <;> rfl

theorem frame_adopt : (o.adopt p c).frame = o.frame := by
  obtain ⟨handle, id, name, attributes, body⟩ := o
  cases body with
  | part owner q => cases q <;> cases p <;> rfl
  | _ => cases p <;> rfl

theorem links_adopt_self (hk : o.kind = p.ownerKind) :
    (o.adopt p c).links (.part p.kind) = o.links (.part p.kind) ++ [c] := by
  obtain ⟨handle, id, name, attributes, body⟩ := o
  cases body with
  | module m => cases p <;> first | rfl | cases hk
  | inst i => cases p <;> first | rfl | cases hk
  | net members => cases p <;> cases hk
  | part owner q => cases p <;> cases q <;> first | rfl | cases hk

theorem links_adopt_of_ne {l : Link} (hl : l ≠ .part p.kind) :
    (o.adopt p c).links l = o.links l := by
  obtain ⟨handle, id, name, attributes, body⟩ := o
  cases l with
  | part k =>
    cases body with
    | module m => cases p <;> cases k <;> first | rfl | exact absurd rfl hl
    | inst i => cases p <;> cases k <;> first | rfl | exact absurd rfl hl
    | net members => cases p <;> rfl
    | part owner q =>
      cases p <;> cases q <;> try rfl
      all_goals cases k <;> first | rfl | exact absurd rfl hl
  | child =>
    cases body with
    | part owner q => cases p <;> cases q <;> rfl
    | _ => cases p <;> rfl
  | placement =>
    cases body with
    | part owner q => cases p <;> cases q <;> rfl
    | _ => cases p <;> rfl

/-- An owner of the right kind lists the new part. -/
theorem outline_adopt (hk : o.kind = p.ownerKind) :
    (o.adopt p c).outline = o.outline.listing (.part p.kind) c := by
  refine Outline.eq_listing ?_ (target_adopt o p c) (frame_adopt o p c)
    (links_adopt_self o p c hk) fun _ => links_adopt_of_ne o p c
  exact congrArg (Label.mk o.handle o.id o.name) (Body.kind_adopt p c o.body)

end Adoption

theorem outline_addChild {o : Object} {m : Module} (c : Handle) (hm : o.body = .module m) :
    (Store.addChild c o).outline = o.outline.listing .child c := by
  obtain ⟨handle, id, name, attributes, body⟩ := o
  cases hm
  refine Outline.eq_listing rfl ?_ rfl rfl fun l hl => ?_
  · funext l
    cases l <;> rfl
  · cases l with
    | part k => cases k <;> rfl
    | child => exact absurd rfl hl
    | placement => rfl

theorem outline_addPlacement {o : Object} {m : Module} (c : Handle)
    (hm : o.body = .module m) :
    (Store.addPlacement c o).outline = o.outline.listing .placement c := by
  obtain ⟨handle, id, name, attributes, body⟩ := o
  cases hm
  refine Outline.eq_listing rfl ?_ rfl rfl fun l hl => ?_
  · funext l
    cases l <;> rfl
  · cases l with
    | part k => cases k <;> rfl
    | child => rfl
    | placement => exact absurd rfl hl

theorem outline_setParent {o : Object} {i : Instance} (parent : Handle)
    (hi : o.body = .inst i) :
    (Store.setParent parent o).outline = o.outline.pointing .child parent := by
  obtain ⟨handle, id, name, attributes, body⟩ := o
  cases hi
  have htarget : (Store.setParent parent ⟨handle, id, name, attributes, .inst i⟩).target
      = Function.update (Object.target ⟨handle, id, name, attributes, .inst i⟩) .child
        (some parent) := by
    funext l
    cases l <;> rfl
  have hlinks : (Store.setParent parent ⟨handle, id, name, attributes, .inst i⟩).links
      = Object.links ⟨handle, id, name, attributes, .inst i⟩ := by
    funext l
    cases l with
    | part k => cases k <;> rfl
    | _ => rfl
  simp only [Object.outline, Outline.pointing, htarget, hlinks]
  rfl

namespace Store

/-- The outline of the object under a handle. -/
def outline? (s : Store) (h : Handle) : Option Outline :=
  (s.object? h).map Object.outline

/-- What indices say about the object under a handle. -/
def label? (s : Store) (h : Handle) : Option Label :=
  (s.outline? h).map Outline.toLabel

/-- The object that a reference leads to. -/
def target (s : Store) (l : Link) (h : Handle) : Option Handle :=
  (s.outline? h).bind fun v => v.target l

/-- The objects that refer to an object, as it lists them. -/
def links (s : Store) (l : Link) (h : Handle) : List Handle :=
  (s.outline? h).elim [] fun v => v.links l

/-- The flag of a module that says that it is a resource, and its default instance. -/
def frame (s : Store) (h : Handle) : Option (Bool × Option Handle) :=
  (s.outline? h).bind Outline.frame

/-- The name of an object. -/
def name? (s : Store) (h : Handle) : Option String :=
  (s.label? h).map Label.name

theorem name?_of_object? {s : Store} {h : Handle} {o : Object} (ho : s.object? h = some o) :
    s.name? h = some o.name := by
  rw [name?, label?, outline?, ho]
  rfl

theorem links_of_object? {s : Store} {h : Handle} {o : Object} (ho : s.object? h = some o)
    (l : Link) : s.links l h = o.links l := by
  rw [links, outline?, ho]
  rfl

theorem target_eq_some_iff {s : Store} {l : Link} {c h : Handle} :
    s.target l c = some h ↔ ∃ x, s.object? c = some x ∧ x.target l = some h := by
  unfold target outline?
  rw [Option.bind_map, Option.bind_eq_some_iff]
  rfl

theorem outline?_eq_none_iff {s : Store} {h : Handle} : s.outline? h = none ↔ s.size ≤ h := by
  unfold outline? object? size
  rw [Option.map_eq_none_iff, ← Option.not_isSome_iff_eq_none, Arena.get?_isSome]
  exact Nat.not_lt

/-- The outline of a new object under its handle, and the old outlines elsewhere. -/
theorem outline?_create (s : Store) (scope name : String) (body : Body)
    (details : List (String × String)) :
    (s.create scope name body details).1.outline?
      = Function.update s.outline? s.size
        (some (Object.outline
          { handle := s.size
            id := body.kind.objectId scope
            name
            attributes := builtins body.kind (body.kind.objectId scope) name details
            body })) := by
  funext h
  unfold outline?
  by_cases hh : h = s.size
  · subst hh
    rw [Function.update_self, object?_create_self]
    rfl
  · rw [Function.update_of_ne hh, object?_create_of_ne s scope name body details hh]

/-- A change of one object shows in the outline under its handle only. -/
theorem outline?_modify {s : Store} {h : Handle} {o : Object} {f : Object → Object}
    (ho : s.object? h = some o) :
    (s.modify h f).outline? = Function.update s.outline? h (some (f o).outline) := by
  funext h'
  unfold outline?
  rw [object?_modify]
  by_cases hh : h' = h
  · subst hh
    rw [if_pos rfl, Function.update_self, ho]
    rfl
  · rw [if_neg (Ne.symm hh), Function.update_of_ne hh]

/-- A change that leaves outlines alone does not show. -/
theorem outline?_modify_of_eq (s : Store) (h : Handle) {f : Object → Object}
    (hf : ∀ o, (f o).outline = o.outline) : (s.modify h f).outline? = s.outline? := by
  funext h'
  unfold outline?
  rw [object?_modify]
  split
  · cases s.object? h' with
    | none => rfl
    | some o => simp [hf]
  · rfl

@[simp] theorem outline?_write (s : Store) (h : Handle) (name : String) (a : Attribute) :
    (s.write h name a).outline? = s.outline? :=
  outline?_modify_of_eq s h (outline_write name a)

@[simp] theorem outline?_stamp (s : Store) (h : Handle) (name value : String) :
    (s.stamp h name value).outline? = s.outline? :=
  outline?_write s h name _

@[simp] theorem outline?_intern (s : Store) (text : String) :
    (s.intern text).outline? = s.outline? :=
  rfl

end Store

end Interconnect
