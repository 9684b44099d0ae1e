import Interconnect.Proofs.Store.Views

/-!
# Operations keep a store coherent

References change in three ways.  A new object may come without any; an object may gain one
reference, together with an entry in the list at its other end; and a new instance of a
resource gains two.  For each elementary operation `target` and `links` are computed first,
and then the laws follow.
-/

namespace Interconnect.Store

/-! ## Modules that were there before -/

section Settled

variable {s s' : Store} (hs : s.Coherent)
  (hname : ∀ h n, s.name? h = some n → s'.name? h = some n)
  (hplacement : ∀ {h d}, s.frame h = some (false, d) → s'.links .placement h = s.links .placement h)
  (hinner : ∀ {h d l}, s.frame h = some (true, d) → l.isInner = true → s'.links l h = s.links l h)
  (hplaced : ∀ {i h d}, s'.target .placement i = some h → s.frame h = some (true, d) →
    (s'.target .child i).isSome)

include hs hname hplacement hinner hplaced

/-- Modules and instances are as they should be after a change that adds one module at most, if the
lists of the modules that were there before are kept as far as they matter. -/
theorem Coherent.settled_of_old (hframe : ∀ {h}, h ≠ s.size → s'.frame h = s.frame h)
    (hordinary : ∀ {d}, s'.frame s.size = some (false, d) →
      ∃ i, d = some i ∧ s'.links .placement s.size = [i] ∧ s'.name? i = s'.name? s.size)
    (hresource : ∀ {d}, s'.frame s.size = some (true, d) →
      (d = none ∧ ∀ l : Link, l.isInner = true → s'.links l s.size = []) ∧
        ∀ i, s'.target .placement i ≠ some s.size) : s'.Settled := by
  constructor
  case ordinary =>
    intro h d hf
    by_cases hh : h = s.size
    · subst hh
      exact hordinary hf
    · rw [hframe hh] at hf
      exact hs.ordinary_mono hf hname (hplacement hf)
  case resource =>
    intro h d hf
    by_cases hh : h = s.size
    · subst hh
      exact (hresource hf).1
    · rw [hframe hh] at hf
      obtain ⟨hd, hnil⟩ := hs.resource hf
      exact ⟨hd, fun l hl => (hinner hf hl).trans (hnil l hl)⟩
  case placed =>
    intro i h d ht hf
    by_cases hh : h = s.size
    · subst hh
      exact absurd ht ((hresource hf).2 i)
    · rw [hframe hh] at hf
      exact hplaced ht hf

/-- So they are if no module is added. -/
theorem Coherent.settled_of_frame (hframe : s'.frame = s.frame) : s'.Settled := by
  have hnone : ∀ {f}, s'.frame s.size ≠ some f := by
    intro f hf
    rw [hframe, frame_size] at hf
    cases hf
  exact hs.settled_of_old hname hplacement hinner hplaced (fun _ => by rw [hframe])
    (fun hf => absurd hf hnone) fun hf => absurd hf hnone

end Settled

/-! ## Parts -/

/-- Inner content of a module is what a resource refuses. -/
theorem isInner_part (p : Part) : (Link.part p.kind).isInner = p.innerContent?.isSome := by
  cases p <;> rfl

theorem created_part_links {p : Part} (hp : p.IsNew) (s : Store) (owner : Handle)
    (scope name : String) (details : List (String × String)) (l : Link) :
    (s.created scope name (.part owner p) details).links l = [] := by
  obtain ⟨-, hparts⟩ := hp
  cases l with
  | part k => cases p <;> cases k <;> first | rfl | exact hparts
  | child => rfl
  | placement => rfl

/-- A new part refers to its owner and to nothing else. -/
theorem created_part_target (s : Store) (p : Part) (owner : Handle) (scope name : String)
    (details : List (String × String)) (l : Link) :
    (s.created scope name (.part owner p) details).target l
      = if l = .part p.kind then some owner else none := by
  cases l with
  | part k => simp [Object.target, created, eq_comm]
  | child => rfl
  | placement => rfl

theorem Coherent.handle_eq_of_object? {s : Store} (hs : s.Coherent) {h : Handle} {o : Object}
    (ho : s.object? h = some o) : o.handle = h :=
  hs.handle_eq (v := o.outline.toLabel) (by rw [label?, outline?_of_object? ho, Option.map_some])

section CreatePart

variable {s : Store} {owner : Handle} {o : Object} {p : Part} (name : String)

/-- The part is created first, and then its owner lists it. -/
theorem createPart_eq (hhandle : o.handle = owner) :
    (s.createPart o name p).1
      = (s.create (o.name ++ "." ++ name) name (.part owner p)
          (p.details ++ [("parent", o.id)])).1.modify owner (Object.adopt p s.size) := by
  subst hhandle
  rfl

/-- The owner is still there after the part has been created. -/
theorem object?_create_owner (ho : s.object? owner = some o) (scope : String) (body : Body)
    (details : List (String × String)) :
    (s.create scope name body details).1.object? owner = some o := by
  have hlt : owner < s.size := lt_size_of_outline? (outline?_of_object? ho)
  rw [object?_create_of_ne s scope name body details (Nat.ne_of_lt hlt), ho]

variable (hhandle : o.handle = owner) (ho : s.object? owner = some o) (hk : o.kind = p.ownerKind)

include hhandle ho hk

theorem target_createPart (l : Link) :
    (s.createPart o name p).1.target l
      = if l = .part p.kind then Function.update (s.target l) s.size (some owner)
        else s.target l := by
  rw [createPart_eq name hhandle,
    target_modify_listing (object?_create_owner name ho _ _ _) (outline_adopt o p s.size hk),
    target_create, created_part_target]
  split
  · rfl
  · rw [Function.update_eq_self_iff, target_size]

theorem links_createPart (hp : p.IsNew) (l : Link) :
    (s.createPart o name p).1.links l
      = if l = .part p.kind then Function.update (s.links l) owner (s.links l owner ++ [s.size])
        else s.links l := by
  have hadopt := outline_adopt o p s.size hk
  rw [createPart_eq name hhandle]
  split
  · rename_i hl
    subst hl
    rw [links_modify_listing_self (object?_create_owner name ho _ _ _) hadopt,
      links_create_of_nil (created_part_links hp s owner _ _ _ _)]
  · rename_i hl
    rw [links_modify_listing_of_ne (object?_create_owner name ho _ _ _) hadopt hl,
      links_create_of_nil (created_part_links hp s owner _ _ _ _)]

theorem frame_createPart : (s.createPart o name p).1.frame = s.frame := by
  rw [createPart_eq name hhandle,
    frame_modify_listing (object?_create_owner name ho _ _ _) (outline_adopt o p s.size hk)]
  exact frame_create_of_none rfl

theorem label?_createPart :
    (s.createPart o name p).1.label?
      = (s.create (o.name ++ "." ++ name) name (.part owner p)
          (p.details ++ [("parent", o.id)])).1.label? := by
  rw [createPart_eq name hhandle,
    label?_modify_listing (object?_create_owner name ho _ _ _) (outline_adopt o p s.size hk)]

end CreatePart

/-- A coherent store stays coherent when an owner that may hold the part gets it. -/
theorem Coherent.createPart {s : Store} (hs : s.Coherent) {owner : Handle} {o : Object}
    {name : String} {p : Part} (hp : p.IsNew) (ho : s.object? owner = some o)
    (hk : o.kind = p.ownerKind)
    (hinner : p.innerContent?.isSome → ∀ m, o.body = .module m → m.resource = false)
    (hid : s.ids.get? (partId p o.name name) = none) :
    (s.createPart o name p).1.Coherent := by
  have hhandle := hs.handle_eq_of_object? ho
  -- A resource does not get inner content.
  have hnot : p.innerContent?.isSome → ∀ d, s.frame owner ≠ some (true, d) := by
    intro hsome d hf
    obtain ⟨m, hm, hres, -⟩ := module_of_frame ho hf
    rw [hinner hsome m hm] at hres
    cases hres
  have htarget := target_createPart name hhandle ho hk
  have hlinks := links_createPart name hhandle ho hk hp
  have hframe := frame_createPart name hhandle ho hk
  have hlabel := label?_createPart name hhandle ho hk
  have hname : ∀ h n, s.name? h = some n → (s.createPart o name p).1.name? h = some n := by
    intro h n hn
    rw [name?, hlabel, ← name?]
    exact name?_create_of_some hn
  constructor
  case toIndexed =>
    have hscope : s.ids.get? ((Body.part owner p).kind.objectId (o.name ++ "." ++ name)) = none :=
      hid
    refine Indexed.congr (hs.toIndexed.create hscope ?_ ?_ ?_) hlabel ?_
    · intro hkind
      cases p <;> cases hkind
    · intro hkind
      cases p <;> cases hkind
    · intro hkind
      cases p <;> cases hkind
    · rw [createPart_eq name hhandle]
      exact sameIndices_modify _ owner _
  case toSettled =>
    refine hs.settled_of_frame hname ?_ ?_ ?_ hframe
    · intro h d _
      rw [hlinks, if_neg (by simp)]
    · intro h d l hf hl
      rw [hlinks]
      split
      case isTrue hlp =>
        rw [hlp, isInner_part] at hl
        have hh : h ≠ owner := fun hh => hnot hl d (hh ▸ hf)
        rw [Function.update_of_ne hh]
      case isFalse => rfl
    · intro i h d ht hf
      rw [htarget, if_neg (by simp)] at ht
      rw [htarget, if_neg (by simp)]
      exact hs.placed ht hf
  case linked =>
    intro l
    rw [htarget, hlinks]
    split
    · exact (hs.linked l).refer (target_size s l)
    · exact hs.linked l

/-! ## Modules -/

/-- A module that was just created refers to nothing. -/
theorem created_module_target (s : Store) (m : Module) (scope name : String)
    (details : List (String × String)) (l : Link) :
    (s.created scope name (.module m) details).target l = none := by
  cases l <;> rfl

theorem Coherent.createResource {s : Store} (hs : s.Coherent) {name : String} (ilm : Bool)
    (hid : s.ids.get? (Kind.module.objectId name) = none)
    (hfresh : s.modules.get? name = none) : (s.createResource name ilm).1.Coherent := by
  unfold Store.createResource
  have htarget := fun l => target_create_of_none
    (created_module_target s { ilm, resource := true } name name (moduleDetails ilm true) l)
  have hlinks : ∀ l, (s.create name name (.module { ilm, resource := true })
      (moduleDetails ilm true)).1.links l = s.links l := by
    intro l
    refine links_create_of_nil ?_
    cases l with
    | part k => cases k <;> rfl
    | _ => rfl
  have hframe : (s.create name name (.module { ilm, resource := true })
      (moduleDetails ilm true)).1.frame = Function.update s.frame s.size (some (true, none)) :=
    frame_create
  constructor
  case toIndexed =>
    refine hs.toIndexed.create hid (fun _ => hfresh) ?_ ?_
    · intro hkind
      cases hkind
    · intro hkind
      cases hkind
  case toSettled =>
    refine hs.settled_of_old (fun h n => name?_create_of_some) (fun _ => by rw [hlinks])
      (fun _ _ => by rw [hlinks]) ?_ (fun hh => by rw [hframe, Function.update_of_ne hh]) ?_ ?_
    · intro i h d ht hf
      rw [htarget] at ht ⊢
      exact hs.placed ht hf
    · intro d hf
      rw [hframe, Function.update_self] at hf
      cases hf
    · intro d hf
      rw [hframe, Function.update_self] at hf
      cases hf
      refine ⟨⟨rfl, fun l _ => by rw [hlinks, links_size]⟩, fun i => ?_⟩
      rw [htarget]
      exact hs.target_ne_size .placement i
  case linked =>
    intro l
    rw [htarget, hlinks]
    exact hs.linked l

section CreateWithInstance

variable {s : Store} (name : String) (ilm : Bool)

/-- A new module that is no resource. -/
def ordinaryModule (s : Store) (ilm : Bool) : Module :=
  { ilm, resource := false, placements := [s.size + 1], defaultInstance := some (s.size + 1) }

/-- Its default instance. -/
def unplacedInstance (s : Store) : Instance :=
  { module := s.size, parent := none }

/-- The module is created first, and then its default instance. -/
theorem createWithInstance_eq :
    (s.createWithInstance name ilm).1
      = ((s.create name name (.module (s.ordinaryModule ilm))
            (moduleDetails ilm false)).1.create name name
          (.inst s.unplacedInstance) [("module", Kind.module.objectId name)]).1 :=
  rfl

theorem target_createWithInstance (l : Link) :
    (s.createWithInstance name ilm).1.target l
      = if l = .placement then Function.update (s.target l) (s.size + 1) (some s.size)
        else s.target l := by
  rw [createWithInstance_eq, target_create, target_create_of_none
    (created_module_target s _ name name _ l), size_create]
  split
  · rename_i hl
    subst hl
    rfl
  · rename_i hl
    rw [Function.update_eq_self_iff]
    have hnone : s.target l (s.size + 1) = none := by
      rw [target, outline?_eq_none_iff.2 (Nat.le_succ s.size), Option.bind_none]
    rw [hnone]
    cases l with
    | part k => rfl
    | child => rfl
    | placement => exact absurd rfl hl

theorem links_createWithInstance (l : Link) :
    (s.createWithInstance name ilm).1.links l
      = if l = .placement then Function.update (s.links l) s.size (s.links l s.size ++ [s.size + 1])
        else s.links l := by
  have hinst : ∀ s' : Store, (s'.created name name (.inst s.unplacedInstance)
      [("module", Kind.module.objectId name)]).links l = [] := fun s' => by
    cases l with
    | part k => cases k <;> rfl
    | _ => rfl
  rw [createWithInstance_eq, links_create_of_nil (hinst _), links_create]
  split
  · rename_i hl
    subst hl
    rw [links_size]
    rfl
  · rename_i hl
    rw [Function.update_eq_self_iff, links_size]
    cases l with
    | part k => cases k <;> rfl
    | child => rfl
    | placement => exact absurd rfl hl

theorem frame_createWithInstance :
    (s.createWithInstance name ilm).1.frame
      = Function.update s.frame s.size (some (false, some (s.size + 1))) := by
  rw [createWithInstance_eq, frame_create_of_none rfl, frame_create]
  rfl

theorem name?_createWithInstance :
    (s.createWithInstance name ilm).1.name?
      = Function.update (Function.update s.name? s.size (some name)) (s.size + 1) (some name) := by
  rw [createWithInstance_eq, name?_create, name?_create, size_create]

end CreateWithInstance

theorem objectId_inst_ne_module (scope : String) :
    Kind.inst.objectId scope ≠ Kind.module.objectId scope := by
  intro h
  have hhead := congrArg (fun s => s.toList.head?) h
  simp [Kind.objectId, Kind.name] at hhead

theorem Coherent.createWithInstance {s : Store} (hs : s.Coherent) {name : String} (ilm : Bool)
    (hid : s.ids.get? (Kind.module.objectId name) = none)
    (hfresh : s.modules.get? name = none)
    (hidInst : s.ids.get? (Kind.inst.objectId name) = none)
    (hfreshInst : s.instances.get? name = none) : (s.createWithInstance name ilm).1.Coherent := by
  have htarget := target_createWithInstance (s := s) name ilm
  have hlinks := links_createWithInstance (s := s) name ilm
  have hframe := frame_createWithInstance (s := s) name ilm
  have hname : ∀ h n, s.name? h = some n →
      (s.createWithInstance name ilm).1.name? h = some n := fun h n hn =>
    name?_create_of_some (name?_create_of_some hn)
  constructor
  case toIndexed =>
    have hmodule : (s.create name name (.module (s.ordinaryModule ilm))
        (moduleDetails ilm false)).1.Indexed := by
      refine hs.toIndexed.create hid (fun _ => hfresh) ?_ ?_
      · intro hkind
        cases hkind
      · intro hkind
        cases hkind
    refine hmodule.create ?_ ?_ (fun _ => hfreshInst) ?_
    · show (s.ids.insert (Kind.module.objectId name) s.size).get? (Kind.inst.objectId name) = none
      rw [OrderedMap.get?_insert_of_ne _ _ (objectId_inst_ne_module name), hidInst]
    · intro hkind
      cases hkind
    · intro hkind
      cases hkind
  case toSettled =>
    refine hs.settled_of_old hname ?_ ?_ ?_ (fun hh => by rw [hframe, Function.update_of_ne hh])
      ?_ ?_
    · intro h d hf
      have hh : h ≠ s.size := by
        rintro rfl
        rw [frame_size] at hf
        cases hf
      rw [hlinks, if_pos rfl, Function.update_of_ne hh]
    · intro h d l _ hl
      have hne : l ≠ .placement := by
        rintro rfl
        cases hl
      rw [hlinks, if_neg hne]
    · intro i h d ht hf
      rw [htarget, if_pos rfl] at ht
      have hi : i ≠ s.size + 1 := by
        rintro rfl
        rw [Function.update_self, Option.some.injEq] at ht
        rw [← ht, frame_size] at hf
        cases hf
      rw [Function.update_of_ne hi] at ht
      rw [htarget, if_neg (by simp)]
      exact hs.placed ht hf
    · intro d hf
      rw [hframe, Function.update_self] at hf
      cases hf
      refine ⟨s.size + 1, rfl, ?_, ?_⟩
      · rw [hlinks, if_pos rfl, Function.update_self, links_size, List.nil_append]
      · rw [name?_createWithInstance, Function.update_self,
          Function.update_of_ne (Nat.ne_of_lt (Nat.lt_succ_self s.size)), Function.update_self]
    · intro d hf
      rw [hframe, Function.update_self] at hf
      cases hf
  case linked =>
    intro l
    rw [htarget, hlinks]
    split
    · refine (hs.linked l).refer ?_
      rw [target, outline?_eq_none_iff.2 (Nat.le_succ s.size), Option.bind_none]
    · exact hs.linked l

/-! ## Placements -/

section Place

variable {s : Store} {inst parent : Handle} {d p : Object} {i : Instance} {c : Module}
  (hd : s.object? inst = some d) (hi : d.body = .inst i) (hp : s.object? parent = some p)
  (hc : p.body = .module c)

include hd hi hp hc

/-- The module that an instance is placed in is still there when the instance knows it. -/
theorem object?_setParent (value : String) :
    ((s.modify inst (setParent parent)).stamp inst "parent" value).object? parent = some p := by
  have hne : inst ≠ parent := by
    rintro rfl
    rw [hd] at hp
    cases hp
    rw [hi] at hc
    cases hc
  rw [object?_stamp, if_neg hne, object?_modify, if_neg hne, hp]

theorem target_place (l : Link) :
    (s.place inst parent).target l
      = if l = .child then Function.update (s.target l) inst (some parent) else s.target l := by
  have hset := outline_setParent parent hi
  rw [Store.place, target_modify_listing (object?_setParent hd hi hp hc _)
    (outline_addChild inst hc), target_congr (outline?_stamp _ _ _ _)]
  split
  · rename_i hl
    subst hl
    exact target_modify_pointing_self hd hset
  · rename_i hl
    exact target_modify_pointing_of_ne hd hset hl

theorem links_place (l : Link) :
    (s.place inst parent).links l
      = if l = .child then Function.update (s.links l) parent (s.links l parent ++ [inst])
        else s.links l := by
  have hset := links_modify_pointing hd (outline_setParent parent hi)
  have hparent := object?_setParent hd hi hp hc (s.describe parent)
  rw [Store.place]
  split
  · rename_i hl
    subst hl
    rw [links_modify_listing_self hparent (outline_addChild inst hc),
      links_congr (outline?_stamp _ _ _ _), hset]
  · rename_i hl
    rw [links_modify_listing_of_ne hparent (outline_addChild inst hc) hl,
      links_congr (outline?_stamp _ _ _ _), hset]

theorem frame_place : (s.place inst parent).frame = s.frame := by
  rw [Store.place, frame_modify_listing (object?_setParent hd hi hp hc _)
    (outline_addChild inst hc), frame_congr (outline?_stamp _ _ _ _),
    frame_modify_pointing hd (outline_setParent parent hi)]

theorem label?_place : (s.place inst parent).label? = s.label? := by
  rw [Store.place, label?_modify_listing (object?_setParent hd hi hp hc _)
    (outline_addChild inst hc), label?_congr (outline?_stamp _ _ _ _),
    label?_modify_pointing hd (outline_setParent parent hi)]

/-- A coherent store stays coherent when an instance without a place gets one inside a module
that is no resource. -/
theorem Coherent.place (hs : s.Coherent) (hfree : i.parent = none)
    (hcontainer : c.resource = false) : (s.place inst parent).Coherent := by
  have htarget := target_place hd hi hp hc
  have hlinks := links_place hd hi hp hc
  have hframe := frame_place hd hi hp hc
  have hlabel := label?_place hd hi hp hc
  have hnone : s.target .child inst = none := by
    rw [target, outline?_of_object? hd, Option.bind_some]
    show d.instance?.bind Instance.parent = none
    rw [Object.instance?_eq_some.2 hi, Option.bind_some, hfree]
  constructor
  case toIndexed =>
    exact hs.toIndexed.congr hlabel
      (((sameIndices_modify s inst _).trans (sameIndices_stamp _ inst _ _)).trans
        (sameIndices_modify _ parent _))
  case toSettled =>
    refine hs.settled_of_frame (fun h n hn => by rw [name?_congr hlabel, hn]) ?_ ?_ ?_ hframe
    · intro h d' _
      rw [hlinks, if_neg (by simp)]
    · intro h d' l hf _
      have hh : h ≠ parent := by
        rintro rfl
        rw [frame_of_module hp hc, hcontainer] at hf
        cases hf
      rw [hlinks]
      split
      case isTrue => rw [Function.update_of_ne hh]
      case isFalse => rfl
    · intro i' h d' ht hf
      rw [htarget, if_neg (by simp)] at ht
      rw [htarget, if_pos rfl]
      by_cases hi' : i' = inst
      · rw [hi', Function.update_self, Option.isSome_some]
      · rw [Function.update_of_ne hi']
        exact hs.placed ht hf
  case linked =>
    intro l
    rw [htarget, hlinks]
    split
    · rename_i hl
      subst hl
      exact (hs.linked .child).refer hnone
    · exact hs.linked l

end Place

section CreatePlacement

variable {s : Store} {module parent : Handle} {o p : Object} {m c : Module} (name : String)
  (ho : s.object? module = some o) (hm : o.body = .module m) (hp : s.object? parent = some p)
  (hc : p.body = .module c) (hne : module ≠ parent)

/-- A new instance of a resource, in its place. -/
def placedInstance (module parent : Handle) : Instance :=
  { module, parent := some parent }

/-- The instance is created first; then the module that it is placed in lists it, and then
the module that it is a placement of. -/
theorem createPlacement_eq :
    (s.createPlacement name module parent).1
      = ((s.create name name (.inst (placedInstance module parent))
            [("module", s.describe module), ("parent", s.describe parent)]).1.modify parent
          (addChild s.size)).modify module (addPlacement s.size) :=
  rfl

include ho hne in
/-- The module is still there when its container lists the new instance. -/
theorem object?_addChild (scope : String) (body : Body) (details : List (String × String)) :
    ((s.create scope name body details).1.modify parent (addChild s.size)).object? module
      = some o := by
  rw [object?_modify, if_neg (Ne.symm hne), object?_create_owner name ho]

include ho hm hp hc hne

theorem target_createPlacement (l : Link) :
    (s.createPlacement name module parent).1.target l
      = match l with
        | .part _ => s.target l
        | .child => Function.update (s.target l) s.size (some parent)
        | .placement => Function.update (s.target l) s.size (some module) := by
  rw [createPlacement_eq,
    target_modify_listing (object?_addChild name ho hne _ _ _) (outline_addPlacement s.size hm),
    target_modify_listing (object?_create_owner name hp _ _ _) (outline_addChild s.size hc)]
  cases l with
  | part k => exact target_create_of_none rfl
  | child => exact target_create .child
  | placement => exact target_create .placement

theorem links_createPlacement (l : Link) :
    (s.createPlacement name module parent).1.links l
      = match l with
        | .part _ => s.links l
        | .child => Function.update (s.links l) parent (s.links l parent ++ [s.size])
        | .placement => Function.update (s.links l) module (s.links l module ++ [s.size]) := by
  have hplacement := outline_addPlacement s.size hm
  have hchild := outline_addChild s.size hc
  have hobject := object?_addChild name ho hne
  have hcontainer := object?_create_owner name hp
  rw [createPlacement_eq]
  cases l with
  | part k =>
    rw [links_modify_listing_of_ne (hobject _ _ _) hplacement (by simp),
      links_modify_listing_of_ne (hcontainer _ _ _) hchild (by simp)]
    refine links_create_of_nil ?_
    cases k <;> rfl
  | child =>
    rw [links_modify_listing_of_ne (hobject _ _ _) hplacement (by simp),
      links_modify_listing_self (hcontainer _ _ _) hchild, links_create_of_nil rfl]
  | placement =>
    rw [links_modify_listing_self (hobject _ _ _) hplacement,
      links_modify_listing_of_ne (hcontainer _ _ _) hchild (by simp), links_create_of_nil rfl]

theorem frame_createPlacement : (s.createPlacement name module parent).1.frame = s.frame := by
  rw [createPlacement_eq,
    frame_modify_listing (object?_addChild name ho hne _ _ _) (outline_addPlacement s.size hm),
    frame_modify_listing (object?_create_owner name hp _ _ _) (outline_addChild s.size hc),
    frame_create_of_none rfl]

theorem label?_createPlacement :
    (s.createPlacement name module parent).1.label?
      = (s.create name name (.inst (placedInstance module parent))
          [("module", s.describe module), ("parent", s.describe parent)]).1.label? := by
  rw [createPlacement_eq,
    label?_modify_listing (object?_addChild name ho hne _ _ _) (outline_addPlacement s.size hm),
    label?_modify_listing (object?_create_owner name hp _ _ _) (outline_addChild s.size hc)]

end CreatePlacement

/-- A coherent store stays coherent when a module that is no resource gets a new instance of a
resource. -/
theorem Coherent.createPlacement {s : Store} (hs : s.Coherent) {name : String}
    {module parent : Handle} {o p : Object} {m c : Module} (ho : s.object? module = some o)
    (hm : o.body = .module m) (hp : s.object? parent = some p) (hc : p.body = .module c)
    (hresource : m.resource = true) (hcontainer : c.resource = false)
    (hid : s.ids.get? (Kind.inst.objectId name) = none)
    (hfresh : s.instances.get? name = none) :
    (s.createPlacement name module parent).1.Coherent := by
  have hfm := frame_of_module ho hm
  have hfp := frame_of_module hp hc
  rw [hresource] at hfm
  rw [hcontainer] at hfp
  have hne := ne_of_resource ho hm hp hc hresource hcontainer
  have htarget := target_createPlacement name ho hm hp hc hne
  have hlinks := links_createPlacement name ho hm hp hc hne
  have hframe := frame_createPlacement name ho hm hp hc hne
  have hlabel := label?_createPlacement name ho hm hp hc hne
  constructor
  case toIndexed =>
    have hinst : (s.create name name (.inst (placedInstance module parent))
        [("module", s.describe module), ("parent", s.describe parent)]).1.Indexed := by
      refine hs.toIndexed.create hid ?_ (fun _ => hfresh) ?_
      · intro hkind
        cases hkind
      · intro hkind
        cases hkind
    exact hinst.congr hlabel
      ((sameIndices_modify _ parent _).trans (sameIndices_modify _ module _))
  case toSettled =>
    have hname : ∀ h n, s.name? h = some n →
        (s.createPlacement name module parent).1.name? h = some n := by
      intro h n hn
      rw [name?_congr hlabel]
      exact name?_create_of_some hn
    refine hs.settled_of_frame hname ?_ ?_ ?_ hframe
    · intro h d hf
      have hh : h ≠ module := by
        rintro rfl
        rw [hfm] at hf
        cases hf
      rw [hlinks]
      exact Function.update_of_ne hh _ _
    · intro h d l hf hl
      have hh : h ≠ parent := by
        rintro rfl
        rw [hfp] at hf
        cases hf
      rw [hlinks]
      cases l with
      | part k => rfl
      | child => exact Function.update_of_ne hh _ _
      | placement => cases hl
    · intro i h d ht hf
      rw [htarget] at ht ⊢
      dsimp only at ht ⊢
      by_cases hi : i = s.size
      · rw [hi, Function.update_self, Option.isSome_some]
      · rw [Function.update_of_ne hi] at ht ⊢
        exact hs.placed ht hf
  case linked =>
    intro l
    rw [htarget, hlinks]
    cases l with
    | part k => exact hs.linked (.part k)
    | child => exact (hs.linked .child).refer (target_size s .child)
    | placement => exact (hs.linked .placement).refer (target_size s .placement)

/-! ## Nets -/

section Enlist

variable (net : Handle) (name id : String)

theorem outline?_enlist (s : Store) (h : Handle) :
    (enlist net name id s h).outline? = s.outline? := by
  unfold enlist
  rw [outline?_modify_of_eq _ h (outline_joinNet net), outline?_stamp, outline?_stamp,
    outline?_stamp]

theorem sameIndices_enlist (s : Store) (h : Handle) :
    SameIndices s (enlist net name id s h) := by
  unfold enlist
  exact (((sameIndices_stamp s h _ _).trans (sameIndices_stamp _ h _ _)).trans
    (sameIndices_stamp _ h _ _)).trans (sameIndices_modify _ h _)

theorem outline?_enlistAll (s : Store) (members : List Handle) :
    (members.foldl (enlist net name id) s).outline? = s.outline? := by
  induction members generalizing s with
  | nil => rfl
  | cons h rest ih => rw [List.foldl_cons, ih, outline?_enlist]

theorem sameIndices_enlistAll (s : Store) (members : List Handle) :
    SameIndices s (members.foldl (enlist net name id) s) := by
  induction members generalizing s with
  | nil => exact ⟨rfl, rfl, rfl, rfl, rfl, rfl, rfl⟩
  | cons h rest ih => exact (sameIndices_enlist net name id s h).trans (ih _)

/-- To be made a member of a net shows in no outline. -/
theorem Coherent.enlistAll {s : Store} (hs : s.Coherent) (members : List Handle) :
    (members.foldl (enlist net name id) s).Coherent :=
  hs.congr (outline?_enlistAll net name id s members) (sameIndices_enlistAll net name id s members)

end Enlist

theorem Coherent.createNet {s : Store} (hs : s.Coherent) {name : String} (members : List Handle)
    (hid : s.ids.get? (Kind.net.objectId name) = none) (hfresh : s.nets.get? name = none) :
    (s.create name name (.net members) []).1.Coherent := by
  have htarget : ∀ l, (s.create name name (.net members) []).1.target l = s.target l := by
    intro l
    refine target_create_of_none ?_
    cases l <;> rfl
  have hlinks : ∀ l, (s.create name name (.net members) []).1.links l = s.links l := by
    intro l
    refine links_create_of_nil ?_
    cases l with
    | part k => cases k <;> rfl
    | _ => rfl
  have hframe : (s.create name name (.net members) []).1.frame = s.frame :=
    frame_create_of_none rfl
  constructor
  case toIndexed =>
    refine hs.toIndexed.create hid ?_ ?_ fun _ => hfresh
    · intro hkind
      cases hkind
    · intro hkind
      cases hkind
  case toSettled =>
    refine hs.settled_of_frame (fun h n => name?_create_of_some) (fun _ => by rw [hlinks])
      (fun _ _ => by rw [hlinks]) (fun ht hf => ?_) hframe
    rw [htarget] at ht ⊢
    exact hs.placed ht hf
  case linked =>
    intro l
    rw [htarget, hlinks]
    exact hs.linked l

/-! ## All operations -/

theorem coherent_empty : Store.empty.Coherent := by
  have hindexes : ∀ {keep : Label → Prop} {key : Label → String},
      Indexes Store.empty.label? keep key .empty := by
    intro keep key
    refine ⟨List.nodup_nil, List.Pairwise.nil, fun {k h} => ?_⟩
    constructor
    · intro h
      cases h
    · rintro ⟨v, hv, -⟩
      cases hv
  exact
    { handle_eq := fun h => by cases h
      ids := hindexes
      modules := hindexes
      instances := hindexes
      nets := hindexes
      moduleIds := hindexes
      instanceIds := hindexes
      netIds := hindexes
      ordinary := fun h => by cases h
      resource := fun h => by cases h
      placed := fun h => by cases h
      linked := fun l => ⟨fun _ => List.nodup_nil, fun {c h} => by
        constructor <;> intro hmem <;> cases hmem⟩ }

/-- Every elementary operation keeps a store coherent. -/
theorem Coherent.change {s s' : Store} (h : Change s s') (hs : s.Coherent) : s'.Coherent := by
  cases h with
  | intern text => exact hs.congr (outline?_intern s text) ⟨rfl, rfl, rfl, rfl, rfl, rfl, rfl⟩
  | @module _ name ilm resource h hok =>
    obtain ⟨-, hfresh, hid, hres | hord⟩ := addModule_cases hok
    · obtain ⟨-, heq⟩ := hres
      have hnew := hs.createResource ilm hid hfresh
      rw [heq] at hnew
      exact hnew
    · obtain ⟨-, hfreshInst, hidInst, heq⟩ := hord
      have hnew := hs.createWithInstance ilm hid hfresh hidInst hfreshInst
      rw [heq] at hnew
      exact hnew
  | placement hok =>
    obtain ⟨-, o, m, p, c, ho, hm, hp, hc, hcontainer, -, hres | hord⟩ := addInstance_cases hok
    · obtain ⟨hresource, hfresh, hid, heq⟩ := hres
      have hnew := hs.createPlacement ho hm hp hc hresource hcontainer hid hfresh
      rw [heq] at hnew
      exact hnew
    · obtain ⟨-, -, -, ⟨d, i, hd, hi, hfree⟩, rfl⟩ := hord
      exact hs.place hd hi hp hc hfree hcontainer
  | part hnew hok =>
    obtain ⟨-, o, ho, hk, hinner, hid, heq⟩ := attach_cases hok
    have hcreate := hs.createPart hnew ho hk hinner hid
    rw [heq] at hcreate
    exact hcreate
  | net hok =>
    obtain ⟨-, hfresh, hid, -, -, rfl⟩ := addNet_cases hok
    exact (hs.createNet _ hid hfresh).enlistAll _ _ _ _
  | writing hok =>
    obtain ⟨-, o, -, -, rfl⟩ := setAttribute_cases hok
    exact hs.congr (outline?_write s _ _ _) (sameIndices_write s _ _ _)

/-- Every reachable store is coherent. -/
theorem Reachable.coherent {s : Store} (hs : s.Reachable) : s.Coherent :=
  hs.induction coherent_empty Coherent.change

end Interconnect.Store
