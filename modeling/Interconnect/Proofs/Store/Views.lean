import Interconnect.Proofs.Store.Coherence

/-!
# What operations show

The elementary changes of a store are the creation of an object and the modification of one.
The lemmas here compute what the views of a store, `target`, `links`, `frame`, `label?` and
`name?`, become under them.  The indices are touched when an object is created and at no
other time, so `Indexed.create` is all there is to say about them.
-/

namespace Interconnect.Store

/-! ## Creating an object -/

/-- An object of the kind that is indexed goes to the end of the index, and any other object
leaves it alone. -/
theorem indexes_enter {view : Handle → Option Label} {key : Label → String} {k : Kind}
    {index : OrderedMap String Handle} {n : Handle} {v : Label}
    (hi : Indexes view (fun v => v.kind = k) key index)
    (hfresh : ∀ h w, view h = some w → h < n) (hnone : view n = none)
    (hkey : v.kind = k → index.get? (key v) = none) :
    Indexes (Function.update view n (some v)) (fun v => v.kind = k) key
      (enter v.kind k index (key v) n) := by
  unfold enter
  split
  · rename_i hk
    exact hi.insert hfresh hk (hkey hk)
  · rename_i hk
    exact hi.skip hnone hk

theorem label?_size (s : Store) : s.label? s.size = none := by
  rw [label?, outline?_size, Option.map_none]

theorem lt_size_of_label? {s : Store} {h : Handle} {v : Label} (hv : s.label? h = some v) :
    h < s.size := by
  obtain ⟨w, hw, -⟩ := Option.map_eq_some_iff.1 hv
  exact lt_size_of_outline? hw

/-- An id that is free is free among the objects of a kind. -/
theorem get?_eq_none_of_ids {s : Store} (hs : s.Indexed) {keep : Label → Prop}
    {index : OrderedMap String Handle} (hi : Indexes s.label? keep Label.id index) {id : String}
    (hid : s.ids.get? id = none) : index.get? id = none := by
  cases hget : index.get? id with
  | none => rfl
  | some h =>
    obtain ⟨v, hv, -, hkey⟩ := hi.get?_eq_some_iff.1 hget
    rw [hs.ids.get?_eq_some_iff.2 ⟨v, hv, trivial, hkey⟩] at hid
    cases hid

section Create

variable (s : Store) (scope name : String) (body : Body) (details : List (String × String))

/-- The object that `create` adds. -/
def created : Object :=
  { handle := s.size
    id := body.kind.objectId scope
    name
    attributes := builtins body.kind (body.kind.objectId scope) name details
    body }

theorem outline?_create_eq :
    (s.create scope name body details).1.outline?
      = Function.update s.outline? s.size (some (s.created scope name body details).outline) :=
  outline?_create s scope name body details

end Create

/-- A new object with a new id and a new name is entered where it belongs. -/
theorem Indexed.create {s : Store} (hs : s.Indexed) {scope name : String} {body : Body}
    {details : List (String × String)} (hid : s.ids.get? (body.kind.objectId scope) = none)
    (hmodule : body.kind = .module → s.modules.get? name = none)
    (hinst : body.kind = .inst → s.instances.get? name = none)
    (hnet : body.kind = .net → s.nets.get? name = none) :
    (s.create scope name body details).1.Indexed := by
  have hlabel := label?_of_update (outline?_create_eq s scope name body details)
  have hfresh : ∀ h w, s.label? h = some w → h < s.size := fun h w hw => lt_size_of_label? hw
  have hnone := label?_size s
  constructor
  case handle_eq =>
    intro h v hv
    rw [hlabel] at hv
    by_cases hh : h = s.size
    · subst hh
      rw [Function.update_self] at hv
      cases hv
      rfl
    · rw [Function.update_of_ne hh] at hv
      exact hs.handle_eq hv
  case ids => rw [hlabel]; exact hs.ids.insert hfresh trivial hid
  case modules => rw [hlabel]; exact indexes_enter hs.modules hfresh hnone hmodule
  case instances => rw [hlabel]; exact indexes_enter hs.instances hfresh hnone hinst
  case nets => rw [hlabel]; exact indexes_enter hs.nets hfresh hnone hnet
  case moduleIds =>
    rw [hlabel]
    exact indexes_enter hs.moduleIds hfresh hnone fun _ => get?_eq_none_of_ids hs hs.moduleIds hid
  case instanceIds =>
    rw [hlabel]
    exact indexes_enter hs.instanceIds hfresh hnone fun _ =>
      get?_eq_none_of_ids hs hs.instanceIds hid
  case netIds =>
    rw [hlabel]
    exact indexes_enter hs.netIds hfresh hnone fun _ => get?_eq_none_of_ids hs hs.netIds hid

section Create

variable {s : Store} {scope name : String} {body : Body} {details : List (String × String)}

theorem target_size (s : Store) (l : Link) : s.target l s.size = none := by
  rw [target, outline?_size, Option.bind_none]

theorem links_size (s : Store) (l : Link) : s.links l s.size = [] := by
  rw [links, outline?_size, Option.elim_none]

theorem frame_size (s : Store) : s.frame s.size = none := by
  rw [frame, outline?_size, Option.bind_none]

theorem target_create (l : Link) :
    (s.create scope name body details).1.target l
      = Function.update (s.target l) s.size ((s.created scope name body details).target l) :=
  target_of_update (outline?_create_eq s scope name body details) l

theorem target_create_of_none {l : Link}
    (h : (s.created scope name body details).target l = none) :
    (s.create scope name body details).1.target l = s.target l := by
  rw [target_create, h, Function.update_eq_self_iff, target_size]

theorem links_create (l : Link) :
    (s.create scope name body details).1.links l
      = Function.update (s.links l) s.size ((s.created scope name body details).links l) :=
  links_of_update (outline?_create_eq s scope name body details) l

theorem links_create_of_nil {l : Link}
    (h : (s.created scope name body details).links l = []) :
    (s.create scope name body details).1.links l = s.links l := by
  rw [links_create, h, Function.update_eq_self_iff, links_size]

theorem frame_create :
    (s.create scope name body details).1.frame
      = Function.update s.frame s.size (s.created scope name body details).frame :=
  frame_of_update (outline?_create_eq s scope name body details)

theorem frame_create_of_none (h : (s.created scope name body details).frame = none) :
    (s.create scope name body details).1.frame = s.frame := by
  rw [frame_create, h, Function.update_eq_self_iff, frame_size]

theorem name?_create :
    (s.create scope name body details).1.name? = Function.update s.name? s.size (some name) := by
  funext h
  rw [Store.name?, label?_of_update (outline?_create_eq s scope name body details)]
  by_cases hh : h = s.size
  · subst hh
    rw [Function.update_self, Function.update_self]
    rfl
  · rw [Function.update_of_ne hh, Function.update_of_ne hh, ← Store.name?]

theorem name?_create_of_some {h : Handle} {n : String} (hn : s.name? h = some n) :
    (s.create scope name body details).1.name? h = some n := by
  have hh : h ≠ s.size := by
    rintro rfl
    rw [Store.name?, label?_size, Option.map_none] at hn
    cases hn
  rw [name?_create, Function.update_of_ne hh, hn]

end Create

/-! ## Modules and instances -/

theorem frame_eq (s : Store) (h : Handle) :
    s.frame h = (s.module? h).map fun m => (m.resource, m.defaultInstance) := by
  unfold frame outline? module?
  rw [Option.bind_map, Option.map_bind]
  rfl

theorem target_child_eq (s : Store) (h : Handle) :
    s.target .child h = (s.instance? h).bind Instance.parent := by
  unfold target outline? instance?
  rw [Option.bind_map, Option.bind_assoc]
  rfl

theorem target_placement_eq (s : Store) (h : Handle) :
    s.target .placement h = (s.instance? h).map Instance.module := by
  unfold target outline? instance?
  rw [Option.bind_map, Option.map_bind]
  rfl

theorem exists_module_of_frame {s : Store} {h : Handle} {r : Bool} {d : Option Handle}
    (hf : s.frame h = some (r, d)) :
    ∃ m, s.module? h = some m ∧ m.resource = r ∧ m.defaultInstance = d := by
  rw [frame_eq] at hf
  obtain ⟨m, hm, heq⟩ := Option.map_eq_some_iff.1 hf
  cases heq
  exact ⟨m, hm, rfl, rfl⟩

theorem defaultInstance_of_frame {s : Store} {h : Handle} {r : Bool} {d : Option Handle}
    (hf : s.frame h = some (r, d)) : (s.module? h).bind Module.defaultInstance = d := by
  obtain ⟨m, hm, -, hd⟩ := exists_module_of_frame hf
  rw [hm, Option.bind_some, hd]

theorem exists_instance_of_target {s : Store} {h m : Handle}
    (ht : s.target .placement h = some m) : ∃ i, s.instance? h = some i ∧ i.module = m := by
  rw [target_placement_eq] at ht
  exact Option.map_eq_some_iff.1 ht

/-- An instance and its module. -/
theorem exists_instance_of_frame {s : Store} {h m : Handle} {r : Bool} {d : Option Handle}
    (ht : s.target .placement h = some m) (hf : s.frame m = some (r, d)) :
    ∃ i x, s.instance? h = some i ∧ i.module = m ∧ s.module? i.module = some x ∧
      x.resource = r := by
  obtain ⟨i, hi, rfl⟩ := exists_instance_of_target ht
  obtain ⟨x, hx, hres, -⟩ := exists_module_of_frame hf
  exact ⟨i, x, hi, rfl, hx, hres⟩

/-- A module is no instance. -/
theorem target_eq_none_of_frame {s : Store} {h : Handle} {f : Bool × Option Handle}
    (hf : s.frame h = some f) : s.target .placement h = none := by
  obtain ⟨m, hm, -⟩ := exists_module_of_frame hf
  obtain ⟨o, ho, hbody⟩ := Option.bind_eq_some_iff.1 hm
  rw [target_placement_eq, instance?, ho, Option.bind_some]
  unfold Object.instance?
  rw [Object.module?_eq_some.1 hbody]
  rfl

/-- An instance of a module that is no resource is its default instance. -/
theorem Coherent.frame_of_instance {s : Store} (hs : s.Coherent) {inst : Handle} {i : Instance}
    {m : Module} (hi : s.instance? inst = some i) (hm : s.module? i.module = some m)
    (hres : m.resource = false) : s.frame i.module = some (false, some inst) := by
  have hf : s.frame i.module = some (false, m.defaultInstance) := by
    rw [frame_eq, hm, Option.map_some, hres]
  have ht : s.target .placement inst = some i.module := by
    rw [target_placement_eq, hi, Option.map_some]
  obtain ⟨d, hd, hlinks, -⟩ := hs.ordinary hf
  have hmem := (hs.linked .placement).mem_links.2 ht
  rw [hlinks, List.mem_singleton] at hmem
  rw [hf, hd, hmem]

theorem module_of_frame {s : Store} {h : Handle} {o : Object} {r : Bool} {d : Option Handle}
    (ho : s.object? h = some o) (hf : s.frame h = some (r, d)) :
    ∃ m, o.body = .module m ∧ m.resource = r ∧ m.defaultInstance = d := by
  rw [frame, outline?_of_object? ho, Option.bind_some] at hf
  obtain ⟨m, hm, heq⟩ := Option.map_eq_some_iff.1 hf
  cases heq
  exact ⟨m, Object.module?_eq_some.1 hm, rfl, rfl⟩

theorem frame_of_module {s : Store} {h : Handle} {o : Object} {m : Module}
    (ho : s.object? h = some o) (hm : o.body = .module m) :
    s.frame h = some (m.resource, m.defaultInstance) := by
  rw [frame, outline?_of_object? ho, Option.bind_some]
  show o.module?.map _ = _
  rw [Object.module?_eq_some.2 hm, Option.map_some]

theorem frame_of_instance_eq_none {s : Store} {h : Handle} {o : Object} {i : Instance}
    (ho : s.object? h = some o) (hi : o.body = .inst i) : s.frame h = none := by
  rw [frame, outline?, ho]
  simp [Object.outline, Object.frame, Object.module?, hi]

theorem exists_name?_of_frame {s : Store} {h : Handle} {f : Bool × Option Handle}
    (hf : s.frame h = some f) : ∃ n, s.name? h = some n := by
  obtain ⟨v, hv, -⟩ := Option.bind_eq_some_iff.1 hf
  exact ⟨v.name, by rw [name?, label?, hv]; rfl⟩

/-- Nothing refers to the next object. -/
theorem Coherent.target_ne_size {s : Store} (hs : s.Coherent) (l : Link) (c : Handle) :
    s.target l c ≠ some s.size := by
  intro h
  have hmem := (hs.linked l).mem_links.2 h
  rw [links_size] at hmem
  cases hmem

/-- The default instance of a module is as it was if names and placements are. -/
theorem Coherent.ordinary_mono {s s' : Store} (hs : s.Coherent) {h : Handle} {d : Option Handle}
    (hf : s.frame h = some (false, d))
    (hname : ∀ h n, s.name? h = some n → s'.name? h = some n)
    (hlinks : s'.links .placement h = s.links .placement h) :
    ∃ i, d = some i ∧ s'.links .placement h = [i] ∧ s'.name? i = s'.name? h := by
  obtain ⟨i, hd, hi, heq⟩ := hs.ordinary hf
  obtain ⟨n, hn⟩ := exists_name?_of_frame hf
  refine ⟨i, hd, by rw [hlinks, hi], ?_⟩
  rw [hname i n (heq.trans hn), hname h n hn]

/-! ## Changing an object -/

section Listing

variable {s : Store} {h c : Handle} {o : Object} {f : Object → Object} {l : Link}

/-- A new entry in a list shows in that list only. -/
theorem target_modify_listing (ho : s.object? h = some o)
    (hf : (f o).outline = o.outline.listing l c) : (s.modify h f).target = s.target := by
  funext l'
  rw [target_of_update (outline?_modify ho), hf, Function.update_eq_self_iff, target,
    outline?_of_object? ho, Option.bind_some]
  rfl

theorem frame_modify_listing (ho : s.object? h = some o)
    (hf : (f o).outline = o.outline.listing l c) : (s.modify h f).frame = s.frame := by
  rw [frame_of_update (outline?_modify ho), hf, Function.update_eq_self_iff, frame,
    outline?_of_object? ho, Option.bind_some]
  rfl

theorem label?_modify_listing (ho : s.object? h = some o)
    (hf : (f o).outline = o.outline.listing l c) : (s.modify h f).label? = s.label? := by
  rw [label?_of_update (outline?_modify ho), hf, Function.update_eq_self_iff, label?,
    outline?_of_object? ho, Option.map_some]
  rfl

theorem links_modify_listing_self (ho : s.object? h = some o)
    (hf : (f o).outline = o.outline.listing l c) :
    (s.modify h f).links l = Function.update (s.links l) h (s.links l h ++ [c]) := by
  rw [links_of_update (outline?_modify ho), hf, Outline.links_listing_self, links,
    outline?_of_object? ho, Option.elim_some]

theorem links_modify_listing_of_ne (ho : s.object? h = some o)
    (hf : (f o).outline = o.outline.listing l c) {l' : Link} (hl : l' ≠ l) :
    (s.modify h f).links l' = s.links l' := by
  rw [links_of_update (outline?_modify ho), hf, Outline.links_listing_of_ne _ c hl,
    Function.update_eq_self_iff, links, outline?_of_object? ho, Option.elim_some]

end Listing

section Pointing

variable {s : Store} {c h : Handle} {o : Object} {f : Object → Object} {l : Link}

/-- A new reference shows under its kind only. -/
theorem target_modify_pointing_self (ho : s.object? c = some o)
    (hf : (f o).outline = o.outline.pointing l h) :
    (s.modify c f).target l = Function.update (s.target l) c (some h) := by
  rw [target_of_update (outline?_modify ho), hf, Outline.target_pointing_self]

theorem target_modify_pointing_of_ne (ho : s.object? c = some o)
    (hf : (f o).outline = o.outline.pointing l h) {l' : Link} (hl : l' ≠ l) :
    (s.modify c f).target l' = s.target l' := by
  rw [target_of_update (outline?_modify ho), hf, Outline.target_pointing_of_ne _ h hl,
    Function.update_eq_self_iff, target, outline?_of_object? ho, Option.bind_some]

theorem links_modify_pointing (ho : s.object? c = some o)
    (hf : (f o).outline = o.outline.pointing l h) : (s.modify c f).links = s.links := by
  funext l'
  rw [links_of_update (outline?_modify ho), hf, Function.update_eq_self_iff, links,
    outline?_of_object? ho, Option.elim_some]
  rfl

theorem frame_modify_pointing (ho : s.object? c = some o)
    (hf : (f o).outline = o.outline.pointing l h) : (s.modify c f).frame = s.frame := by
  rw [frame_of_update (outline?_modify ho), hf, Function.update_eq_self_iff, frame,
    outline?_of_object? ho, Option.bind_some]
  rfl

theorem label?_modify_pointing (ho : s.object? c = some o)
    (hf : (f o).outline = o.outline.pointing l h) : (s.modify c f).label? = s.label? := by
  rw [label?_of_update (outline?_modify ho), hf, Function.update_eq_self_iff, label?,
    outline?_of_object? ho, Option.map_some]
  rfl

end Pointing

end Interconnect.Store
