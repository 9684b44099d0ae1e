import Interconnect.Proofs.Store.Preservation
import Mathlib.Data.List.Sort

/-!
# The representation of a store

`WellFormed` says of the objects and indices themselves what coherence says of outlines: each
index is the list of its objects in creation order, each list of handles is the inverse of a
reference, and instances follow the rule about default instances and resources.  A coherent
store is well formed, and so every reachable store is.
-/

namespace Interconnect.Store

/-- The objects that `keep` selects, each under its key, in the order of their creation. -/
def listing (s : Store) (keep : Object → Bool) (key : Object → String) :
    List (String × Handle) :=
  (s.objects.toList.filter fun e => keep e.2).map fun e => (key e.2, e.1)

/-- The store is represented as it should be. -/
structure WellFormed (s : Store) : Prop where
  /-- An object lies where its handle says. -/
  handle_eq : ∀ {h : Handle} {o : Object}, s.object? h = some o → o.handle = h
  id_inj : ∀ {h h' : Handle} {o o' : Object}, s.object? h = some o → s.object? h' = some o' →
    o.id = o'.id → h = h'
  objectById?_iff : ∀ {id : String} {h : Handle},
    s.objectById? id = some h ↔ ∃ o, s.object? h = some o ∧ o.id = id
  ids_eq : s.ids.entries = s.listing (fun _ => true) Object.id
  modules_eq : s.modules.entries = s.listing (fun o => o.kind = .module) Object.name
  instances_eq : s.instances.entries = s.listing (fun o => o.kind = .inst) Object.name
  nets_eq : s.nets.entries = s.listing (fun o => o.kind = .net) Object.name
  moduleIds_eq : s.moduleIds.entries = s.listing (fun o => o.kind = .module) Object.id
  instanceIds_eq : s.instanceIds.entries = s.listing (fun o => o.kind = .inst) Object.id
  netIds_eq : s.netIds.entries = s.listing (fun o => o.kind = .net) Object.id
  /-- An object lists the parts that name it as their owner, each once. -/
  parts : ∀ {h : Handle} {o : Object}, s.object? h = some o → ∀ k : Kind,
    (o.listed k).Nodup ∧ ∀ c : Handle, c ∈ o.listed k ↔
      ∃ x p, s.object? c = some x ∧ x.body = .part h p ∧ p.kind = k
  owner : ∀ {c owner : Handle} {x : Object} {p : Part}, s.object? c = some x →
    x.body = .part owner p → ∃ o, s.object? owner = some o ∧ c ∈ o.listed p.kind
  /-- A module lists the instances that are placed in it, each once. -/
  children : ∀ {h : Handle} {o : Object} {m : Module}, s.object? h = some o →
    o.body = .module m → m.children.Nodup ∧ ∀ c : Handle, c ∈ m.children ↔
      ∃ x i, s.object? c = some x ∧ x.body = .inst i ∧ i.parent = some h
  parent : ∀ {c parent : Handle} {x : Object} {i : Instance}, s.object? c = some x →
    x.body = .inst i → i.parent = some parent →
    ∃ o m, s.object? parent = some o ∧ o.body = .module m ∧ c ∈ m.children
  /-- A module lists its own instances, each once. -/
  placements : ∀ {h : Handle} {o : Object} {m : Module}, s.object? h = some o →
    o.body = .module m → m.placements.Nodup ∧ ∀ c : Handle, c ∈ m.placements ↔
      ∃ x i, s.object? c = some x ∧ x.body = .inst i ∧ i.module = h
  module : ∀ {c : Handle} {x : Object} {i : Instance}, s.object? c = some x →
    x.body = .inst i →
    ∃ o m, s.object? i.module = some o ∧ o.body = .module m ∧ c ∈ m.placements
  /-- A module that is no resource has one instance, which carries its name. -/
  ordinary : ∀ {h : Handle} {o : Object} {m : Module}, s.object? h = some o →
    o.body = .module m → m.resource = false →
    ∃ d x i, m.defaultInstance = some d ∧ m.placements = [d] ∧ s.object? d = some x ∧
      x.body = .inst i ∧ i.module = h ∧ x.name = o.name
  /-- A resource has no default instance and no inner content, and its instances are placed. -/
  resource : ∀ {h : Handle} {o : Object} {m : Module}, s.object? h = some o →
    o.body = .module m → m.resource = true →
    m.defaultInstance = none ∧ m.decls = [] ∧ m.code = [] ∧ m.regfiles = [] ∧ m.children = [] ∧
      ∀ c ∈ m.placements, ∃ x i, s.object? c = some x ∧ x.body = .inst i ∧ i.parent.isSome

theorem mem_listing {s : Store} {keep : Object → Bool} {key : Object → String} {k : String}
    {h : Handle} :
    (k, h) ∈ s.listing keep key ↔ ∃ o, s.object? h = some o ∧ keep o = true ∧ key o = k := by
  unfold listing object?
  rw [List.mem_map]
  constructor
  · rintro ⟨⟨h', o⟩, hmem, heq⟩
    cases heq
    rw [List.mem_filter, Arena.mem_toList] at hmem
    exact ⟨o, hmem.1, hmem.2, rfl⟩
  · rintro ⟨o, ho, hkeep, hkey⟩
    refine ⟨(h, o), ?_, by rw [hkey]⟩
    rw [List.mem_filter, Arena.mem_toList]
    exact ⟨ho, hkeep⟩

theorem pairwise_listing (s : Store) (keep : Object → Bool) (key : Object → String) :
    (s.listing keep key).Pairwise fun e e' => e.2 < e'.2 := by
  unfold listing
  rw [List.pairwise_map]
  exact (Arena.pairwise_toList s.objects).filter _

theorem label?_eq_some_iff {s : Store} {h : Handle} {v : Label} :
    s.label? h = some v ↔ ∃ o, s.object? h = some o ∧ o.outline.toLabel = v := by
  unfold label? outline?
  rw [Option.map_map, Option.map_eq_some_iff]
  rfl

/-- An index is the list of its objects in creation order. -/
theorem entries_eq {s : Store} {keepLabel : Label → Prop} {keyLabel : Label → String}
    {index : OrderedMap String Handle} {keep : Object → Bool} {key : Object → String}
    (hi : Indexes s.label? keepLabel keyLabel index)
    (hkeep : ∀ o, keepLabel o.outline.toLabel ↔ keep o = true)
    (hkey : ∀ o, keyLabel o.outline.toLabel = key o) :
    index.entries = s.listing keep key := by
  have hascending : index.entries.Pairwise fun e e' => e.2 < e'.2 :=
    List.pairwise_map.1 hi.ascending
  refine hascending.eq_of_mem_iff (pairwise_listing s keep key) ?_
  rintro ⟨k, h⟩
  rw [hi.mem_entries, mem_listing]
  constructor
  · rintro ⟨v, hv, hk, rfl⟩
    obtain ⟨o, ho, rfl⟩ := label?_eq_some_iff.1 hv
    exact ⟨o, ho, (hkeep o).1 hk, (hkey o).symm⟩
  · rintro ⟨o, ho, hk, rfl⟩
    exact ⟨o.outline.toLabel, label?_eq_some_iff.2 ⟨o, ho, rfl⟩, (hkeep o).2 hk, hkey o⟩

/-! ## Coherent stores -/

/-- An object that is listed refers to the one that lists it, and the other way round. -/
theorem Coherent.mem_links_iff {s : Store} (hs : s.Coherent) {h c : Handle} {o : Object}
    (ho : s.object? h = some o) (l : Link) :
    c ∈ o.links l ↔ ∃ x, s.object? c = some x ∧ x.target l = some h := by
  rw [← links_of_object? ho, (hs.linked l).mem_links, target_eq_some_iff]

theorem Coherent.nodup_links {s : Store} (hs : s.Coherent) {h : Handle} {o : Object}
    (ho : s.object? h = some o) (l : Link) : (o.links l).Nodup := by
  rw [← links_of_object? ho]
  exact (hs.linked l).nodup h

/-- What an object lists are the objects that refer to it, each once. -/
theorem Coherent.lists {s : Store} (hs : s.Coherent) {h : Handle} {o : Object}
    (ho : s.object? h = some o) (l : Link) :
    (o.links l).Nodup ∧ ∀ c, c ∈ o.links l ↔ ∃ x, s.object? c = some x ∧ x.target l = some h :=
  ⟨hs.nodup_links ho l, fun _ => hs.mem_links_iff ho l⟩

/-- An object that refers to another is listed there. -/
theorem Coherent.listed {s : Store} (hs : s.Coherent) {c h : Handle} {x : Object} {l : Link}
    (hx : s.object? c = some x) (ht : x.target l = some h) :
    ∃ o, s.object? h = some o ∧ c ∈ o.links l := by
  have hmem : c ∈ s.links l h := (hs.linked l).mem_links.2 (target_eq_some_iff.2 ⟨x, hx, ht⟩)
  cases ho : s.object? h with
  | none =>
    rw [links, outline?, ho, Option.map_none, Option.elim_none] at hmem
    cases hmem
  | some o =>
    rw [links_of_object? ho] at hmem
    exact ⟨o, rfl, hmem⟩

theorem links_of_module {o : Object} {m : Module} (hm : o.body = .module m) :
    o.links .child = m.children ∧ o.links .placement = m.placements ∧
      o.links (.part .declaration) = m.decls ∧ o.links (.part .code) = m.code ∧
      o.links (.part .regfile) = m.regfiles := by
  obtain ⟨handle, id, name, attributes, body⟩ := o
  cases hm
  exact ⟨rfl, rfl, rfl, rfl, rfl⟩

/-- Only modules list instances. -/
theorem module_of_mem_links {o : Object} {c : Handle} {l : Link} (hl : l = .child ∨ l = .placement)
    (hc : c ∈ o.links l) : ∃ m, o.body = .module m := by
  obtain ⟨handle, id, name, attributes, body⟩ := o
  cases body with
  | module m => exact ⟨m, rfl⟩
  | _ => rcases hl with rfl | rfl <;> cases hc

/-- A module that is no resource has one instance, which carries its name. -/
theorem Coherent.exists_default {s : Store} (hs : s.Coherent) {h : Handle} {o : Object} {m : Module}
    (ho : s.object? h = some o) (hm : o.body = .module m) (hres : m.resource = false) :
    ∃ d x i, m.defaultInstance = some d ∧ m.placements = [d] ∧ s.object? d = some x ∧
      x.body = .inst i ∧ i.module = h ∧ x.name = o.name := by
  have hf := frame_of_module ho hm
  rw [hres] at hf
  obtain ⟨d, hd, hlinks, hname⟩ := hs.ordinary hf
  have hmem : d ∈ s.links .placement h := by simp [hlinks]
  obtain ⟨x, hx, ht⟩ := target_eq_some_iff.1 ((hs.linked .placement).mem_links.1 hmem)
  obtain ⟨i, hi, hmodule⟩ := Object.target_placement_eq_some.1 ht
  rw [links_of_object? ho, (links_of_module hm).2.1] at hlinks
  rw [name?_of_object? hx, name?_of_object? ho] at hname
  exact ⟨d, x, i, hd, hlinks, hx, hi, hmodule, Option.some.inj hname⟩

section Resource

variable {s : Store} (hs : s.Coherent) {h : Handle} {o : Object} {m : Module}
  (ho : s.object? h = some o) (hm : o.body = .module m) (hres : m.resource = true)

include hs ho hm hres

/-- A resource has no default instance and no inner content. -/
theorem Coherent.bare_of_resource :
    m.defaultInstance = none ∧ ∀ l : Link, l.isInner = true → o.links l = [] := by
  have hf := frame_of_module ho hm
  rw [hres] at hf
  obtain ⟨hnone, hnil⟩ := hs.resource hf
  refine ⟨hnone, fun l hl => ?_⟩
  rw [← links_of_object? ho, hnil l hl]

/-- The instances of a resource are placed. -/
theorem Coherent.placed_of_resource {c : Handle} (hc : c ∈ o.links .placement) :
    ∃ x i, s.object? c = some x ∧ x.body = .inst i ∧ i.parent.isSome := by
  have hf := frame_of_module ho hm
  rw [hres] at hf
  obtain ⟨x, hx, ht⟩ := (hs.mem_links_iff ho .placement).1 hc
  obtain ⟨i, hi, -⟩ := Object.target_placement_eq_some.1 ht
  have hplaced := hs.placed (target_eq_some_iff.2 ⟨x, hx, ht⟩) hf
  obtain ⟨parent, hparent⟩ := Option.isSome_iff_exists.1 hplaced
  -- The object that is placed is the one that was found above.
  obtain ⟨x', hx', ht'⟩ := target_eq_some_iff.1 hparent
  obtain rfl : x = x' := Option.some.inj (hx.symm.trans hx')
  obtain ⟨i', hi', hp⟩ := Object.target_child_eq_some.1 ht'
  obtain rfl : i = i' := Body.inst.inj (hi.symm.trans hi')
  exact ⟨x, i, hx, hi, by rw [hp, Option.isSome_some]⟩

end Resource

/-- A coherent store is well formed. -/
theorem Coherent.wellFormed {s : Store} (hs : s.Coherent) : s.WellFormed := by
  constructor
  case handle_eq =>
    intro h o ho
    exact hs.handle_eq_of_object? ho
  case id_inj =>
    intro h h' o o' ho ho' heq
    exact hs.ids.key_inj (label?_eq_some_iff.2 ⟨o, ho, rfl⟩) (label?_eq_some_iff.2 ⟨o', ho', rfl⟩)
      trivial trivial heq
  case objectById?_iff =>
    intro id h
    unfold objectById?
    rw [hs.ids.get?_eq_some_iff]
    constructor
    · rintro ⟨v, hv, -, hid⟩
      obtain ⟨o, ho, rfl⟩ := label?_eq_some_iff.1 hv
      exact ⟨o, ho, hid⟩
    · rintro ⟨o, ho, hid⟩
      exact ⟨o.outline.toLabel, label?_eq_some_iff.2 ⟨o, ho, rfl⟩, trivial, hid⟩
  case ids_eq => exact entries_eq hs.ids (fun o => by simp) fun o => rfl
  case modules_eq => exact entries_eq hs.modules (fun o => by simp [Object.outline]) fun o => rfl
  case instances_eq =>
    exact entries_eq hs.instances (fun o => by simp [Object.outline]) fun o => rfl
  case nets_eq => exact entries_eq hs.nets (fun o => by simp [Object.outline]) fun o => rfl
  case moduleIds_eq =>
    exact entries_eq hs.moduleIds (fun o => by simp [Object.outline]) fun o => rfl
  case instanceIds_eq =>
    exact entries_eq hs.instanceIds (fun o => by simp [Object.outline]) fun o => rfl
  case netIds_eq => exact entries_eq hs.netIds (fun o => by simp [Object.outline]) fun o => rfl
  case parts =>
    intro h o ho k
    rw [show o.listed k = o.links (.part k) from rfl]
    simpa only [Object.target_part_eq_some, exists_and_left] using hs.lists ho (.part k)
  case owner =>
    intro c owner x p hx hp
    exact hs.listed hx (Object.target_part_eq_some.2 ⟨p, hp, rfl⟩)
  case children =>
    intro h o m ho hm
    rw [← (links_of_module hm).1]
    simpa only [Object.target_child_eq_some, exists_and_left] using hs.lists ho .child
  case parent =>
    intro c parent x i hx hi hp
    obtain ⟨o, ho, hmem⟩ := hs.listed hx (Object.target_child_eq_some.2 ⟨i, hi, hp⟩)
    obtain ⟨m, hm⟩ := module_of_mem_links (Or.inl rfl) hmem
    exact ⟨o, m, ho, hm, (links_of_module hm).1 ▸ hmem⟩
  case placements =>
    intro h o m ho hm
    rw [← (links_of_module hm).2.1]
    simpa only [Object.target_placement_eq_some, exists_and_left] using hs.lists ho .placement
  case module =>
    intro c x i hx hi
    obtain ⟨o, ho, hmem⟩ := hs.listed hx (Object.target_placement_eq_some.2 ⟨i, hi, rfl⟩)
    obtain ⟨m, hm⟩ := module_of_mem_links (Or.inr rfl) hmem
    exact ⟨o, m, ho, hm, (links_of_module hm).2.1 ▸ hmem⟩
  case ordinary =>
    intro h o m ho hm hres
    exact hs.exists_default ho hm hres
  case resource =>
    intro h o m ho hm hres
    obtain ⟨hnone, hinner⟩ := hs.bare_of_resource ho hm hres
    obtain ⟨hchildren, hplacements, hdecls, hcode, hregfiles⟩ := links_of_module hm
    exact ⟨hnone, hdecls ▸ hinner _ rfl, hcode ▸ hinner _ rfl, hregfiles ▸ hinner _ rfl,
      hchildren ▸ hinner _ rfl, fun c hc => hs.placed_of_resource ho hm hres (hplacements ▸ hc)⟩

/-- Every reachable store is well formed. -/
theorem wellFormed_of_reachable {s : Store} (hs : s.Reachable) : s.WellFormed :=
  hs.coherent.wellFormed

/-- A module with a module inside, and an instance of a resource inside that. -/
def nested : Store :=
  execAll
    [.addModule "top" false false, .addModule "leaf" false false, .addModule "ram" true true,
      .addInstance "leaf" 2 0, .addInstance "ram0" 4 2, .addPort 2 "clk" .input]

theorem wellFormed_nested : nested.Reachable ∧ nested.size = 7 ∧ nested.WellFormed :=
  ⟨reachable_execAll _, rfl, wellFormed_of_reachable (reachable_execAll _)⟩

end Interconnect.Store
