import Interconnect.Proofs.Store.Change
import Interconnect.Proofs.Store.Outline

/-!
# Coherence

A store says many things twice.  Each index repeats what objects say of themselves, and each
list of handles repeats references that lead the other way.  A coherent store says the same
thing both times, and its instances are what the rule about default instances and resources
makes them.

* `Indexes` is the law of one index, and `Indexes.insert` its step.
* `Inverse` is the law of one kind of reference, and `Inverse.refer` its step.
* `Coherent` gathers the laws, one lemma for each elementary operation says that it is kept,
  and `Reachable.coherent` draws the conclusion.
-/

namespace Interconnect

/-! ## One index -/

/-- The index holds exactly the objects that `keep` selects, each under its key, in the order
of their creation. -/
structure Indexes (view : Handle → Option Label) (keep : Label → Prop)
    (key : Label → String) (index : OrderedMap String Handle) : Prop where
  keys_nodup : index.keys.Nodup
  ascending : index.values.Pairwise (· < ·)
  mem_entries : ∀ {k : String} {h : Handle},
    (k, h) ∈ index.entries ↔ ∃ v, view h = some v ∧ keep v ∧ key v = k

namespace Indexes

variable {view : Handle → Option Label} {keep : Label → Prop} {key : Label → String}
  {index : OrderedMap String Handle}

theorem get?_eq_some_iff (hi : Indexes view keep key index) {k : String} {h : Handle} :
    index.get? k = some h ↔ ∃ v, view h = some v ∧ keep v ∧ key v = k := by
  rw [OrderedMap.get?_eq_some_iff hi.keys_nodup, hi.mem_entries]

/-- No two selected objects have one key. -/
theorem key_inj (hi : Indexes view keep key index) {h h' : Handle} {v v' : Label}
    (hv : view h = some v) (hv' : view h' = some v') (hk : keep v) (hk' : keep v')
    (heq : key v = key v') : h = h' := by
  have hget : index.get? (key v) = some h := hi.get?_eq_some_iff.2 ⟨v, hv, hk, rfl⟩
  have hget' : index.get? (key v) = some h' := hi.get?_eq_some_iff.2 ⟨v', hv', hk', heq.symm⟩
  rw [hget] at hget'
  exact Option.some.inj hget'

/-- A new object that is selected goes to the end of the index. -/
theorem insert (hi : Indexes view keep key index) {n : Handle} {v : Label}
    (hfresh : ∀ h v, view h = some v → h < n) (hkeep : keep v)
    (hkey : index.get? (key v) = none) :
    Indexes (Function.update view n (some v)) keep key (index.insert (key v) n) := by
  have hentries := OrderedMap.entries_insert n hkey
  have hnone : view n = none := by
    cases hn : view n with
    | none => rfl
    | some w => exact absurd (hfresh n w hn) (Nat.lt_irrefl n)
  refine ⟨?_, ?_, fun {k h} => ?_⟩
  · unfold OrderedMap.keys
    rw [hentries, List.map_append, List.nodup_append]
    refine ⟨hi.keys_nodup, by simp, ?_⟩
    intro a ha b hb heq
    rw [List.map_singleton, List.mem_singleton] at hb
    rw [heq, hb] at ha
    exact OrderedMap.get?_eq_none_iff.1 hkey ha
  · unfold OrderedMap.values
    rw [hentries, List.map_append, List.pairwise_append]
    refine ⟨hi.ascending, by simp, ?_⟩
    intro a ha b hb
    rw [List.map_singleton, List.mem_singleton] at hb
    obtain ⟨⟨k, h⟩, he, rfl⟩ := List.mem_map.1 ha
    obtain ⟨w, hw, -⟩ := hi.mem_entries.1 he
    rw [hb]
    exact hfresh h w hw
  · rw [hentries, List.mem_append, List.mem_singleton, hi.mem_entries]
    by_cases hh : h = n
    · subst hh
      simp [hnone, hkeep, eq_comm]
    · simp [hh]

/-- A new object that is not selected leaves the index alone. -/
theorem skip (hi : Indexes view keep key index) {n : Handle} {v : Label}
    (hnone : view n = none) (hkeep : ¬ keep v) :
    Indexes (Function.update view n (some v)) keep key index := by
  refine ⟨hi.keys_nodup, hi.ascending, fun {k h} => ?_⟩
  rw [hi.mem_entries]
  by_cases hh : h = n
  · subst hh
    simp [hnone, hkeep]
  · rw [Function.update_of_ne hh]

end Indexes

/-! ## One kind of reference -/

/-- Each list holds exactly the objects that refer to its owner, each once. -/
structure Inverse (target : Handle → Option Handle) (links : Handle → List Handle) :
    Prop where
  nodup : ∀ h, (links h).Nodup
  mem_links : ∀ {c h : Handle}, c ∈ links h ↔ target c = some h

/-- A new reference goes with a new entry at the end of a list. -/
theorem Inverse.refer {target : Handle → Option Handle} {links : Handle → List Handle}
    (hi : Inverse target links) {c h : Handle} (hc : target c = none) :
    Inverse (Function.update target c (some h))
      (Function.update links h (links h ++ [c])) := by
  have hnot : ∀ h', c ∉ links h' := fun h' hmem => by simp [hi.mem_links.1 hmem] at hc
  refine ⟨fun h' => ?_, fun {c' h'} => ?_⟩
  · by_cases hh : h' = h
    · subst hh
      rw [Function.update_self, List.nodup_append]
      refine ⟨hi.nodup h', by simp, ?_⟩
      intro a ha b hb heq
      rw [List.mem_singleton] at hb
      exact hnot h' (hb ▸ heq ▸ ha)
    · rw [Function.update_of_ne hh]
      exact hi.nodup h'
  · by_cases hcc : c' = c
    · subst hcc
      rw [Function.update_self]
      by_cases hh : h' = h
      · subst hh
        simp
      · rw [Function.update_of_ne hh]
        simp [hnot h', Ne.symm hh]
    · rw [Function.update_of_ne hcc, ← hi.mem_links]
      by_cases hh : h' = h
      · subst hh
        simp [hcc]
      · rw [Function.update_of_ne hh]

/-! ## The laws of a store -/

namespace Store

/-- Handles and indices repeat what the objects say of themselves. -/
structure Indexed (s : Store) : Prop where
  handle_eq : ∀ {h : Handle} {v : Label}, s.label? h = some v → v.handle = h
  ids : Indexes s.label? (fun _ => True) Label.id s.ids
  modules : Indexes s.label? (fun v => v.kind = .module) Label.name s.modules
  instances : Indexes s.label? (fun v => v.kind = .inst) Label.name s.instances
  nets : Indexes s.label? (fun v => v.kind = .net) Label.name s.nets
  moduleIds : Indexes s.label? (fun v => v.kind = .module) Label.id s.moduleIds
  instanceIds : Indexes s.label? (fun v => v.kind = .inst) Label.id s.instanceIds
  netIds : Indexes s.label? (fun v => v.kind = .net) Label.id s.netIds

/-- A module that is no resource has one instance, its default instance, which carries its
name.  A resource has no inner content, and each of its instances is placed. -/
structure Settled (s : Store) : Prop where
  ordinary : ∀ {h : Handle} {d : Option Handle}, s.frame h = some (false, d) →
    ∃ i, d = some i ∧ s.links .placement h = [i] ∧ s.name? i = s.name? h
  resource : ∀ {h : Handle} {d : Option Handle}, s.frame h = some (true, d) →
    d = none ∧ ∀ l : Link, l.isInner = true → s.links l h = []
  placed : ∀ {i h : Handle} {d : Option Handle}, s.target .placement i = some h →
    s.frame h = some (true, d) → (s.target .child i).isSome

/-- What is said twice in the store is said the same. -/
structure Coherent (s : Store) : Prop extends Indexed s, Settled s where
  linked : ∀ l : Link, Inverse (s.target l) (s.links l)

/-! ## The views of a store after a change of one outline -/

section Update

variable {s s' : Store} {n : Handle} {v : Outline}

theorem target_of_update (h : s'.outline? = Function.update s.outline? n (some v)) (l : Link) :
    s'.target l = Function.update (s.target l) n (v.target l) := by
  funext x
  unfold target
  rw [h]
  by_cases hx : x = n
  · subst hx
    simp
  · simp [hx]

theorem links_of_update (h : s'.outline? = Function.update s.outline? n (some v)) (l : Link) :
    s'.links l = Function.update (s.links l) n (v.links l) := by
  funext x
  unfold links
  rw [h]
  by_cases hx : x = n
  · subst hx
    simp
  · simp [hx]

theorem frame_of_update (h : s'.outline? = Function.update s.outline? n (some v)) :
    s'.frame = Function.update s.frame n v.frame := by
  funext x
  unfold frame
  rw [h]
  by_cases hx : x = n
  · subst hx
    simp
  · simp [hx]

theorem label?_of_update (h : s'.outline? = Function.update s.outline? n (some v)) :
    s'.label? = Function.update s.label? n (some v.toLabel) := by
  funext x
  unfold label?
  rw [h]
  by_cases hx : x = n
  · subst hx
    simp
  · simp [hx]

end Update

/-! ## The views of a store whose outlines are the same -/

section Same

variable {s s' : Store}

theorem target_congr (h : s'.outline? = s.outline?) : s'.target = s.target := by
  funext l x
  rw [target, h, ← target]

theorem links_congr (h : s'.outline? = s.outline?) : s'.links = s.links := by
  funext l x
  rw [links, h, ← links]

theorem frame_congr (h : s'.outline? = s.outline?) : s'.frame = s.frame := by
  funext x
  rw [frame, h, ← frame]

theorem label?_congr (h : s'.outline? = s.outline?) : s'.label? = s.label? := by
  funext x
  rw [label?, h, ← label?]

theorem name?_congr (h : s'.label? = s.label?) : s'.name? = s.name? := by
  funext x
  rw [name?, h, ← name?]

end Same

theorem outline?_of_object? {s : Store} {h : Handle} {o : Object} (ho : s.object? h = some o) :
    s.outline? h = some o.outline := by
  rw [outline?, ho, Option.map_some]

/-- Under the next handle there is nothing yet. -/
theorem outline?_size (s : Store) : s.outline? s.size = none :=
  outline?_eq_none_iff.2 (Nat.le_refl s.size)

theorem lt_size_of_outline? {s : Store} {h : Handle} {v : Outline} (hv : s.outline? h = some v) :
    h < s.size := by
  refine Nat.lt_of_not_le fun hle => ?_
  rw [outline?_eq_none_iff.2 hle] at hv
  cases hv

/-! ## The laws depend on outlines and indices only -/

/-- The stores have the same indices. -/
structure SameIndices (s s' : Store) : Prop where
  ids : s'.ids = s.ids
  modules : s'.modules = s.modules
  instances : s'.instances = s.instances
  nets : s'.nets = s.nets
  moduleIds : s'.moduleIds = s.moduleIds
  instanceIds : s'.instanceIds = s.instanceIds
  netIds : s'.netIds = s.netIds

theorem SameIndices.trans {s s' s'' : Store} (h : SameIndices s s') (h' : SameIndices s' s'') :
    SameIndices s s'' where
  ids := h'.ids.trans h.ids
  modules := h'.modules.trans h.modules
  instances := h'.instances.trans h.instances
  nets := h'.nets.trans h.nets
  moduleIds := h'.moduleIds.trans h.moduleIds
  instanceIds := h'.instanceIds.trans h.instanceIds
  netIds := h'.netIds.trans h.netIds

theorem sameIndices_modify (s : Store) (h : Handle) (f : Object → Object) :
    SameIndices s (s.modify h f) :=
  ⟨rfl, rfl, rfl, rfl, rfl, rfl, rfl⟩

theorem sameIndices_write (s : Store) (h : Handle) (name : String) (a : Attribute) :
    SameIndices s (s.write h name a) :=
  ⟨rfl, rfl, rfl, rfl, rfl, rfl, rfl⟩

theorem sameIndices_stamp (s : Store) (h : Handle) (name value : String) :
    SameIndices s (s.stamp h name value) :=
  sameIndices_write s h name _

theorem Indexed.congr {s s' : Store} (hs : s.Indexed) (hlabel : s'.label? = s.label?)
    (hindices : SameIndices s s') : s'.Indexed := by
  constructor
  case handle_eq => rw [hlabel]; exact hs.handle_eq
  case ids => rw [hlabel, hindices.ids]; exact hs.ids
  case modules => rw [hlabel, hindices.modules]; exact hs.modules
  case instances => rw [hlabel, hindices.instances]; exact hs.instances
  case nets => rw [hlabel, hindices.nets]; exact hs.nets
  case moduleIds => rw [hlabel, hindices.moduleIds]; exact hs.moduleIds
  case instanceIds => rw [hlabel, hindices.instanceIds]; exact hs.instanceIds
  case netIds => rw [hlabel, hindices.netIds]; exact hs.netIds

/-- A store with the same outlines and indices is as coherent. -/
theorem Coherent.congr {s s' : Store} (hs : s.Coherent) (houtline : s'.outline? = s.outline?)
    (hindices : SameIndices s s') : s'.Coherent := by
  have hlabel := label?_congr houtline
  have htarget := target_congr houtline
  have hlinks := links_congr houtline
  have hframe := frame_congr houtline
  have hname := name?_congr hlabel
  constructor
  case toIndexed => exact hs.toIndexed.congr hlabel hindices
  case toSettled =>
    constructor
    case ordinary => rw [hframe, hlinks, hname]; exact hs.ordinary
    case resource => rw [hframe, hlinks]; exact hs.resource
    case placed => rw [htarget, hframe]; exact hs.placed
  case linked => rw [htarget, hlinks]; exact hs.linked

end Store

end Interconnect
