import Interconnect.Proofs.Store.Identity
import Interconnect.Proofs.Store.Lasting
import Interconnect.Proofs.Store.Mirroring

/-!
# Scopes

The scope in the id of a part is the name of its owner, a dot and its own name.  Names may have dots
in them, too, and so a scope may be read in several ways.  It tells the owner's name if that name
has no dot, and it tells the owner if, moreover, the owner is a module or an instance.
-/

namespace Interconnect

/-- Parts of one kind have owners of one kind. -/
theorem Part.ownerKind_eq_of_kind_eq {p p' : Part} (h : p.kind = p'.kind) :
    p.ownerKind = p'.ownerKind := by
  cases p <;> cases p' <;> first | rfl | cases h

namespace Object

/-- An object of the kind of a part is a part, and refers to its owner. -/
theorem exists_target_of_kind {o : Object} {p : Part} (hk : o.kind = p.kind) :
    ∃ owner, o.target (.part p.kind) = some owner := by
  obtain ⟨handle, id, name, attributes, body⟩ := o
  cases body with
  | module m => cases p <;> cases hk
  | inst i => cases p <;> cases hk
  | net members => cases p <;> cases hk
  | part owner q => exact ⟨owner, target_part_eq_some.2 ⟨q, rfl, hk⟩⟩

/-- An object that lists a part is of the kind that owns such parts. -/
theorem kind_of_mem_listed {o : Object} {p : Part} {c : Handle} (h : c ∈ o.listed p.kind) :
    o.kind = p.ownerKind := by
  obtain ⟨handle, id, name, attributes, body⟩ := o
  cases body with
  | module m => cases p <;> first | rfl | cases h
  | inst i => cases p <;> first | rfl | cases h
  | net members => cases p <;> cases h
  | part owner q => cases q <;> cases p <;> first | rfl | cases h

end Object

/-! ## Scopes that can be read -/

theorem toList_scope (owner name : String) :
    (owner ++ "." ++ name).toList = owner.toList ++ '.' :: name.toList := by
  simp

/-- A scope tells what stands before its first dot. -/
theorem scope_inj {owner owner' name name' : String} (howner : '.' ∉ owner.toList)
    (howner' : '.' ∉ owner'.toList) (h : owner ++ "." ++ name = owner' ++ "." ++ name') :
    owner = owner' ∧ name = name' := by
  have hlist := congrArg String.toList h
  rw [toList_scope, toList_scope] at hlist
  simpa only [String.toList_inj] using append_separator_inj howner howner' hlist

/-- A scope tells what stands after its last dot, too. -/
theorem scope_inj_right {owner owner' name name' : String} (hname : '.' ∉ name.toList)
    (hname' : '.' ∉ name'.toList) (h : owner ++ "." ++ name = owner' ++ "." ++ name') :
    owner = owner' ∧ name = name' := by
  have hlist := congrArg String.toList h
  rw [toList_scope, toList_scope] at hlist
  simpa only [String.toList_inj] using append_separator_inj_right hname hname' hlist

namespace Store

/-- The id of a part tells its kind, its owner's name and its own. -/
theorem partId_inj {p p' : Part} {owner owner' name name' : String} (howner : '.' ∉ owner.toList)
    (howner' : '.' ∉ owner'.toList) (h : partId p owner name = partId p' owner' name') :
    p.kind = p'.kind ∧ owner = owner' ∧ name = name' := by
  obtain ⟨hkind, hscope⟩ := Kind.objectId_inj h
  exact ⟨hkind, scope_inj howner howner' hscope⟩

/-- No two modules have one name, and no two instances. -/
theorem Coherent.eq_of_name_eq {s : Store} (hs : s.Coherent) {h h' : Handle} {o o' : Object}
    (ho : s.object? h = some o) (ho' : s.object? h' = some o')
    (hkind : o.kind = .module ∨ o.kind = .inst) (hsame : o.kind = o'.kind)
    (hname : o.name = o'.name) : h = h' := by
  have hv := label?_of_object? ho
  have hv' := label?_of_object? ho'
  rcases hkind with hk | hk
  · exact hs.modules.key_inj hv hv' hk (hsame.symm.trans hk) hname
  · exact hs.instances.key_inj hv hv' hk (hsame.symm.trans hk) hname

/-! ## The scopes of the parts in a store -/

/-- Objects that last are known as before. -/
theorem Lasts.label? {s s' : Store} (h : Lasts s s') {x : Handle} {v : Label}
    (hv : s.label? x = some v) : s'.label? x = some v := by
  obtain ⟨w, hw, rfl⟩ := Option.map_eq_some_iff.1 hv
  obtain ⟨o, ho, rfl⟩ := Option.map_eq_some_iff.1 hw
  obtain ⟨o', ho', hlasts⟩ := h x o ho
  rw [label?_of_object? ho']
  refine congrArg some ?_
  show Label.mk o'.handle o'.id o'.name o'.kind = Label.mk o.handle o.id o.name o.kind
  rw [hlasts.handle, hlasts.id, hlasts.name, hlasts.kind_eq]

theorem Lasts.name? {s s' : Store} (h : Lasts s s') {x : Handle} {n : String}
    (hn : s.name? x = some n) : s'.name? x = some n := by
  obtain ⟨v, hv, rfl⟩ := Option.map_eq_some_iff.1 hn
  rw [Store.name?, h.label? hv, Option.map_some]

/-- The id of each part is made of its kind, its owner's name and its own. -/
def Scoped (s : Store) : Prop :=
  ∀ c owner k, s.target (.part k) c = some owner → ∃ n v, s.name? owner = some n ∧
    s.label? c = some v ∧ v.id = k.objectId (n ++ "." ++ v.name)

namespace Scoped

variable {s s' : Store}

/-- A change that adds no part leaves scopes as they are. -/
theorem mono (hs : s.Scoped) (hlasts : Lasts s s')
    (htarget : ∀ k, s'.target (.part k) = s.target (.part k)) : s'.Scoped := by
  intro c owner k ht
  rw [htarget] at ht
  obtain ⟨n, v, hn, hv, hid⟩ := hs c owner k ht
  exact ⟨n, v, hlasts.name? hn, hlasts.label? hv, hid⟩

/-- A new part gets its scope. -/
theorem createPart (hs : s.Scoped) (hcoherent : s.Coherent) {owner : Handle} {o : Object}
    {p : Part} {name : String} (ho : s.object? owner = some o) (hk : o.kind = p.ownerKind)
    (hlasts : Lasts s (s.createPart o name p).1) : (s.createPart o name p).1.Scoped := by
  have hhandle := hcoherent.handle_eq_of_object? ho
  intro c owner' k ht
  rw [target_createPart name hhandle ho hk] at ht
  by_cases hnew : k = p.kind ∧ c = s.size
  · obtain ⟨rfl, rfl⟩ := hnew
    rw [if_pos rfl, Function.update_self] at ht
    cases ht
    have hlabel := label?_create_self s (o.name ++ "." ++ name) name (.part owner p)
      (p.details ++ [("parent", o.id)])
    rw [← label?_createPart name hhandle ho hk] at hlabel
    exact ⟨o.name, _, hlasts.name? (name?_of_object? ho), hlabel, rfl⟩
  · have hold : s.target (.part k) c = some owner' := by
      split at ht
      · rename_i hkind
        cases hkind
        rwa [Function.update_of_ne fun hc => hnew ⟨rfl, hc⟩] at ht
      · exact ht
    obtain ⟨n, v, hn, hv, hid⟩ := hs c owner' k hold
    exact ⟨n, v, hlasts.name? hn, hlasts.label? hv, hid⟩

/-- Every elementary operation keeps to this. -/
theorem change (h : Change s s') (hcoherent : s.Coherent) (hs : s.Scoped) : s'.Scoped := by
  have hlasts := lasts_change h
  cases h with
  | intern text => exact hs.mono hlasts fun _ => rfl
  | @module _ name ilm resource h hok =>
    refine hs.mono hlasts fun k => ?_
    obtain ⟨-, -, -, ⟨-, heq⟩ | ⟨-, -, -, heq⟩⟩ := addModule_cases hok
    · rw [← show (s.createResource name ilm).1 = s' by rw [heq]]
      exact target_create_of_none rfl
    · rw [← show (s.createWithInstance name ilm).1 = s' by rw [heq], target_createWithInstance,
        if_neg nofun]
  | @placement _ name module parent h hok =>
    refine hs.mono hlasts fun k => ?_
    obtain ⟨-, o, m, p, c, ho, hm, hp, hc, hcontainer, -, hcase⟩ := addInstance_cases hok
    rcases hcase with ⟨hres, -, -, heq⟩ | ⟨-, -, -, ⟨d, i, hd, hi, -⟩, rfl⟩
    · have hne := ne_of_resource ho hm hp hc hres hcontainer
      rw [← show (s.createPlacement name module parent).1 = s' by rw [heq],
        target_createPlacement name ho hm hp hc hne]
    · rw [target_place hd hi hp hc, if_neg nofun]
  | @part _ owner h name p _ hok =>
    obtain ⟨-, o, ho, hk, -, -, heq⟩ := attach_cases hok
    have hstore : (s.createPart o name p).1 = s' := by rw [heq]
    rw [← hstore] at hlasts ⊢
    exact hs.createPart hcoherent ho hk hlasts
  | net hok =>
    refine hs.mono hlasts fun k => ?_
    obtain ⟨-, -, -, -, -, rfl⟩ := addNet_cases hok
    rw [target_congr (outline?_enlistAll _ _ _ _ _)]
    exact target_create_of_none rfl
  | writing hok =>
    refine hs.mono hlasts fun k => ?_
    obtain ⟨-, o, -, -, rfl⟩ := setAttribute_cases hok
    rw [target_congr (outline?_write _ _ _ _)]

end Scoped

/-- The parts of a reachable store have their scopes. -/
theorem Reachable.scoped {s : Store} (hs : s.Reachable) : s.Scoped := by
  have hboth : s.Coherent ∧ s.Scoped :=
    hs.induction (P := fun s => s.Coherent ∧ s.Scoped) ⟨coherent_empty, nofun⟩
      fun hchange h => ⟨Coherent.change hchange h.1, h.2.change hchange h.1⟩
  exact hboth.2

end Store

end Interconnect
