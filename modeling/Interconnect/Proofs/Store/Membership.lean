import Interconnect.Proofs.Store.Recording

/-!
# Members of nets

A net lists its members, and a member refers back to its net.  The two are written in different
places: the list when the net is created, and the references one by one when the members are
enlisted after that.

`ties` shows both at an object, and nothing else.  In a reachable store the lists and the
references are the inverse of each other (`Reachable.tied`).  Only a new net matters to that:
its members were in no net before, and `Inverse.gather` is the step for all of them at once.
-/

namespace Interconnect

/-- Objects without a reference come to refer to one owner, whose list was empty. -/
theorem Inverse.gather {target : Handle → Option Handle} {links : Handle → List Handle}
    (hi : Inverse target links) {h : Handle} {members : List Handle} (hnodup : members.Nodup)
    (hfree : ∀ c ∈ members, target c = none) (hempty : links h = []) :
    Inverse (fun c => if c ∈ members then some h else target c)
      (Function.update links h members) := by
  refine ⟨fun h' => ?_, fun {c h'} => ?_⟩
  · by_cases hh : h' = h
    · subst hh
      rwa [Function.update_self]
    · rw [Function.update_of_ne hh]
      exact hi.nodup h'
  · by_cases hh : h' = h
    · subst hh
      -- Nothing referred to `h'` before, because it listed nothing.
      have hnone : target c ≠ some h' := fun htarget => by
        have hmem := hi.mem_links.2 htarget
        rw [hempty] at hmem
        cases hmem
      simp [hnone]
    · rw [Function.update_of_ne hh, hi.mem_links]
      by_cases hc : c ∈ members
      · simp [hc, hfree c hc, Ne.symm hh]
      · simp [hc]

/-! ## The ties of an object -/

namespace Object

/-- The net that the object is in, and the members of the net that it is. -/
def ties (o : Object) : Option Handle × List Handle :=
  (o.net?, o.members)

theorem ties_of_part {o : Object} {owner : Handle} {p : Part} (hp : o.body = .part owner p) :
    o.ties = (p.net?, []) := by
  rw [ties, net?, members, hp]

theorem members_of_net {o : Object} {members : List Handle} (ho : o.body = .net members) :
    o.members = members := by
  rw [Object.members, ho]

/-- Only a part of the right kind is in a net. -/
theorem exists_part_of_net? {o : Object} {net : Handle} (h : o.net? = some net) :
    ∃ owner p, o.body = .part owner p ∧ p.joinsNets = true := by
  unfold net? at h
  split at h
  · rename_i owner p hp
    refine ⟨owner, p, hp, ?_⟩
    cases p with
    | port direction n | pin connection inverted n | declaration defaultType assigned n => rfl
    | _ => cases h
  · cases h

/-- Only a net has members. -/
theorem exists_net_of_mem_members {o : Object} {c : Handle} (h : c ∈ o.members) :
    ∃ members, o.body = .net members ∧ c ∈ members := by
  unfold members at h
  split at h
  · rename_i members hnet
    exact ⟨members, hnet, h⟩
  · cases h

end Object

section Ties

variable (o : Object) (c : Handle)

theorem ties_adopt (p : Part) : (o.adopt p c).ties = o.ties := by
  obtain ⟨handle, id, name, attributes, body⟩ := o
  cases body with
  | part owner q => cases q <;> cases p <;> rfl
  | _ => cases p <;> rfl

theorem ties_addChild : (Store.addChild c o).ties = o.ties := by
  obtain ⟨handle, id, name, attributes, body⟩ := o
  cases body <;> rfl

theorem ties_addPlacement : (Store.addPlacement c o).ties = o.ties := by
  obtain ⟨handle, id, name, attributes, body⟩ := o
  cases body <;> rfl

theorem ties_setParent : (Store.setParent c o).ties = o.ties := by
  obtain ⟨handle, id, name, attributes, body⟩ := o
  cases body <;> rfl

end Ties

namespace Store

/-! ## The ties of a store -/

/-- The net that an object is in, and the members of the net that it is. -/
def ties (s : Store) (h : Handle) : Option Handle × List Handle :=
  (s.object? h).elim (none, []) Object.ties

/-- The lists of members and the references to nets are the inverse of each other. -/
def Tied (s : Store) : Prop :=
  Inverse (fun c => (s.ties c).1) fun net => (s.ties net).2

section Operations

variable {s : Store}

theorem ties_of_object? {h : Handle} {o : Object} (ho : s.object? h = some o) :
    s.ties h = o.ties := by
  rw [ties, ho, Option.elim_some]

theorem ties_size (s : Store) : s.ties s.size = (none, []) := by
  have hnone : s.object? s.size = none := Option.map_eq_none_iff.1 (outline?_size s)
  rw [ties, hnone, Option.elim_none]

theorem ties_create (s : Store) (scope name : String) (body : Body)
    (details : List (String × String)) :
    (s.create scope name body details).1.ties
      = Function.update s.ties s.size (s.created scope name body details).ties := by
  funext h
  unfold ties
  by_cases hh : h = s.size
  · subst hh
    rw [Function.update_self, object?_create_self]
    rfl
  · rw [Function.update_of_ne hh, object?_create_of_ne s scope name body details hh]

/-- A new object that is neither in a net nor a net itself has no ties. -/
theorem ties_create_of_eq {scope name : String} {body : Body} {details : List (String × String)}
    (h : (s.created scope name body details).ties = (none, [])) :
    (s.create scope name body details).1.ties = s.ties := by
  rw [ties_create, h, Function.update_eq_self_iff, ties_size]

theorem ties_modify_of_eq (s : Store) (h : Handle) {f : Object → Object}
    (hf : ∀ o, (f o).ties = o.ties) : (s.modify h f).ties = s.ties := by
  funext h'
  unfold ties
  rw [object?_modify]
  split
  · cases s.object? h' with
    | none => rfl
    | some o => exact hf o
  · rfl

theorem ties_write (s : Store) (h : Handle) (name : String) (a : Attribute) :
    (s.write h name a).ties = s.ties :=
  ties_modify_of_eq s h fun _ => rfl

theorem ties_stamp (s : Store) (h : Handle) (name value : String) :
    (s.stamp h name value).ties = s.ties :=
  ties_write s h name _

theorem ties_createPart {owner : Handle} {o : Object} {p : Part} (name : String)
    (hhandle : o.handle = owner) (hp : p.net? = none) :
    (s.createPart o name p).1.ties = s.ties := by
  rw [createPart_eq name hhandle, ties_modify_of_eq _ owner (ties_adopt · s.size p)]
  apply ties_create_of_eq
  rw [Object.ties_of_part rfl, hp]

theorem ties_createResource (name : String) (ilm : Bool) :
    (s.createResource name ilm).1.ties = s.ties :=
  ties_create_of_eq rfl

theorem ties_createWithInstance (name : String) (ilm : Bool) :
    (s.createWithInstance name ilm).1.ties = s.ties := by
  rw [createWithInstance_eq, ties_create_of_eq rfl, ties_create_of_eq rfl]

theorem ties_place (inst parent : Handle) : (s.place inst parent).ties = s.ties := by
  rw [Store.place, ties_modify_of_eq _ parent (ties_addChild · inst), ties_stamp,
    ties_modify_of_eq _ inst (ties_setParent · parent)]

theorem ties_createPlacement (name : String) (module parent : Handle) :
    (s.createPlacement name module parent).1.ties = s.ties := by
  rw [createPlacement_eq, ties_modify_of_eq _ module (ties_addPlacement · s.size),
    ties_modify_of_eq _ parent (ties_addChild · s.size), ties_create_of_eq rfl]

/-! ## A new net -/

/-- The object is of a kind that joins nets. -/
def JoinsNets (s : Store) (c : Handle) : Prop :=
  ∃ o owner p, s.object? c = some o ∧ o.body = .part owner p ∧ p.joinsNets = true

theorem ties_joinNet {o : Object} {owner : Handle} {p : Part} (hp : o.body = .part owner p)
    (hjoins : p.joinsNets = true) (net : Handle) : (joinNet net o).ties = (some net, []) := by
  obtain ⟨handle, id, name, attributes, body⟩ := o
  cases hp
  cases p with
  | port direction n | pin connection inverted n | declaration defaultType assigned n => rfl
  | _ => cases hjoins

/-- An object that is enlisted refers to the net from then on. -/
theorem ties_enlist {c : Handle} (hc : s.JoinsNets c) (net : Handle) (name id : String) :
    (enlist net name id s c).ties = Function.update s.ties c (some net, []) := by
  obtain ⟨x, owner, p, hx, hp, hjoins⟩ := hc
  obtain ⟨y, hy, -, hbody⟩ := exists_enlisted hx net name id c
  funext h
  by_cases hh : h = c
  · subst hh
    rw [Function.update_self, ties_of_object? hy, ← ties_joinNet hp hjoins net]
    rw [if_pos rfl] at hbody
    rw [Object.ties, Object.ties, Object.net?, Object.net?, Object.members, Object.members, hbody]
  · rw [Function.update_of_ne hh, ties, ties]
    unfold enlist
    rw [object?_modify, if_neg (Ne.symm hh), object?_stamp, if_neg (Ne.symm hh), object?_stamp,
      if_neg (Ne.symm hh), object?_stamp, if_neg (Ne.symm hh)]

theorem JoinsNets.enlist {c : Handle} (hc : s.JoinsNets c) (net : Handle) (name id : String)
    (h : Handle) : (enlist net name id s h).JoinsNets c := by
  obtain ⟨x, owner, p, hx, hp, hjoins⟩ := hc
  obtain ⟨y, hy, -, hbody⟩ := exists_enlisted hx net name id h
  by_cases hh : c = h
  · refine ⟨y, owner, p.joined net, hy, ?_, ?_⟩
    · rw [hbody, if_pos hh, joinNet, hp]
    · cases p with
      | port direction n | pin connection inverted n | declaration defaultType assigned n => rfl
      | _ => cases hjoins
  · exact ⟨y, owner, p, hy, by rw [hbody, if_neg hh, hp], hjoins⟩

theorem JoinsNets.create {c : Handle} (hc : s.JoinsNets c) (scope name : String) (body : Body)
    (details : List (String × String)) : (s.create scope name body details).1.JoinsNets c := by
  obtain ⟨x, owner, p, hx, hp, hjoins⟩ := hc
  exact ⟨x, owner, p, object?_create_owner name hx scope body details, hp, hjoins⟩

/-- Objects that are enlisted refer to the net, and the ties of the others stay. -/
theorem ties_enlistAll (net : Handle) (name id : String) {members : List Handle}
    (hall : ∀ c ∈ members, s.JoinsNets c) :
    (members.foldl (enlist net name id) s).ties
      = fun h => if h ∈ members then (some net, []) else s.ties h := by
  induction members generalizing s with
  | nil => simp
  | cons c rest ih =>
    have hrest : ∀ x ∈ rest, (enlist net name id s c).JoinsNets x := fun x hx =>
      (hall x (List.mem_cons_of_mem c hx)).enlist net name id c
    rw [List.foldl_cons, ih hrest, ties_enlist (hall c List.mem_cons_self)]
    funext h
    by_cases hh : h = c
    · subst hh
      simp
    · simp [hh]

end Operations

/-! ## Changes and runs -/

namespace Tied

variable {s s' : Store}

theorem congr (hs : s.Tied) (h : s'.ties = s.ties) : s'.Tied := by
  unfold Tied
  rw [h]
  exact hs

/-- A net gathers objects that were in no net. -/
theorem addNet (hs : s.Tied) {name : String} {members : List Handle} {net : Handle}
    (hok : s.addNet name members = .ok (s', net)) : s'.Tied := by
  obtain ⟨-, -, -, hjoin, -, rfl⟩ := addNet_cases hok
  have hall : ∀ c ∈ distinct members, s.JoinsNets c := fun c hc => by
    obtain ⟨o, owner, p, ho, hp, hjoins, -⟩ := hjoin c hc
    exact ⟨o, owner, p, ho, hp, hjoins⟩
  have hbefore : ∀ c ∈ distinct members, s.ties c = (none, []) := fun c hc => by
    obtain ⟨o, owner, p, ho, hp, -, hnone⟩ := hjoin c hc
    rw [ties_of_object? ho, Object.ties_of_part hp, hnone]
  have hnotMem : s.size ∉ distinct members := fun hmem => by
    obtain ⟨o, -, -, ho, -⟩ := hjoin s.size hmem
    exact Nat.lt_irrefl s.size (lt_size_of_outline? (outline?_of_object? ho))
  have hties := ties_enlistAll s.size name (Kind.net.objectId name) fun c hc =>
    (hall c hc).create name name (.net (distinct members)) []
  have hgathered := hs.gather (nodup_distinct members)
    (fun c hc => by rw [hbefore c hc]) (congrArg Prod.snd (ties_size s))
  unfold Tied
  rw [hties, ties_create]
  convert hgathered using 1
  · funext c
    by_cases hc : c ∈ distinct members
    · simp [hc]
    · by_cases hnew : c = s.size
      · subst hnew
        simp [hc, ties_size, Object.ties, Object.net?, created]
      · simp [hc, hnew]
  · funext c
    by_cases hnew : c = s.size
    · subst hnew
      simp [hnotMem, Object.ties, Object.members, created]
    · by_cases hc : c ∈ distinct members
      · simp [hc, hnew, hbefore c hc]
      · simp [hc, hnew]

/-- Every elementary operation keeps lists and references inverse. -/
theorem change (h : Change s s') (hs : s.Tied) (hcoherent : s.Coherent) : s'.Tied := by
  cases h with
  | intern text => exact hs
  | @module _ name ilm resource h hok =>
    obtain ⟨-, -, -, ⟨-, heq⟩ | ⟨-, -, -, heq⟩⟩ := addModule_cases hok
    · apply hs.congr
      rw [← show (s.createResource name ilm).1 = s' by rw [heq], ties_createResource]
    · apply hs.congr
      rw [← show (s.createWithInstance name ilm).1 = s' by rw [heq], ties_createWithInstance]
  | @placement _ name module parent h hok =>
    obtain ⟨-, o, m, p, c, -, -, -, -, -, -, hcase⟩ := addInstance_cases hok
    rcases hcase with ⟨-, -, -, heq⟩ | ⟨-, -, -, -, rfl⟩
    · apply hs.congr
      rw [← show (s.createPlacement name module parent).1 = s' by rw [heq], ties_createPlacement]
    · exact hs.congr (ties_place h parent)
  | @part _ owner h name p hnew hok =>
    obtain ⟨-, o, ho, -, -, -, heq⟩ := attach_cases hok
    apply hs.congr
    rw [← show (s.createPart o name p).1 = s' by rw [heq],
      ties_createPart name (hcoherent.handle_eq_of_object? ho) hnew.1]
  | net hok => exact hs.addNet hok
  | writing hok =>
    obtain ⟨-, o, -, -, rfl⟩ := setAttribute_cases hok
    exact hs.congr (ties_write s _ _ _)

end Tied

/-- In a reachable store the lists of members and the references to nets are inverse. -/
theorem Reachable.tied {s : Store} (hs : s.Reachable) : s.Tied := by
  refine (hs.induction (P := fun s => s.Coherent ∧ s.Tied) ⟨coherent_empty, ?_⟩ ?_).2
  · have hnone : ∀ h, Store.empty.ties h = (none, []) := fun h => rfl
    exact ⟨fun _ => List.nodup_nil, by simp [hnone]⟩
  · rintro s s' hchange ⟨hcoherent, htied⟩
    exact ⟨Coherent.change hchange hcoherent, htied.change hchange hcoherent⟩

end Store

end Interconnect
