import Interconnect.Proofs.Store.Preservation
import Interconnect.Proofs.Text.Cutting

/-!
# Ids

An id opens with the name of a kind, and no name of a kind has a colon in it, so an id tells the
kind and the scope that it is made of.  The scope of a module, an instance or a net is its name.
Ids are unique, and so the id for a name of one of these kinds is free unless an object of that
kind has the name.
-/

namespace Interconnect

namespace Kind

/-- Objects of such a kind have no owner. -/
def standsAlone (k : Kind) : Prop :=
  k = .module ∨ k = .inst ∨ k = .net

theorem colon_notMem_name (k : Kind) : ':' ∉ k.name.toList := by
  cases k <;> simp [name]

theorem name_inj {k k' : Kind} (h : k.name = k'.name) : k = k' := by
  cases k <;> cases k' <;> first | rfl | (simp [name] at h)

/-- An id tells the kind and the scope. -/
theorem objectId_inj {k k' : Kind} {scope scope' : String}
    (h : k.objectId scope = k'.objectId scope') : k = k' ∧ scope = scope' := by
  have hlist : k.name.toList ++ ':' :: (':' :: scope.toList)
      = k'.name.toList ++ ':' :: (':' :: scope'.toList) := by
    simpa [objectId, ← String.toList_inj] using h
  obtain ⟨hname, hscope⟩ := append_separator_inj k.colon_notMem_name k'.colon_notMem_name hlist
  exact ⟨name_inj (String.toList_inj.1 hname), String.toList_inj.1 (List.cons.inj hscope).2⟩

/-- No part stands alone. -/
theorem not_standsAlone_part (p : Part) : ¬ p.kind.standsAlone := by
  cases p <;> simp [Part.kind, standsAlone]

end Kind

/-- The id is made of the kind and a scope, which is the name if the object stands alone. -/
def Label.IsIdentified (v : Label) : Prop :=
  ∃ scope, v.id = v.kind.objectId scope ∧ (v.kind.standsAlone → scope = v.name)

namespace Store

/-- Every id is made of the kind and a scope. -/
def Identified (s : Store) : Prop :=
  ∀ (h : Handle) (v : Label), s.label? h = some v → v.IsIdentified

namespace Identified

variable {s : Store}

theorem congr (hs : s.Identified) {s' : Store} (h : s'.label? = s.label?) : s'.Identified := by
  intro x v hv
  rw [h] at hv
  exact hs x v hv

theorem create (hs : s.Identified) {scope name : String} {body : Body}
    {details : List (String × String)} (hscope : body.kind.standsAlone → scope = name) :
    (s.create scope name body details).1.Identified := by
  intro x v hv
  rw [label?_of_update (outline?_create_eq s scope name body details)] at hv
  by_cases hx : x = s.size
  · subst hx
    rw [Function.update_self] at hv
    cases hv
    exact ⟨scope, rfl, hscope⟩
  · rw [Function.update_of_ne hx] at hv
    exact hs x v hv

/-- Every elementary operation gives such ids. -/
theorem change {s' : Store} (h : Change s s') (hcoherent : s.Coherent) (hs : s.Identified) :
    s'.Identified := by
  cases h with
  | intern text => exact hs.congr rfl
  | @module _ name ilm resource h hok =>
    obtain ⟨-, -, -, ⟨-, heq⟩ | ⟨-, -, -, heq⟩⟩ := addModule_cases hok
    · rw [← show (s.createResource name ilm).1 = s' by rw [heq]]
      exact hs.create fun _ => rfl
    · rw [← show (s.createWithInstance name ilm).1 = s' by rw [heq], createWithInstance_eq]
      exact (hs.create fun _ => rfl).create fun _ => rfl
  | @placement _ name module parent h hok =>
    obtain ⟨-, o, m, p, c, ho, hm, hp, hc, hcontainer, -, hcase⟩ := addInstance_cases hok
    rcases hcase with ⟨hres, -, -, heq⟩ | ⟨-, -, -, ⟨d, i, hd, hi, -⟩, rfl⟩
    · have hne := ne_of_resource ho hm hp hc hres hcontainer
      rw [← show (s.createPlacement name module parent).1 = s' by rw [heq]]
      exact (hs.create fun _ => rfl).congr (label?_createPlacement name ho hm hp hc hne)
    · exact hs.congr (label?_place hd hi hp hc)
  | @part _ owner h name p _ hok =>
    obtain ⟨-, o, ho, hk, -, -, heq⟩ := attach_cases hok
    rw [← show (s.createPart o name p).1 = s' by rw [heq]]
    refine (hs.create fun hpart => ?_).congr
      (label?_createPart name (hcoherent.handle_eq_of_object? ho) ho hk)
    exact absurd hpart (Kind.not_standsAlone_part p)
  | net hok =>
    obtain ⟨-, -, -, -, -, rfl⟩ := addNet_cases hok
    exact (hs.create fun _ => rfl).congr (label?_congr (outline?_enlistAll _ _ _ _ _))
  | writing hok =>
    obtain ⟨-, o, -, -, rfl⟩ := setAttribute_cases hok
    exact hs.congr (label?_congr (outline?_write _ _ _ _))

/-- So do several operations. -/
theorem changes {s' : Store} (h : Changes s s') (hcoherent : s.Coherent) (hs : s.Identified) :
    s'.Coherent ∧ s'.Identified := by
  induction h with
  | refl => exact ⟨hcoherent, hs⟩
  | tail _ hchange ih => exact ⟨Coherent.change hchange ih.1, ih.2.change hchange ih.1⟩

end Identified

/-- Ids of a reachable store are made of kinds and scopes. -/
theorem Reachable.identified {s : Store} (hs : s.Reachable) : s.Identified := by
  have hempty : Store.empty.Identified := fun h v hv => by cases hv
  have hboth : s.Coherent ∧ s.Identified :=
    hs.induction (P := fun s => s.Coherent ∧ s.Identified) ⟨coherent_empty, hempty⟩
      fun hchange h => ⟨Coherent.change hchange h.1, h.2.change hchange h.1⟩
  exact hboth.2

/-- The id for a name of such a kind is free if no object of the kind has the name. -/
theorem Identified.free {s : Store} (hs : s.Identified) (hindexed : s.Indexed) {k : Kind}
    (hk : k.standsAlone) {index : OrderedMap String Handle}
    (hindex : Indexes s.label? (fun v => v.kind = k) Label.name index) {name : String}
    (hfresh : index.get? name = none) : s.ids.get? (k.objectId name) = none := by
  cases hget : s.ids.get? (k.objectId name) with
  | none => rfl
  | some h =>
    obtain ⟨v, hv, -, hid⟩ := hindexed.ids.get?_eq_some_iff.1 hget
    obtain ⟨scope, heq, hname⟩ := hs h v hv
    rw [heq] at hid
    obtain ⟨hkind, rfl⟩ := Kind.objectId_inj hid
    have hfound : index.get? scope = some h :=
      hindex.get?_eq_some_iff.2 ⟨v, hv, hkind, (hname (hkind ▸ hk)).symm⟩
    rw [hfound] at hfresh
    cases hfresh

end Store

end Interconnect
