import Interconnect.Proofs.Store.Climbing

/-!
# The hierarchy of a reachable store

From every module and every instance of a reachable store a path leads up to a true root: an
instance that is not placed, or a resource.  The path of anything on it is the rest of it, and
so everything on one path has one root.
-/

namespace Interconnect.Store

/-- The kind of the object under a handle. -/
def kind? (s : Store) (h : Handle) : Option Kind :=
  (s.object? h).map Object.kind

/-- One is a module and the other an instance. -/
def Alternate (s : Store) (a b : Handle) : Prop :=
  (s.kind? a = some .module ∧ s.kind? b = some .inst) ∨
    (s.kind? a = some .inst ∧ s.kind? b = some .module)

/-- An instance that is not placed, and that its module has as its default instance. -/
def IsUnplaced (s : Store) (h : Handle) : Prop :=
  ∃ o i, s.object? h = some o ∧ o.body = .inst i ∧ i.parent = none ∧
    (s.module? i.module).bind Module.defaultInstance = some h

/-- A resource. -/
def IsResource (s : Store) (h : Handle) : Prop :=
  ∃ o m, s.object? h = some o ∧ o.body = .module m ∧ m.resource = true

theorem isResource_of_frame {s : Store} {h : Handle} {d : Option Handle}
    (hf : s.frame h = some (true, d)) : s.IsResource h := by
  obtain ⟨m, hm, hres, -⟩ := exists_module_of_frame hf
  obtain ⟨o, ho, hbody⟩ := Option.bind_eq_some_iff.1 hm
  exact ⟨o, m, ho, Object.module?_eq_some.1 hbody, hres⟩

/-- What is above a module is its default instance, and what is above an instance is a
module. -/
theorem Coherent.alternate {s : Store} (hs : s.Coherent) {a b : Handle}
    (h : s.above? a = some (some b)) : s.Alternate a b := by
  obtain ⟨o, ho, habove⟩ := Option.bind_eq_some_iff.1 h
  have hw := hs.wellFormed
  unfold Object.above? at habove
  split at habove
  · rename_i m hm
    have hdefault : m.defaultInstance = some b := Option.some.inj habove
    cases hres : m.resource with
    | true =>
      rw [(hw.resource ho hm hres).1] at hdefault
      cases hdefault
    | false =>
      obtain ⟨d, x, i, hd, -, hx, hi, -, -⟩ := hw.ordinary ho hm hres
      rw [hdefault] at hd
      cases hd
      refine Or.inl ⟨?_, ?_⟩
      · rw [kind?, ho, Option.map_some, Object.kind, hm, Body.kind]
      · rw [kind?, hx, Option.map_some, Object.kind, hi, Body.kind]
  · rename_i i hi
    have hparent : i.parent = some b := Option.some.inj habove
    obtain ⟨x, m, hx, hm, -⟩ := hw.parent ho hi hparent
    refine Or.inr ⟨?_, ?_⟩
    · rw [kind?, ho, Option.map_some, Object.kind, hi, Body.kind]
    · rw [kind?, hx, Option.map_some, Object.kind, hm, Body.kind]
  · cases habove

/-- Above a module that is no resource there is its default instance, and a placement of a
resource is placed. -/
theorem Coherent.root {s : Store} (hs : s.Coherent) {h : Handle}
    (hroot : s.above? h = some none) : s.IsUnplaced h ∨ s.IsResource h := by
  obtain ⟨o, ho, habove⟩ := Option.bind_eq_some_iff.1 hroot
  have hw := hs.wellFormed
  unfold Object.above? at habove
  split at habove
  · rename_i m hm
    have hdefault : m.defaultInstance = none := Option.some.inj habove
    cases hres : m.resource with
    | true => exact Or.inr ⟨o, m, ho, hm, hres⟩
    | false =>
      obtain ⟨d, x, i, hd, -⟩ := hw.ordinary ho hm hres
      rw [hdefault] at hd
      cases hd
  · rename_i i hi
    have hparent : i.parent = none := Option.some.inj habove
    obtain ⟨mo, m, hmo, hm, hmem⟩ := hw.module ho hi
    cases hres : m.resource with
    | true =>
      obtain ⟨x, i', hx, hi', hsome⟩ := (hw.resource hmo hm hres).2.2.2.2.2 h hmem
      rw [ho] at hx
      cases hx
      rw [hi] at hi'
      cases hi'
      rw [hparent] at hsome
      cases hsome
    | false =>
      obtain ⟨d, x, i', hd, hplacements, -⟩ := hw.ordinary hmo hm hres
      rw [hplacements, List.mem_singleton] at hmem
      refine Or.inl ⟨o, i, ho, hi, hparent, ?_⟩
      rw [module?, hmo, Option.bind_some, Object.module?_eq_some.2 hm, Option.bind_some, hd, hmem]
  · cases habove

theorem hierarchyRoot_eq_ok {s : Store} {h root : Handle} {path : List Handle}
    (hc : Climbs s.above? h path) (hlast : path.getLast? = some root) :
    s.hierarchyRoot h = .ok root := by
  unfold hierarchyRoot
  rw [bind_eq_ok]
  refine ⟨path, hierarchyPath_eq_ok.2 hc, ?_⟩
  rw [List.getLastD_eq_getLast?, hlast]
  rfl

/-- The rest of a climb ends where the climb ends. -/
theorem getLast?_of_mem {above : Handle → Option (Option Handle)} {h x root : Handle}
    {path : List Handle} (hc : Climbs above h path) (hx : x ∈ path)
    (hlast : path.getLast? = some root) : (path.dropWhile (· ≠ x)).getLast? = some root := by
  obtain ⟨root', hlast', -⟩ := (hc.of_mem hx).getLast?_eq
  rw [← List.takeWhile_append_dropWhile (p := (· ≠ x)) (l := path), List.getLast?_append,
    hlast', Option.some_or] at hlast
  rw [hlast', hlast]

/-- Modules and instances are in the hierarchy, and nothing else is. -/
theorem isSome_above?_iff {s : Store} {h : Handle} :
    (s.above? h).isSome ↔ s.kind? h = some .module ∨ s.kind? h = some .inst := by
  unfold above? kind?
  cases ho : s.object? h with
  | none => simp
  | some o =>
    obtain ⟨handle, id, name, attributes, body⟩ := o
    cases body with
    | part owner p => cases p <;> simp [Object.above?, Object.kind, Body.kind, Part.kind]
    | _ => simp [Object.above?, Object.kind, Body.kind]

/-- The path up from a module or an instance of a reachable store exists, starts there, passes
nothing twice, alternates between modules and instances, and ends at a true root.  The path of
anything on it is the rest of it, with the same root. -/
theorem hierarchyPath_of_reachable {s : Store} (hs : s.Reachable) {h : Handle}
    (hk : s.kind? h = some .module ∨ s.kind? h = some .inst) :
    ∃ path root, s.hierarchyPath h = .ok path ∧ path.head? = some h ∧ path.Nodup ∧
      path.IsChain s.Alternate ∧ path.getLast? = some root ∧
      (s.IsUnplaced root ∨ s.IsResource root) ∧
      ∀ x ∈ path, s.hierarchyPath x = .ok (path.dropWhile (· ≠ x)) ∧
        s.hierarchyRoot x = .ok root := by
  obtain ⟨path, hc⟩ := hs.rooted h (isSome_above?_iff.2 hk)
  obtain ⟨root, hlast, hroot⟩ := hc.getLast?_eq
  refine ⟨path, root, hierarchyPath_eq_ok.2 hc, hc.head?_eq, hc.nodup,
    hc.isChain.imp fun _ _ => hs.coherent.alternate, hlast, hs.coherent.root hroot, ?_⟩
  intro x hx
  exact ⟨hierarchyPath_eq_ok.2 (hc.of_mem hx),
    hierarchyRoot_eq_ok (hc.of_mem hx) (getLast?_of_mem hc hx hlast)⟩

theorem hierarchyPath_nested :
    nested.hierarchyPath 5 = .ok [5, 2, 3, 0, 1] ∧ nested.kind? 5 = some .inst ∧
      ∃ path root, nested.hierarchyPath 5 = .ok path ∧ path.head? = some 5 ∧ path.Nodup ∧
        path.IsChain nested.Alternate ∧ path.getLast? = some root ∧
        (nested.IsUnplaced root ∨ nested.IsResource root) ∧
        ∀ x ∈ path, nested.hierarchyPath x = .ok (path.dropWhile (· ≠ x)) ∧
          nested.hierarchyRoot x = .ok root :=
  ⟨rfl, rfl, hierarchyPath_of_reachable (reachable_execAll _) (Or.inr rfl)⟩

end Interconnect.Store
