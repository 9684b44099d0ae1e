import Interconnect.Proofs.Request.Framing
import Interconnect.Proofs.Store.Lasting

/-!
# What stays in its place

In the hierarchy, nothing moves but a default instance, once, when it is placed.  As long as no
default instance is placed, whatever is in the hierarchy stays where it is, and new modules and
new instances of resources come in without touching it.

`Stays` says so of two stores, `stays_exec` is the step, and `stays_after` is the run.
-/

namespace Interconnect.Store

/-- What has a place in the hierarchy has the same place later. -/
def KeepsPlaces (s s' : Store) : Prop :=
  ∀ h x, s.above? h = some x → s'.above? h = some x

/-- Everything lasts, and what has a place in the hierarchy stays there. -/
structure Stays (s s' : Store) : Prop where
  lasts : Lasts s s'
  places : KeepsPlaces s s'

theorem Stays.refl (s : Store) : Stays s s :=
  ⟨.refl s, fun _ _ hx => hx⟩

theorem Stays.trans {s s' s'' : Store} (h : Stays s s') (h' : Stays s' s'') : Stays s s'' :=
  ⟨h.lasts.trans h'.lasts, fun x y hy => h'.places x y (h.places x y hy)⟩

theorem Stays.climbs {s s' : Store} (h : Stays s s') {x : Handle} {path : List Handle}
    (hc : Climbs s.above? x path) : Climbs s'.above? x path := by
  refine hc.congr fun y hy => ?_
  obtain ⟨z, hz⟩ := Option.isSome_iff_exists.1 (hc.isSome_of_mem hy)
  rw [h.places y z hz, hz]

/-! ## Operations -/

section Operations

variable {s s' : Store}

theorem KeepsPlaces.of_eq (h : s'.above? = s.above?) : KeepsPlaces s s' :=
  fun _ _ hx => h ▸ hx

/-- What comes in under a free handle moves nothing. -/
theorem KeepsPlaces.update {n : Handle} {v : Option (Option Handle)} (hn : s.size ≤ n)
    (h : s'.above? = Function.update s.above? n v) : KeepsPlaces s s' := by
  intro x y hy
  have hlt : x < s.size := lt_size_of_above? (by rw [hy, Option.isSome_some])
  rw [h, Function.update_of_ne (Nat.ne_of_lt (Nat.lt_of_lt_of_le hlt hn)), hy]

theorem KeepsPlaces.trans {s'' : Store} (h : KeepsPlaces s s') (h' : KeepsPlaces s' s'') :
    KeepsPlaces s s'' :=
  fun x y hy => h' x y (h x y hy)

theorem keepsPlaces_attach (hs : s.Coherent) {owner h : Handle} {name : String} {p : Part}
    (hok : s.attach owner name p = .ok (s', h)) : KeepsPlaces s s' := by
  obtain ⟨-, o, ho, -, -, -, heq⟩ := attach_cases hok
  rw [← show (s.createPart o name p).1 = s' by rw [heq]]
  exact .of_eq (above?_createPart name (hs.handle_eq_of_object? ho))

theorem keepsPlaces_addNet {name : String} {members : List Handle} {net : Handle}
    (hok : s.addNet name members = .ok (s', net)) : KeepsPlaces s s' := by
  obtain ⟨-, -, -, -, -, rfl⟩ := addNet_cases hok
  refine .of_eq ?_
  rw [above?_enlistAll, above?_create_of_none rfl]

theorem keepsPlaces_addModule {name : String} {ilm resource : Bool} {h : Handle}
    (hok : s.addModule name ilm resource = .ok (s', h)) : KeepsPlaces s s' := by
  obtain ⟨-, -, -, ⟨-, heq⟩ | ⟨-, -, -, heq⟩⟩ := addModule_cases hok
  · rw [← show (s.createResource name ilm).1 = s' by rw [heq]]
    exact .update (Nat.le_refl _) (above?_createResource name ilm)
  · rw [← show (s.createWithInstance name ilm).1 = s' by rw [heq], createWithInstance_eq]
    exact (KeepsPlaces.update (Nat.le_refl _) (above?_create s name name _ _)).trans
      (.update (Nat.le_refl _) (above?_create _ name name _ _))

/-- A new instance of a resource moves nothing. -/
theorem keepsPlaces_addInstance {name : String} {module parent h : Handle}
    (hok : s.addInstance name module parent = .ok (s', h))
    (hres : ∀ m, s.module? module = some m → m.resource = true) : KeepsPlaces s s' := by
  obtain ⟨-, o, m, p, c, ho, hm, -, -, -, -, hcase⟩ := addInstance_cases hok
  have hmodule : s.module? module = some m :=
    Option.bind_eq_some_iff.2 ⟨o, ho, Object.module?_eq_some.2 hm⟩
  rcases hcase with ⟨-, -, -, heq⟩ | ⟨hdefault, -⟩
  · rw [← show (s.createPlacement name module parent).1 = s' by rw [heq]]
    exact .update (Nat.le_refl _) (above?_createPlacement name module parent)
  · rw [hres m hmodule] at hdefault
    cases hdefault

theorem keepsPlaces_setAttributes (s : Store) (h : Handle) (pairs : List (String × String)) :
    KeepsPlaces s (s.setAttributes h pairs).1 := by
  induction pairs generalizing s with
  | nil => exact fun _ _ hx => hx
  | cons pair rest ih =>
    obtain ⟨name, value⟩ := pair
    unfold setAttributes
    split
    · rename_i s' hok
      obtain ⟨-, -, -, -, rfl⟩ := setAttribute_cases hok
      exact (KeepsPlaces.of_eq (above?_write s h name _)).trans (ih _)
    · exact ih s

/-- What gains parts stays where it is. -/
theorem Framed.keepsPlaces {created : List Handle} (h : Framed s s' created) :
    KeepsPlaces s s' := by
  intro x y hy
  obtain ⟨o, ho, habove⟩ := Option.bind_eq_some_iff.1 hy
  obtain ⟨b, hb, hgains⟩ := h.kept x o ho
  refine Option.bind_eq_some_iff.2 ⟨_, hb, ?_⟩
  obtain ⟨handle, id, name, attributes, body⟩ := o
  cases hgains with
  | module hm => exact (congrArg some hm.defaultInstance).trans habove
  | inst hi => exact (congrArg some hi.parent).trans habove
  | net | part => exact habove

/-- A request moves nothing. -/
theorem Reachable.keepsPlaces_run (hs : s.Reachable) (r : Request) :
    KeepsPlaces s (r.run s).store := by
  rcases hs.decided_run r with ⟨e, -, hfails⟩ | ⟨-, created, hok⟩
  · obtain ⟨texts, -, htexts⟩ := hfails.interned
    rw [htexts]
    exact .of_eq rfl
  · cases r with
    | connection signal source targets => exact (hs.framed_connect hok).1.keepsPlaces
    | parameter name value targets isLocal => exact (hs.framed_parametrize hok).1.keepsPlaces

end Operations

/-! ## Commands -/

/-- The command places the default instance of a module. -/
def PlacesDefault (s : Store) : Command → Prop
  | .addInstance name module parent =>
    (∃ m, s.module? module = some m ∧ m.resource = false) ∧
      ∃ placed, s.addInstance name module parent = .ok placed
  | _ => False

/-- None of the commands, carried out one after the other, places a default instance. -/
def PlacesNone : Store → List Command → Prop
  | _, [] => True
  | s, c :: rest => ¬ s.PlacesDefault c ∧ PlacesNone (s.exec c).store rest

theorem keepsPlaces_creating {s : Store} {r : Except StoreError (Store × Handle)}
    {events : List Event} (h : ∀ s' x, r = .ok (s', x) → KeepsPlaces s s') :
    KeepsPlaces s (s.creating r events).store := by
  cases r with
  | error e => exact .of_eq rfl
  | ok a => exact h a.1 a.2 rfl

/-- A command that places no default instance moves nothing. -/
theorem Reachable.stays_exec {s : Store} (hs : s.Reachable) {c : Command} (hc : c ≠ .clear)
    (hnone : ¬ s.PlacesDefault c) : Stays s (s.exec c).store := by
  refine ⟨lasts_changes (changes_exec s c hc), ?_⟩
  have hcoherent := hs.coherent
  cases c with
  | addModule name ilm resource =>
    exact keepsPlaces_creating fun _ _ hok => keepsPlaces_addModule hok
  | addInstance name module parent =>
    refine keepsPlaces_creating fun s' h hok => keepsPlaces_addInstance hok fun m hm => ?_
    by_contra hres
    exact hnone ⟨⟨m, hm, by simpa using hres⟩, _, hok⟩
  | addPort | addPin | addParameter | addAdjustment | addDeclaration | addRegfile | addEntry
  | addRegister =>
    exact keepsPlaces_creating fun _ _ hok => keepsPlaces_attach hcoherent hok
  | addCode module name text =>
    refine keepsPlaces_creating fun _ _ hok => ?_
    obtain ⟨o, -, hattach⟩ := addCode_cases hok
    exact keepsPlaces_attach hcoherent hattach
  | addNet name members => exact keepsPlaces_creating fun _ _ hok => keepsPlaces_addNet hok
  | setAttribute object name value constant =>
    simp only [Store.exec]
    split
    · rename_i s' hok
      obtain ⟨-, -, -, -, rfl⟩ := setAttribute_cases hok
      exact .of_eq (above?_write _ _ _ _)
    · exact .of_eq rfl
  | setAttributes object pairs =>
    have hkeeps := keepsPlaces_setAttributes s object pairs
    simp only [Store.exec]
    split
    all_goals
      rename_i heq
      rw [heq] at hkeeps
      exact hkeeps
  | clear => exact absurd rfl hc
  | request r => exact hs.keepsPlaces_run r

/-- Commands that place no default instance move nothing. -/
theorem Reachable.stays_after {s : Store} (hs : s.Reachable) {commands : List Command}
    (hkeep : .clear ∉ commands) (hnone : s.PlacesNone commands) :
    Stays s (s.after commands) := by
  induction commands generalizing s with
  | nil => exact .refl s
  | cons c rest ih =>
    have hc : c ≠ .clear := fun heq => hkeep (by simp [heq])
    exact (hs.stays_exec hc hnone.1).trans
      (ih (.exec c hs) (fun hmem => hkeep (by simp [hmem])) hnone.2)

theorem Reachable.after {s : Store} (hs : s.Reachable) (commands : List Command) :
    (s.after commands).Reachable := by
  induction commands generalizing s with
  | nil => exact hs
  | cons c rest ih => exact ih (.exec c hs)

end Interconnect.Store
