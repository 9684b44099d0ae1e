import Interconnect.Proofs.Route.Walking
import Interconnect.Proofs.Store.Hierarchy

/-!
# What the hops of a walk carry

A walk and a hierarchy path are found by loops of their own, with bounds of their own.  On a
reachable store they agree: a walk passes what the path passes that starts where the endpoint enters
the hierarchy, and neither meets its bound.

The hops on the way differ in what they carry.  A module hands what its endpoint asks for on to its
default instance, and nothing goes on from there.  An instance of a resource keeps it to itself, but
the module around it counts as chosen, too.
-/

namespace Interconnect

/-- The hop carries what the endpoint asks for. -/
structure Hop.Says (hop : Hop) (e : Endpoint) : Prop where
  name : hop.name = e.givenName
  forced : hop.forced = e.forced
  inverted : hop.inverted = e.inverted

/-- The hop carries nothing. -/
structure Hop.IsBare (hop : Hop) : Prop where
  name : hop.name = none
  forced : hop.forced = false
  inverted : hop.inverted = false

namespace Endpoint

/-- The hops from a module up.  The module was chosen, its default instance was not, and both carry
what the endpoint asks for.  No other hop was chosen or carries anything. -/
def EntersModule (e : Endpoint) : List Hop → Prop
  | [] => False
  | own :: rest =>
    own.explicit = true ∧ own.Says e ∧
      (∀ door ∈ rest.head?, door.explicit = false ∧ door.Says e) ∧
      ∀ hop ∈ rest.tail, hop.IsBare ∧ hop.explicit = false

/-- The hops from an instance of a resource up.  The instance and the module around it were
chosen, and the instance carries what the endpoint asks for.  No other hop was chosen or carries
anything. -/
def EntersPlacement (e : Endpoint) : List Hop → Prop
  | own :: container :: rest =>
    own.explicit = true ∧ own.Says e ∧ container.explicit = true ∧ container.IsBare ∧
      ∀ hop ∈ rest, hop.IsBare ∧ hop.explicit = false
  | _ => False

section Hops

variable (e : Endpoint) (heading : Heading)

theorem says_hop {stage : Stage} (h : stage.carries = true) (x : Handle) :
    (e.hop heading x stage).Says e := by
  constructor <;> simp [hop, h]

theorem isBare_hop {stage : Stage} (h : stage.carries = false) (x : Handle) :
    (e.hop heading x stage).IsBare := by
  constructor <;> simp [hop, h]

/-- Every hop has the heading of the walk, and headings do not clash. -/
theorem heading_of_mem_hops {stage : Stage} {path : List Handle} :
    ∀ hop ∈ e.hops heading stage path, hop.heading = heading ∧ hop.clash = false := by
  induction path generalizing stage with
  | nil => nofun
  | cons x rest ih =>
    intro hop hmem
    rcases List.mem_cons.1 hmem with rfl | hmem
    · exact ⟨rfl, rfl⟩
    · exact ih hop hmem

/-- Far from the endpoint, hops are bare, and the caller did not choose them. -/
theorem isBare_of_mem_hops {e : Endpoint} {heading : Heading} {path : List Handle} {hop : Hop}
    (h : hop ∈ e.hops heading (.beyond false) path) : hop.IsBare ∧ hop.explicit = false := by
  induction path with
  | nil => cases h
  | cons x rest ih =>
    rcases List.mem_cons.1 h with rfl | h
    · exact ⟨⟨rfl, rfl, rfl⟩, rfl⟩
    · exact ih h

theorem entersModule_hops (x : Handle) (path : List Handle) :
    e.EntersModule (e.hop heading x .endpoint :: e.hops heading .doorstep path) := by
  refine ⟨rfl, e.says_hop heading rfl x, ?_⟩
  cases path with
  | nil => exact ⟨nofun, nofun⟩
  | cons y rest =>
    refine ⟨fun door hdoor => ?_, fun _ hmem => isBare_of_mem_hops hmem⟩
    cases hdoor
    exact ⟨rfl, e.says_hop heading rfl y⟩

theorem entersPlacement_hops (x y : Handle) (path : List Handle) :
    e.EntersPlacement (e.hop heading x .endpoint :: e.hops heading (.beyond true) (y :: path)) :=
  ⟨rfl, e.says_hop heading rfl x, rfl, e.isBare_hop heading rfl y,
    fun _ hmem => isBare_of_mem_hops hmem⟩

end Hops

end Endpoint

namespace Store

/-- The object is an instance of a resource. -/
def isPlacement (s : Store) (h : Handle) : Bool :=
  (s.instance? h).any fun i => (s.module? i.module).any Module.resource

/-- Where an object enters the hierarchy: an instance enters it at its module, unless that is a
resource, and anything else at itself. -/
def entry (s : Store) (h : Handle) : Handle :=
  if s.isPlacement h then h else (s.instance? h).elim h Instance.module

theorem isPlacement_of_frame {s : Store} {h : Handle} {f : Bool × Option Handle}
    (hf : s.frame h = some f) : s.isPlacement h = false ∧ s.entry h = h := by
  have hnone : s.instance? h = none := by
    obtain ⟨m, hm, -⟩ := exists_module_of_frame hf
    obtain ⟨o, ho, hbody⟩ := Option.bind_eq_some_iff.1 hm
    rw [instance?, ho, Option.bind_some, Object.instance?, Object.module?_eq_some.1 hbody]
  simp [entry, isPlacement, hnone]

/-- An instance is a placement of a resource if its module is one. -/
theorem isPlacement_of_target {s : Store} {h m : Handle} {r : Bool} {d : Option Handle}
    (ht : s.target .placement h = some m) (hf : s.frame m = some (r, d)) :
    s.isPlacement h = r ∧ s.entry h = if r then h else m := by
  obtain ⟨i, hi, rfl⟩ := exists_instance_of_target ht
  obtain ⟨mod, hmod, rfl, -⟩ := exists_module_of_frame hf
  simp [entry, isPlacement, hi, hmod]

theorem isEndpoint_of_kind? {s : Store} {h : Handle}
    (hk : s.kind? h = some .module ∨ s.kind? h = some .inst) : s.isEndpoint h = true := by
  unfold isEndpoint
  rcases hk with hk | hk
  all_goals
    obtain ⟨o, ho, hkind⟩ := Option.map_eq_some_iff.1 hk
    simp [ho, hkind]

/-- A walk enters the hierarchy where its endpoint does. -/
theorem Walks.hierarchyPath {s : Store} {e : Endpoint} {heading : Heading} {hops : List Hop}
    (hw : s.Walks e heading hops) :
    s.hierarchyPath (s.entry e.object) = .ok (hops.map Hop.object) := by
  cases hw with
  | @climb x path hplace hc =>
    have hentry : s.entry e.object = x := by
      cases hplace with
      | itself hf => exact (isPlacement_of_frame hf).2
      | inst ht hf => exact (isPlacement_of_target ht hf).2
      | placement ht hf => exact (isPlacement_of_target ht hf).2
    rw [hentry, List.map_cons, e.map_object_hops]
    exact hierarchyPath_eq_ok.2 hc

/-- A walk passes no place twice. -/
theorem Walks.nodup {s : Store} {e : Endpoint} {heading : Heading} {hops : List Hop}
    (hw : s.Walks e heading hops) : (hops.map Hop.object).Nodup :=
  (hierarchyPath_eq_ok.1 hw.hierarchyPath).nodup

theorem Walks.heading_of_mem {s : Store} {e : Endpoint} {heading : Heading} {hops : List Hop}
    (hw : s.Walks e heading hops) : ∀ hop ∈ hops, hop.heading = heading ∧ hop.clash = false := by
  cases hw with
  | climb _ _ =>
    intro hop hmem
    rcases List.mem_cons.1 hmem with rfl | hmem
    · exact ⟨rfl, rfl⟩
    · exact e.heading_of_mem_hops heading hop hmem

/-- What the hops of a walk carry is told by the kind of the endpoint. -/
theorem Coherent.enters_of_walks {s : Store} (hs : s.Coherent) {e : Endpoint} {heading : Heading}
    {hops : List Hop} (hw : s.Walks e heading hops) :
    if s.isPlacement e.object then e.EntersPlacement hops else e.EntersModule hops := by
  cases hw with
  | @climb x path hplace hc =>
    cases hplace with
    | itself hf =>
      rw [(isPlacement_of_frame hf).1, stageAbove_of_frame hf]
      exact e.entersModule_hops heading _ path
    | inst ht hf =>
      rw [(isPlacement_of_target ht hf).1, stageAbove_of_frame hf]
      exact e.entersModule_hops heading x path
    | placement ht hf =>
      obtain ⟨i, hi, -⟩ := exists_instance_of_target ht
      obtain ⟨o, ho, hbody⟩ := Option.bind_eq_some_iff.1 hi
      have hinst := Object.instance?_eq_some.1 hbody
      rw [(isPlacement_of_target ht hf).1, if_pos rfl, stageAbove,
        frame_of_instance_eq_none ho hinst]
      -- An instance of a resource is placed, so there is a hop above it.
      cases hc with
      | root hroot =>
        obtain ⟨parent, hparent⟩ := Option.isSome_iff_exists.1 (hs.placed ht hf)
        rw [target_eq_some_iff] at hparent
        obtain ⟨o', ho', htarget⟩ := hparent
        rw [ho] at ho'
        cases ho'
        obtain ⟨i', hi', hsome⟩ := Object.target_child_eq_some.1 htarget
        rw [above?_of_instance ho hi', hsome] at hroot
        cases hroot
      | step _ hrest =>
        obtain ⟨rest, rfl⟩ := List.head?_eq_some_iff.1 hrest.head?_eq
        exact e.entersPlacement_hops heading _ _ rest

/-- A walk from a module or an instance of a reachable store succeeds.  It passes what the path
passes that starts where the endpoint enters the hierarchy, and every hop has the heading that was
asked for.  A module and its default instance carry what the endpoint asks for, and the module was
chosen; an instance of a resource carries it alone, and the module around it was chosen with it.
All other hops are on the way only. -/
theorem walk_along_hierarchyPath {s : Store} (hs : s.Reachable) {e : Endpoint}
    (hk : s.kind? e.object = some .module ∨ s.kind? e.object = some .inst) (heading : Heading) :
    ∃ hops, s.walk e heading = .ok hops ∧
      s.hierarchyPath (s.entry e.object) = .ok (hops.map Hop.object) ∧
      (∀ hop ∈ hops, hop.heading = heading ∧ hop.clash = false) ∧
      if s.isPlacement e.object then e.EntersPlacement hops else e.EntersModule hops := by
  obtain ⟨hops, hw, hwalk⟩ := hs.exists_walks (isEndpoint_of_kind? hk) heading
  exact ⟨hops, hwalk, hw.hierarchyPath, hw.heading_of_mem, hs.coherent.enters_of_walks hw⟩

/-- An endpoint that asks for a name, to be used as it is, and for the inverted signal. -/
def writeEnable (object : Handle) : Endpoint :=
  { object, name := some "we_n", heading := .unset, forced := true, inverted := true }

/-- In `nested`, a walk from the instance of the resource and one from the default instance of the
module around it. -/
theorem walk_along_nested :
    nested.Reachable ∧
      (nested.kind? 5 = some .inst ∧ nested.isPlacement 5 = true ∧ nested.entry 5 = 5 ∧
        ∃ hops, nested.walk (writeEnable 5) .down = .ok hops ∧
          nested.hierarchyPath (nested.entry 5) = .ok (hops.map Hop.object) ∧
          (∀ hop ∈ hops, hop.heading = .down ∧ hop.clash = false) ∧
          if nested.isPlacement 5 then (writeEnable 5).EntersPlacement hops
          else (writeEnable 5).EntersModule hops) ∧
      nested.kind? 3 = some .inst ∧ nested.isPlacement 3 = false ∧ nested.entry 3 = 2 ∧
        ∃ hops, nested.walk (writeEnable 3) .up = .ok hops ∧
          nested.hierarchyPath (nested.entry 3) = .ok (hops.map Hop.object) ∧
          (∀ hop ∈ hops, hop.heading = .up ∧ hop.clash = false) ∧
          if nested.isPlacement 3 then (writeEnable 3).EntersPlacement hops
          else (writeEnable 3).EntersModule hops := by
  have hreachable : nested.Reachable := reachable_execAll _
  exact ⟨hreachable,
    ⟨rfl, rfl, rfl, walk_along_hierarchyPath (e := writeEnable 5) hreachable (Or.inr rfl) .down⟩,
    rfl, rfl, rfl, walk_along_hierarchyPath (e := writeEnable 3) hreachable (Or.inr rfl) .up⟩

end Store

end Interconnect
