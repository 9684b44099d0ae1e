import Interconnect.Proofs.Store.Climbing
import Interconnect.Request.Basic

/-!
# Walks follow the hierarchy

A walk passes what a climb passes, with a hop at each place.  In a reachable store every climb
ends, and so a walk from a module or an instance succeeds.  It starts at the module that its
endpoint is or is an instance of, unless the endpoint is an instance of a resource, which is a
hop of its own.
-/

namespace Interconnect

/-- The hops at the places of a climb. -/
def Endpoint.hops (e : Endpoint) (heading : Heading) : Stage → List Handle → List Hop
  | _, [] => []
  | stage, h :: rest => e.hop heading h stage :: e.hops heading stage.above rest

theorem Endpoint.map_object_hops (e : Endpoint) (heading : Heading) (stage : Stage)
    (path : List Handle) : (e.hops heading stage path).map Hop.object = path := by
  induction path generalizing stage with
  | nil => rfl
  | cons h rest ih =>
    unfold hops
    rw [List.map_cons, ih]
    rfl

namespace Store

/-- With enough fuel the walk passes what the climb passes. -/
theorem ascend_eq_ok {s : Store} {h : Handle} {path : List Handle}
    (hc : Climbs s.above? h path) (e : Endpoint) (heading : Heading) (stage : Stage) {fuel : Nat}
    (hfuel : path.length ≤ fuel) :
    s.ascend e heading fuel stage h = .ok (e.hops heading stage path) := by
  induction hc generalizing fuel stage with
  | @root h hroot =>
    cases fuel with
    | zero => simp at hfuel
    | succ fuel =>
      unfold ascend
      rw [show (s.object? h).bind Object.above? = some none from hroot]
      rfl
  | @step h upper path hstep _ ih =>
    cases fuel with
    | zero => simp at hfuel
    | succ fuel =>
      unfold ascend
      rw [show (s.object? h).bind Object.above? = some (some upper) from hstep]
      dsimp only
      rw [ih stage.above (by simpa using hfuel)]
      rfl

theorem ascend_of_climbs {s : Store} {h : Handle} {path : List Handle}
    (hc : Climbs s.above? h path) (e : Endpoint) (heading : Heading) (stage : Stage) :
    s.ascend e heading (s.size + 1) stage h = .ok (e.hops heading stage path) :=
  ascend_eq_ok hc e heading stage (Nat.le_succ_of_le (length_le_size hc))

theorem isEndpoint_iff {s : Store} {h : Handle} :
    s.isEndpoint h = true ↔ ∃ o, s.object? h = some o ∧
      ((∃ m, o.body = .module m) ∨ ∃ i, o.body = .inst i) := by
  unfold isEndpoint
  rw [Option.any_eq_true]
  simp only [Bool.or_eq_true, decide_eq_true_eq]
  constructor
  · rintro ⟨o, ho, hk⟩
    refine ⟨o, ho, ?_⟩
    obtain ⟨handle, id, name, attributes, body⟩ := o
    cases body with
    | module m => exact Or.inl ⟨m, rfl⟩
    | inst i => exact Or.inr ⟨i, rfl⟩
    | net members => rcases hk with hk | hk <;> cases hk
    | part owner p => rcases hk with hk | hk <;> cases p <;> cases hk
  · rintro ⟨o, ho, ⟨m, hm⟩ | ⟨i, hi⟩⟩
    · exact ⟨o, ho, Or.inl (Object.kind_of_module hm)⟩
    · exact ⟨o, ho, Or.inr (Object.kind_of_inst hi)⟩

/-- Where an endpoint enters the hierarchy: at the module that it is or that it is an instance
of, or at itself if it is an instance of a resource. -/
inductive IsPlace (s : Store) (h : Handle) : Handle → Prop where
  | itself {f : Bool × Option Handle} : s.frame h = some f → IsPlace s h h
  | inst {m : Handle} {d : Option Handle} :
    s.target .placement h = some m → s.frame m = some (false, d) → IsPlace s h m
  | placement {m : Handle} {d : Option Handle} :
    s.target .placement h = some m → s.frame m = some (true, d) → IsPlace s h h

/-- Where a walk stands right above the place of its endpoint: at the default instance of a
module, or at the module around an instance of a resource. -/
def stageAbove (s : Store) (x : Handle) : Stage :=
  if (s.frame x).isSome then .doorstep else .beyond true

theorem stageAbove_of_frame {s : Store} {x : Handle} {f : Bool × Option Handle}
    (hf : s.frame x = some f) : s.stageAbove x = .doorstep := by
  rw [stageAbove, hf, Option.isSome_some, if_pos rfl]

/-- What a walk passes: it starts at the place of the endpoint and climbs from there. -/
inductive Walks (s : Store) (e : Endpoint) (heading : Heading) : List Hop → Prop where
  | climb {x : Handle} {path : List Handle} :
    s.IsPlace e.object x → Climbs s.above? x (x :: path) →
    Walks s e heading (e.hop heading x .endpoint :: e.hops heading (s.stageAbove x) path)

/-- The places of a walk are those of a climb. -/
theorem Walks.exists_climbs {s : Store} {e : Endpoint} {heading : Heading} {hops : List Hop}
    (hw : s.Walks e heading hops) : ∃ x, Climbs s.above? x (hops.map Hop.object) := by
  cases hw with
  | @climb x path _ hc =>
    refine ⟨x, ?_⟩
    rw [List.map_cons, e.map_object_hops]
    exact hc

/-- A walk has a hop at the place of its endpoint, as the caller chose. -/
theorem Walks.exists_chosen {s : Store} {e : Endpoint} {heading : Heading} {hops : List Hop}
    (hw : s.Walks e heading hops) :
    ∃ hop ∈ hops, hop.explicit = true ∧ s.IsPlace e.object hop.object := by
  cases hw with
  | climb hplace _ => exact ⟨_, List.mem_cons_self, rfl, hplace⟩

theorem walk_of_module {s : Store} {e : Endpoint} {o : Object} {m : Module}
    (ho : s.object? e.object = some o) (hm : o.body = .module m) (heading : Heading) :
    s.walk e heading = s.ascend e heading (s.size + 1) .endpoint e.object := by
  unfold walk
  rw [ho]
  dsimp only
  rw [hm]

theorem walk_of_instance {s : Store} {e : Endpoint} {o : Object} {i : Instance} {m : Module}
    (ho : s.object? e.object = some o) (hi : o.body = .inst i)
    (hm : s.module? i.module = some m) (heading : Heading) :
    s.walk e heading
      = if m.resource then
          match i.parent with
          | none => .ok [e.hop heading e.object .endpoint]
          | some parent => (s.ascend e heading s.size (.beyond true) parent).map
              (e.hop heading e.object .endpoint :: ·)
        else s.ascend e heading (s.size + 1) .endpoint i.module := by
  unfold walk
  rw [ho]
  dsimp only
  rw [hi]
  dsimp only
  generalize s.module? i.module = found at hm ⊢
  cases hm
  rfl

theorem Reachable.exists_climbs {s : Store} (hs : s.Reachable) {h : Handle} {o : Object}
    {m : Module} (ho : s.object? h = some o) (hm : o.body = .module m) :
    ∃ path, Climbs s.above? h (h :: path) := by
  have hplace : (s.above? h).isSome := by rw [above?_of_module ho hm, Option.isSome_some]
  obtain ⟨path, hc⟩ := hs.rooted h hplace
  obtain ⟨rest, rfl⟩ := List.head?_eq_some_iff.1 hc.head?_eq
  exact ⟨rest, hc⟩

/-- A walk from a module or an instance of a reachable store succeeds. -/
theorem Reachable.exists_walks {s : Store} (hs : s.Reachable) {e : Endpoint}
    (hend : s.isEndpoint e.object = true) (heading : Heading) :
    ∃ hops, Walks s e heading hops ∧ s.walk e heading = .ok hops := by
  obtain ⟨o, ho, ⟨m, hm⟩ | ⟨i, hi⟩⟩ := isEndpoint_iff.1 hend
  · obtain ⟨path, hc⟩ := hs.exists_climbs ho hm
    have hframe := frame_of_module ho hm
    refine ⟨_, .climb (.itself hframe) hc, ?_⟩
    rw [walk_of_module ho hm, ascend_of_climbs hc, stageAbove_of_frame hframe]
    rfl
  · have hw := hs.coherent.wellFormed
    obtain ⟨mo, m, hmo, hm, hmem⟩ := hw.module ho hi
    have hmodule : s.module? i.module = some m := by
      rw [module?, hmo, Option.bind_some, Object.module?_eq_some.2 hm]
    have htarget : s.target .placement e.object = some i.module :=
      target_eq_some_iff.2 ⟨o, ho, Object.target_placement_eq_some.2 ⟨i, hi, rfl⟩⟩
    have hframe := frame_of_module hmo hm
    rw [walk_of_instance ho hi hmodule]
    cases hres : m.resource with
    | true =>
      obtain ⟨x, i', hx, hi', hplaced⟩ := (hw.resource hmo hm hres).2.2.2.2.2 e.object hmem
      rw [ho] at hx
      cases hx
      rw [hi] at hi'
      cases hi'
      obtain ⟨parent, hparent⟩ := Option.isSome_iff_exists.1 hplaced
      obtain ⟨p, c, hp, hc, -⟩ := hw.parent ho hi hparent
      obtain ⟨path, hclimbs⟩ := hs.exists_climbs hp hc
      have habove : s.above? e.object = some (some parent) := by
        rw [above?_of_instance ho hi, hparent]
      rw [hres] at hframe
      refine ⟨_, .climb (.placement htarget hframe) (.step habove hclimbs), ?_⟩
      rw [if_pos rfl, hparent, stageAbove, frame_of_instance_eq_none ho hi]
      dsimp only
      rw [ascend_eq_ok hclimbs e heading (.beyond true) (length_le_size hclimbs)]
      rfl
    | false =>
      obtain ⟨path, hclimbs⟩ := hs.exists_climbs hmo hm
      rw [hres] at hframe
      refine ⟨_, .climb (.inst htarget hframe) hclimbs, ?_⟩
      rw [stageAbove_of_frame hframe]
      exact ascend_of_climbs hclimbs e heading .endpoint

end Store

end Interconnect
