import Interconnect.Proofs.Request.Planning
import Interconnect.Proofs.Route.Separation

/-!
# The hops of a tree and the names that are handed down to them

A plan visits the hops of a tree from the top down.  `Visits` says which part of the tree is
visited with which name, whatever the plan reports on the way: the name at a hop is handed down also
where the hop does not get its object.  `hopSteps` is the plan with the hop of each step.

A hop of a signal asks for one object, unless a resource on top would get inner content; `Gets` says
for which.  The name of that object is the one that is handed down.
-/

namespace Interconnect

namespace Task

/-! ## Visits -/

/-- The plan of the tree visits a part of it, with the name that is handed down to that part. -/
inductive Visits (t : Task) (s : Store) (above : Option String) (tree : HopTree) :
    Option String → HopTree → Prop where
  | top : Visits t s above tree above tree
  | branch {name : Option String} {hop : Hop} {branches : List HopTree} {b : HopTree} :
    Visits t s above tree name (.node hop branches) → b ∈ branches →
    Visits t s above tree (some (t.atHop s name hop).2) b

section Visits

variable {t : Task} {s : Store} {above name : Option String} {tree sub : HopTree}

theorem Visits.trans {name' : Option String} {sub' : HopTree}
    (h : t.Visits s above tree name sub) (h' : t.Visits s name sub name' sub') :
    t.Visits s above tree name' sub' := by
  induction h' with
  | top => exact h
  | branch _ hb ih => exact ih.branch hb

/-- What is visited is a part of the tree. -/
theorem Visits.within (h : t.Visits s above tree name sub) : sub.Within tree := by
  induction h with
  | top => exact .refl tree
  | branch _ hb ih => exact HopTree.Within.trans (.branch hb (.refl _)) ih

/-- What is visited is on top, or it has its name from the hop above it. -/
theorem Visits.exists_upper (h : t.Visits s above tree name sub) :
    (name = above ∧ sub = tree) ∨
      ∃ name' hop branches, t.Visits s above tree name' (.node hop branches) ∧ sub ∈ branches ∧
        name = some (t.atHop s name' hop).2 := by
  cases h with
  | top => exact Or.inl ⟨rfl, rfl⟩
  | branch h hb => exact Or.inr ⟨_, _, _, h, hb, rfl⟩

mutual

/-- The steps for a tree, each with its hop. -/
def hopSteps (t : Task) (s : Store) (above : Option String) : HopTree → List (Hop × Step)
  | .node hop branches =>
    (t.atHop s above hop).1.map (Prod.mk hop) ++ hopStepsAll t s (t.atHop s above hop).2 branches

/-- The steps for the branches below a hop, each with its hop. -/
def hopStepsAll (t : Task) (s : Store) (above : String) : List HopTree → List (Hop × Step)
  | [] => []
  | branch :: rest => hopSteps t s (some above) branch ++ hopStepsAll t s above rest

end

mutual

/-- Without the hops, the steps are the plan. -/
theorem map_hopSteps (t : Task) (s : Store) (above : Option String) (tree : HopTree) :
    (t.hopSteps s above tree).map Prod.snd = t.plan s above tree := by
  cases tree with
  | node hop branches =>
    rw [hopSteps, plan, List.map_append, List.map_map, map_hopStepsAll t s _ branches]
    congr 1
    exact List.map_id _

theorem map_hopStepsAll (t : Task) (s : Store) (above : String) (trees : List HopTree) :
    (t.hopStepsAll s above trees).map Prod.snd = t.planAll s above trees := by
  cases trees with
  | nil => rfl
  | cons tree rest =>
    rw [hopStepsAll, planAll, List.map_append, map_hopSteps t s _ tree,
      map_hopStepsAll t s above rest]

end

theorem hopStepsAll_eq_flatMap (t : Task) (s : Store) (above : String) (trees : List HopTree) :
    t.hopStepsAll s above trees = trees.flatMap (t.hopSteps s (some above)) := by
  induction trees with
  | nil => rfl
  | cons tree rest ih => rw [hopStepsAll, List.flatMap_cons, ih]

/-- Each step is taken where a part of the tree is visited, for the topmost hop of that part. -/
theorem exists_visits_of_mem : (tree : HopTree) → {above : Option String} → {x : Hop × Step} →
    x ∈ t.hopSteps s above tree →
    ∃ name sub, t.Visits s above tree name sub ∧ x.1 = sub.hop ∧ x.2 ∈ (t.atHop s name sub.hop).1
  | .node hop branches, above, x, hx => by
    rw [hopSteps, hopStepsAll_eq_flatMap] at hx
    rcases List.mem_append.1 hx with hx | hx
    · obtain ⟨step, hstep, rfl⟩ := List.mem_map.1 hx
      exact ⟨above, .node hop branches, .top, rfl, hstep⟩
    · obtain ⟨b, hb, hx⟩ := List.mem_flatMap.1 hx
      obtain ⟨name, sub, hvisits, hrest⟩ := exists_visits_of_mem b hx
      exact ⟨name, sub, (Visits.branch .top hb).trans hvisits, hrest⟩

/-- The steps for a part that is visited are steps for the tree. -/
theorem Visits.hopSteps_subset (h : t.Visits s above tree name sub) :
    t.hopSteps s name sub ⊆ t.hopSteps s above tree := by
  induction h with
  | top => exact List.Subset.refl _
  | @branch name hop branches b _ hb ih =>
    intro x hx
    refine ih ?_
    rw [hopSteps, hopStepsAll_eq_flatMap]
    exact List.mem_append_right _ (List.mem_flatMap.2 ⟨b, hb, hx⟩)

theorem Visits.mem_hopSteps (h : t.Visits s above tree name sub) {step : Step}
    (hstep : step ∈ (t.atHop s name sub.hop).1) : (sub.hop, step) ∈ t.hopSteps s above tree := by
  refine h.hopSteps_subset ?_
  cases sub with
  | node hop branches =>
    rw [hopSteps]
    exact List.mem_append_left _ (List.mem_map.2 ⟨step, hstep, rfl⟩)

/-- Every hop of the tree is visited. -/
theorem exists_visits_of_passes {hop : Hop} (hp : tree.Passes hop) :
    ∃ name sub, t.Visits s above tree name sub ∧ sub.hop = hop := by
  induction hp generalizing above with
  | top => exact ⟨above, _, .top, rfl⟩
  | branch hb _ ih =>
    obtain ⟨name, sub, hvisits, rfl⟩ := ih
    exact ⟨name, sub, (Visits.branch .top hb).trans hvisits, rfl⟩

/-- Where nothing is reported, each visit has its demand, whose name is handed down. -/
theorem Visits.exists_demand (ht : t.mode = .signal) (hclean : t.Clean s above tree)
    (h : t.Visits s above tree name sub) :
    ∃ d ∈ t.demands s above tree,
      t.Asks s sub.hop name d ∧ (t.atHop s name sub.hop).2 = d.name := by
  have hplan : ∀ step ∈ (t.atHop s name sub.hop).1, step ∈ t.plan s above tree := by
    intro step hstep
    rw [← map_hopSteps]
    exact List.mem_map_of_mem (h.mem_hopSteps hstep)
  obtain ⟨d, hwants⟩ := exists_wants fun step hstep => hclean step (hplan step hstep)
  obtain ⟨clash, hsteps⟩ := hwants.steps
  rw [hsteps] at hplan
  refine ⟨d, ?_, hwants.asks ht, by rw [hsteps]⟩
  exact Step.mem_filterMap_demand?.2 ⟨clash, hplan _ (List.mem_singleton_self _)⟩

end Visits

/-! ## One hop of a signal -/

/-- The object that a hop of a signal gets, and whether a clash of headings is reported with it.
`above` is the name that was handed down to the hop. -/
inductive Gets (t : Task) (s : Store) (above : Option String) (hop : Hop) : Demand → Bool → Prop
    where
  | declaration {o : Object} {m : Module} : above = none → s.object? hop.object = some o →
    o.body = .module m → m.resource = false →
    Gets t s above hop
      ⟨hop.object, t.ownName hop Naming.signalName, .declaration true none none⟩ false
  | port {o : Object} {m : Module} {name : String} : above = some name →
    s.object? hop.object = some o → o.body = .module m →
    Gets t s above hop ⟨hop.object, name, .port hop.heading.portDirection none⟩ hop.clash
  | pin {o : Object} {i : Instance} : s.object? hop.object = some o → o.body = .inst i →
    Gets t s above hop
      ⟨hop.object, t.ownName hop fun n => Naming.pinName n hop.heading,
        .pin (above.getD "") hop.inverted none⟩ hop.clash

section Gets

variable {t : Task} (ht : t.mode = .signal) {s : Store} {above : Option String} {hop : Hop}
  {d : Demand} {clash : Bool}

theorem Gets.owner_eq (h : t.Gets s above hop d clash) : d.owner = hop.object := by
  cases h <;> rfl

theorem Gets.exists_owner (h : t.Gets s above hop d clash) : ∃ o, s.object? d.owner = some o := by
  cases h with
  | declaration _ ho _ _ => exact ⟨_, ho⟩
  | port _ ho _ => exact ⟨_, ho⟩
  | pin ho _ => exact ⟨_, ho⟩

/-- A module gets a declaration on top, and a port of the name that was handed down below. -/
theorem Gets.at_module (h : t.Gets s above hop d clash) {f : Bool × Option Handle}
    (hf : s.frame hop.object = some f) :
    (above = none ∧ d.part.kind = .declaration) ∨ (above = some d.name ∧ d.part.kind = .port) := by
  cases h with
  | declaration habove => exact Or.inl ⟨habove, rfl⟩
  | port habove => exact Or.inr ⟨habove, rfl⟩
  | pin ho hi =>
    rw [Store.frame_of_instance_eq_none ho hi] at hf
    cases hf

/-- An instance gets a pin. -/
theorem Gets.at_instance (h : t.Gets s above hop d clash) (hf : s.frame hop.object = none) :
    d.part.kind = .pin ∧ d.name = t.ownName hop fun n => Naming.pinName n hop.heading := by
  cases h with
  | declaration _ ho hm _ =>
    rw [Store.frame_of_module ho hm] at hf
    cases hf
  | port _ ho hm =>
    rw [Store.frame_of_module ho hm] at hf
    cases hf
  | pin => exact ⟨rfl, rfl⟩

/-- A clash is reported with ports and pins only. -/
theorem Gets.clash_eq (h : t.Gets s above hop d clash) :
    clash = (hop.clash && (d.part.kind = .port || d.part.kind = .pin)) := by
  cases h with
  | declaration => exact (Bool.and_false _).symm
  | port => exact (Bool.and_true _).symm
  | pin => exact (Bool.and_true _).symm

include ht

/-- What a hop of a signal asks for is what it gets, and the name of that is handed down. -/
theorem gets_of_mem (h : .create d clash ∈ (t.atHop s above hop).1) :
    t.Gets s above hop d clash ∧ (t.atHop s above hop).2 = d.name := by
  unfold atHop at h ⊢
  split at h
  · simp at h
  · rename_i o ho
    split at h
    · rename_i m hm
      unfold atModule at h ⊢
      rw [ht] at h ⊢
      cases above with
      | some name =>
        cases List.mem_singleton.1 h
        exact ⟨.port rfl ho hm, rfl⟩
      | none =>
        dsimp only at h ⊢
        split at h
        · simp at h
        · rename_i hres
          cases List.mem_singleton.1 h
          rw [if_neg hres]
          exact ⟨.declaration rfl ho hm (Bool.eq_false_iff.2 hres), rfl⟩
    · rename_i i hi
      unfold atInstance at h ⊢
      rw [ht] at h ⊢
      dsimp only at h ⊢
      rcases List.mem_append.1 h with h | h
      · unfold topInstance at h
        rw [ht] at h
        cases above <;> simp at h
      · cases List.mem_singleton.1 h
        exact ⟨.pin ho hi, rfl⟩
    · simp at h

/-- Every hop in the hierarchy asks for an object, unless it is a resource on top. -/
theorem exists_create_mem (hplace : (s.above? hop.object).isSome)
    (htop : above = none → ∀ d, s.frame hop.object ≠ some (true, d)) :
    ∃ d clash, .create d clash ∈ (t.atHop s above hop).1 := by
  obtain ⟨o, ho, ⟨m, hm, hsteps⟩ | ⟨i, -, hsteps⟩⟩ := atHop_cases t above hplace
  · rw [hsteps]
    unfold atModule
    rw [ht]
    cases above with
    | some name => exact ⟨_, _, List.mem_singleton_self _⟩
    | none =>
      have hres : m.resource = false := by
        refine Bool.eq_false_iff.2 fun hres => htop rfl m.defaultInstance ?_
        rw [Store.frame_of_module ho hm, hres]
      dsimp only
      rw [hres, if_neg Bool.false_ne_true]
      exact ⟨_, _, List.mem_singleton_self _⟩
  · rw [hsteps]
    unfold atInstance
    rw [ht]
    exact ⟨_, _, List.mem_append_right _ (List.mem_singleton_self _)⟩

/-- So the name that is handed down is the name of an object that the plan asks for. -/
theorem exists_gets (hplace : (s.above? hop.object).isSome)
    (htop : above = none → ∀ d, s.frame hop.object ≠ some (true, d)) :
    ∃ d clash, .create d clash ∈ (t.atHop s above hop).1 ∧ t.Gets s above hop d clash ∧
      d.name = (t.atHop s above hop).2 := by
  obtain ⟨d, clash, hmem⟩ := exists_create_mem ht hplace htop
  obtain ⟨hgets, hname⟩ := gets_of_mem ht hmem
  exact ⟨d, clash, hmem, hgets, hname.symm⟩

/-- An instance hands the name of its pin down. -/
theorem atHop_of_instance (hplace : (s.above? hop.object).isSome)
    (hf : s.frame hop.object = none) :
    (t.atHop s above hop).2 = t.ownName hop fun n => Naming.pinName n hop.heading := by
  obtain ⟨d, clash, -, hgets, hname⟩ := exists_gets ht hplace fun _ d => by
    rw [hf]
    nofun
  rw [← hname]
  exact (hgets.at_instance hf).2

end Gets

end Task

end Interconnect
