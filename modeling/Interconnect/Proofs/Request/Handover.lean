import Interconnect.Proofs.Route.Hanging

/-!
# Names that are handed down

Where nothing is reported, each hop of a tree asks for one object and hands the name of that
object down to the hops directly below.  `Wants` is what a hop asks for under the name that was
handed down to it, and `Under` relates a demand to the one that its hop took a name from.

None of this depends on what is realized along the tree.  `plan_hung` is the induction over the
tree: by way of the names, every demand leads up to the topmost one.
-/

namespace Interconnect

/-! ## Steps of a plan -/

/-- The part has no parts of its own, as register files and their entries do. -/
def Part.isLeaf : Part → Bool
  | .regfile _ | .entry _ => false
  | _ => true

theorem Part.isLeaf_of_joinsNets {p : Part} (hp : p.joinsNets = true) : p.isLeaf = true := by
  cases p <;> first | rfl | cases hp

/-- The demand of a step. -/
def Step.demand? : Step → Option Demand
  | .create demand _ => some demand
  | _ => none

/-- The step creates an object. -/
def Step.Creates (step : Step) : Prop :=
  step.demand?.isSome

/-- The demands of some steps are those that the steps create objects for. -/
theorem Step.mem_filterMap_demand? {steps : List Step} {d : Demand} :
    d ∈ steps.filterMap Step.demand? ↔ ∃ clash, .create d clash ∈ steps := by
  rw [List.mem_filterMap]
  constructor
  · rintro ⟨step, hstep, hdemand⟩
    cases step with
    | create d' clash =>
      cases hdemand
      exact ⟨clash, hstep⟩
    | report _ => cases hdemand
    | stray _ => cases hdemand
  · rintro ⟨clash, hstep⟩
    exact ⟨_, hstep, rfl⟩

namespace Task

/-! ## One hop -/

/-- The hop asks for an object at its place and hands the object's name down.  `above` is the name
that was handed down to the hop. -/
structure Wants (t : Task) (s : Store) (above : Option String) (hop : Hop) (d : Demand) : Prop where
  steps : ∃ clash, t.atHop s above hop = ([.create d clash], d.name)
  owner_eq : d.owner = hop.object
  isLeaf : d.part.isLeaf = true

section Hop

variable {t : Task} {above : Option String} {hop : Hop}

/-- The steps for a hop in the hierarchy are those for a module or those for an instance. -/
theorem atHop_cases (t : Task) (above : Option String) {s : Store}
    (hplace : (s.above? hop.object).isSome) :
    ∃ o, s.object? hop.object = some o ∧
      ((∃ m, o.body = .module m ∧ t.atHop s above hop = t.atModule o.id m above hop) ∨
        ∃ i, o.body = .inst i ∧ t.atHop s above hop = t.atInstance o.id above hop) := by
  obtain ⟨x, hx⟩ := Option.isSome_iff_exists.1 hplace
  obtain ⟨o, ho, habove⟩ := Option.bind_eq_some_iff.1 hx
  refine ⟨o, ho, ?_⟩
  unfold atHop
  rw [ho]
  obtain ⟨handle, id, name, attributes, body⟩ := o
  cases body with
  | module m => exact Or.inl ⟨m, rfl, rfl⟩
  | inst i => exact Or.inr ⟨i, rfl, rfl⟩
  | net | part => cases habove

theorem exists_create_atModule {id : String} {m : Module}
    (hclean : ∀ step ∈ (t.atModule id m above hop).1, step.Creates) :
    ∃ d clash, t.atModule id m above hop = ([.create d clash], d.name) ∧
      d.owner = hop.object ∧ d.part.isLeaf = true := by
  unfold atModule at hclean ⊢
  split
  · exact ⟨_, _, rfl, rfl, rfl⟩
  · rename_i hmode
    simp only [hmode] at hclean
    dsimp only
    split
    · rename_i hres
      rw [if_pos hres] at hclean
      cases hclean _ (List.mem_singleton_self _)
    · exact ⟨_, _, rfl, rfl, rfl⟩
  · exact ⟨_, _, rfl, rfl, rfl⟩
  · exact ⟨_, _, rfl, rfl, rfl⟩

/-- Nothing is reported for an instance that has something above. -/
theorem topInstance_eq_nil {id : String}
    (hclean : ∀ step ∈ t.topInstance id above, step.Creates) : t.topInstance id above = [] := by
  cases above with
  | some outer => rfl
  | none => cases hclean (.report (Report.unnamedInstance t.request id)) (by simp [topInstance])

theorem exists_create_atInstance {id : String}
    (hclean : ∀ step ∈ (t.atInstance id above hop).1, step.Creates) :
    ∃ d clash, t.atInstance id above hop = ([.create d clash], d.name) ∧
      d.owner = hop.object ∧ d.part.isLeaf = true := by
  have htop : t.topInstance id above = [] := by
    refine topInstance_eq_nil fun step hstep => hclean step ?_
    unfold atInstance
    split <;> exact List.mem_append_left _ hstep
  unfold atInstance
  rw [htop]
  split <;> exact ⟨_, _, rfl, rfl, rfl⟩

/-- Where nothing is reported, a hop asks for one object. -/
theorem exists_wants {s : Store} (hclean : ∀ step ∈ (t.atHop s above hop).1, step.Creates) :
    ∃ d, t.Wants s above hop d := by
  suffices h : ∃ d clash, t.atHop s above hop = ([.create d clash], d.name) ∧
      d.owner = hop.object ∧ d.part.isLeaf = true by
    obtain ⟨d, clash, hsteps, howner, hleaf⟩ := h
    exact ⟨d, ⟨clash, hsteps⟩, howner, hleaf⟩
  unfold atHop at hclean ⊢
  split at hclean
  · cases hclean (.stray hop.object) (by simp)
  · split at hclean
    · exact exists_create_atModule hclean
    · exact exists_create_atInstance hclean
    · cases hclean (.stray hop.object) (by simp)

end Hop

/-- A plan reports that an instance on top has no name, that a resource would get inner content, or
that an instance on top cannot have something of its own. -/
theorem report_of_mem_plan {t : Task} {s : Store} {above : Option String} {tree : HopTree}
    {d : Diagnostic} (hd : .report d ∈ t.plan s above tree) :
    ∃ id, d = Report.unnamedInstance t.request id ∨
      (t.mode = .signal ∧ d = Report.resourceContent t.request "declaration" id) ∨
      t.mode ≠ .signal ∧ d = Report.localAtInstance t.request id := by
  obtain ⟨above', hop, hstep⟩ := Store.exists_atHop_of_mem_plan above tree hd
  unfold atHop at hstep
  split at hstep
  · simp at hstep
  · split at hstep
    · unfold atModule at hstep
      split at hstep
      · simp at hstep
      · rename_i hmode
        dsimp only at hstep
        split at hstep
        · cases List.mem_singleton.1 hstep
          exact ⟨_, Or.inr (Or.inl ⟨hmode, rfl⟩)⟩
        · simp at hstep
      · simp at hstep
      · simp at hstep
    · have htop : ∀ id, .report d ∈ t.topInstance id above' →
          d = Report.unnamedInstance t.request id ∨
            t.mode ≠ .signal ∧ d = Report.localAtInstance t.request id := by
        intro id hmem
        unfold topInstance at hmem
        split at hmem
        · cases hmem
        · rcases List.mem_append.1 hmem with hmem | hmem
          · split at hmem
            · rename_i hmode
              cases List.mem_singleton.1 hmem
              exact Or.inr ⟨by simp [hmode], rfl⟩
            · cases hmem
          · cases List.mem_singleton.1 hmem
            exact Or.inl rfl
      unfold atInstance at hstep
      split at hstep
      all_goals
        rcases List.mem_append.1 hstep with hstep | hstep
        · exact ⟨_, (htop _ hstep).imp_right Or.inr⟩
        · cases List.mem_singleton.1 hstep
    · simp at hstep

/-! ## A whole tree -/

/-- The demands of a plan. -/
def demands (t : Task) (s : Store) (above : Option String) (tree : HopTree) : List Demand :=
  (t.plan s above tree).filterMap Step.demand?

/-- Nothing is reported for the tree. -/
def Clean (t : Task) (s : Store) (above : Option String) (tree : HopTree) : Prop :=
  ∀ step ∈ t.plan s above tree, step.Creates

theorem planAll_eq_flatMap (t : Task) (s : Store) (above : String) (trees : List HopTree) :
    t.planAll s above trees = trees.flatMap (t.plan s (some above)) := by
  induction trees with
  | nil => rfl
  | cons tree rest ih => rw [planAll, List.flatMap_cons, ih]

/-- A tree is clean if its topmost hop and its branches are. -/
theorem clean_node {t : Task} {s : Store} {hop : Hop} {above : Option String}
    {branches : List HopTree}
    (hhop : ∀ step ∈ (t.atHop s above hop).1, step.Creates)
    (hbranches : ∀ b ∈ branches, t.Clean s (some (t.atHop s above hop).2) b) :
    t.Clean s above (.node hop branches) := by
  intro step hstep
  rw [plan, planAll_eq_flatMap] at hstep
  rcases List.mem_append.1 hstep with hstep | hstep
  · exact hhop step hstep
  · obtain ⟨b, hb, hstep⟩ := List.mem_flatMap.1 hstep
    exact hbranches b hb step hstep

section Tree

variable {t : Task} {s : Store}

/-- A clean tree asks for the object of its topmost hop, and then for those of its branches. -/
theorem exists_wants_node {above : Option String} {hop : Hop} {branches : List HopTree}
    (hclean : t.Clean s above (.node hop branches)) :
    ∃ d, t.Wants s above hop d ∧ (∀ b ∈ branches, t.Clean s (some d.name) b) ∧
      t.demands s above (.node hop branches)
        = d :: branches.flatMap (t.demands s (some d.name)) := by
  unfold Clean at hclean
  rw [plan, planAll_eq_flatMap] at hclean
  obtain ⟨d, hwants⟩ := exists_wants fun step hstep => hclean step (List.mem_append_left _ hstep)
  obtain ⟨clash, hsteps⟩ := hwants.steps
  rw [hsteps] at hclean
  refine ⟨d, hwants, fun b hb step hstep => ?_, ?_⟩
  · exact hclean step (List.mem_append_right _ (List.mem_flatMap.2 ⟨b, hb, hstep⟩))
  · unfold demands
    rw [plan, planAll_eq_flatMap, hsteps, List.filterMap_append, List.filterMap_flatMap]
    rfl

/-- The demands of a clean tree are what its hops ask for, one after the other. -/
theorem demands_wanted : (tree : HopTree) → {above : Option String} → t.Clean s above tree →
    List.Forall₂ (fun hop d => ∃ above, t.Wants s above hop d) tree.hops (t.demands s above tree)
  | .node hop branches, above, hclean => by
    obtain ⟨d, hwants, hcleans, hdemands⟩ := exists_wants_node hclean
    rw [hdemands, HopTree.hops_node]
    exact .cons ⟨above, hwants⟩
      (Store.forall₂_flatMap fun b hb => demands_wanted b (hcleans b hb))

/-- Every hop of a clean tree has its demand. -/
theorem exists_wanted_of_passes {tree : HopTree} {hop : Hop} (hp : tree.Passes hop)
    {above : Option String} (hclean : t.Clean s above tree) :
    ∃ d ∈ t.demands s above tree, ∃ above', t.Wants s above' hop d :=
  Store.exists_right_of_mem (demands_wanted tree hclean) (HopTree.mem_hops.2 hp)

/-! ## Up to the topmost demand -/

/-- The hop of `d` was handed the name of `c`, which is asked for directly above. -/
structure Under (t : Task) (s : Store) (D : List Demand) (d c : Demand) : Prop where
  wants : ∃ hop, t.Wants s (some c.name) hop d
  above : s.above? d.owner = some (some c.owner)
  mem : c ∈ D
  wanted : ∃ hop above, t.Wants s above hop c

/-- Names lead from a demand up to the topmost one, and the name of a demand at a default instance
is handed on to the module of the instance. -/
structure Hung (t : Task) (s : Store) (D : List Demand) (top d : Demand) : Prop where
  up : ∃ c, t.Under s D d c ∧ Relation.ReflTransGen (t.Under s D) c top
  down : ∀ m, s.frame m = some (false, some d.owner) →
    ∃ e ∈ D, e.owner = m ∧ ∃ hop, t.Wants s (some d.name) hop e

/-- Names lead from everything below a demand up to what they lead to from there. -/
theorem plan_hung {D : List Demand} {top : Demand} {tree : HopTree} (hh : tree.Hangs s)
    {c : Demand} (hclean : t.Clean s (some c.name) tree)
    (habove : s.above? tree.hop.object = some (some c.owner)) (hmem : c ∈ D)
    (hwanted : ∃ hop above, t.Wants s above hop c)
    (htop : Relation.ReflTransGen (t.Under s D) c top)
    (hD : ∀ d ∈ t.demands s (some c.name) tree, d ∈ D) :
    ∀ d ∈ t.demands s (some c.name) tree, t.Hung s D top d := by
  -- What is asked for at the node takes the part of `c` in its branches.
  induction hh generalizing c with
  | @node hop branches hbranches hbelow _ ih =>
    obtain ⟨d, hwants, hcleans, hdemands⟩ := exists_wants_node hclean
    rw [hdemands] at hD ⊢
    have hrest : ∀ b ∈ branches, ∀ e ∈ t.demands s (some d.name) b, e ∈ D := fun b hb e he =>
      hD e (List.mem_cons_of_mem d (List.mem_flatMap.2 ⟨b, hb, he⟩))
    have hup : t.Under s D d c :=
      ⟨⟨hop, hwants⟩, by rw [hwants.owner_eq]; exact habove, hmem, hwanted⟩
    intro e he
    rcases List.mem_cons.1 he with rfl | he
    · refine ⟨⟨c, hup, htop⟩, fun m hm => ?_⟩
      -- Below a default instance there is a branch at its module.
      rw [hwants.owner_eq] at hm
      obtain ⟨b, hb, hobject⟩ := hbelow m hm
      obtain ⟨hop', branches'⟩ := b
      obtain ⟨e', hwants', -, hdemands'⟩ := exists_wants_node (hcleans _ hb)
      exact ⟨e', hrest _ hb e' (by simp [hdemands']), hwants'.owner_eq.trans hobject, hop', hwants'⟩
    · obtain ⟨b, hb, he⟩ := List.mem_flatMap.1 he
      refine ih b hb (hcleans b hb) ?_ (hD d List.mem_cons_self) ⟨hop, _, hwants⟩
        (.head hup htop) (hrest b hb) e he
      rw [hwants.owner_eq]
      exact hbranches b hb

/-- In a clean tree, names lead from every demand up to the topmost one. -/
theorem demands_hung {tree : HopTree} (hh : tree.Hangs s) (hclean : t.Clean s none tree) :
    ∃ top rest, t.demands s none tree = top :: rest ∧ t.Wants s none tree.hop top ∧
      ∀ d ∈ rest, t.Hung s (top :: rest) top d := by
  cases hh with
  | @node hop branches hbranches hbelow hhangs =>
    obtain ⟨d, hwants, hcleans, hdemands⟩ := exists_wants_node hclean
    refine ⟨d, _, hdemands, hwants, fun e he => ?_⟩
    obtain ⟨b, hb, he⟩ := List.mem_flatMap.1 he
    refine plan_hung (hhangs b hb) (hcleans b hb) ?_ List.mem_cons_self ⟨hop, none, hwants⟩ .refl
      (fun e he => List.mem_cons_of_mem d (List.mem_flatMap.2 ⟨b, hb, he⟩)) e he
    rw [hwants.owner_eq]
    exact hbranches b hb

end Tree

end Task

end Interconnect
