import Interconnect.Proofs.Request.Spanning
import Interconnect.Proofs.Route.Suffixing
import Interconnect.Proofs.Store.Identity

/-!
# Endpoints with a tree are served

A step of a plan is *sound* if it reports, or asks for a part with a name at an owner that can own
it.  Nothing but a taken id keeps such a part from being created, and a taken id is reported and
passed over; so sound steps are always carried out.  What they create can join a net and carries
no tag, and so binding it together succeeds, too.  The plan of a tree in the hierarchy, each hop of
which has a name, is sound.
-/

namespace Interconnect

/-! ## Built-in attributes -/

/-- No part comes with a tag. -/
theorem tag_notMem_details (p : Part) : "parameter" ∉ p.details.map Prod.fst := by
  cases p with
  | declaration defaultType assigned net => cases assigned <;> simp [Part.details]
  | _ => simp [Part.details]

namespace Store

/-! ## Adding a part -/

/-- The owner can own such a part. -/
inductive CanOwn (s : Store) (owner : Handle) (p : Part) : Prop where
  | module {r : Bool} {d : Option Handle} : s.frame owner = some (r, d) → p.ownerKind = .module →
    (p.innerContent?.isSome → r = false) → CanOwn s owner p
  | inst {m : Handle} : s.target .placement owner = some m → p.ownerKind = .inst →
    CanOwn s owner p

/-- Owning depends on the hierarchy only. -/
theorem CanOwn.congr {s s' : Store} {owner : Handle} {p : Part} (h : s.CanOwn owner p)
    (hh : SameHierarchy s s') : s'.CanOwn owner p := by
  cases h with
  | module hf hk hinner => exact .module (by rw [hh.frame, hf]) hk hinner
  | inst ht hk => exact .inst (by rw [hh.placement, ht]) hk

theorem CanOwn.exists_owner {s : Store} {owner : Handle} {p : Part} (h : s.CanOwn owner p) :
    ∃ o, s.expectOwner owner p = .ok o := by
  cases h with
  | module hf hk hinner =>
    obtain ⟨m, hm, hres, -⟩ := exists_module_of_frame hf
    obtain ⟨o, ho, hbody⟩ := Option.bind_eq_some_iff.1 hm
    have hmodule := Object.module?_eq_some.1 hbody
    refine ⟨o, expectOwner_eq_ok.2 ⟨ho, ?_, fun hsome m' hm' => ?_⟩⟩
    · rw [hk, Object.kind, hmodule, Body.kind]
    · rw [hmodule] at hm'
      cases hm'
      rw [hres, hinner hsome]
  | inst ht hk =>
    obtain ⟨i, hi, -⟩ := exists_instance_of_target ht
    obtain ⟨o, ho, hbody⟩ := Option.bind_eq_some_iff.1 hi
    have hinst := Object.instance?_eq_some.1 hbody
    refine ⟨o, expectOwner_eq_ok.2 ⟨ho, ?_, fun _ m hm => ?_⟩⟩
    · rw [hk, Object.kind, hinst, Body.kind]
    · rw [hinst] at hm
      cases hm

theorem CanOwn.isSome_name? {s : Store} {owner : Handle} {p : Part} (h : s.CanOwn owner p) :
    (s.name? owner).isSome := by
  obtain ⟨o, ho⟩ := h.exists_owner
  rw [name?_of_object? (expectOwner_eq_ok.1 ho).1, Option.isSome_some]

/-- The id that a part under this name would get. -/
def demandId (s : Store) (d : Demand) : String :=
  partId d.part ((s.name? d.owner).getD "") d.name

/-- Only a taken id keeps an owner from getting a part that it can own. -/
theorem CanOwn.attach_cases {s : Store} {d : Demand} (h : s.CanOwn d.owner d.part)
    (hname : d.name ≠ "") :
    (∃ s' c, s.attach d.owner d.name d.part = .ok (s', c)) ∨
      s.ids.get? (s.demandId d) ≠ none ∧
        s.attach d.owner d.name d.part = .error (.idExists (s.demandId d)) := by
  obtain ⟨o, ho⟩ := h.exists_owner
  have hid : s.demandId d = partId d.part o.name d.name := by
    rw [demandId, name?_of_object? (expectOwner_eq_ok.1 ho).1, Option.getD_some]
  rw [attach_eq ho hname, hid]
  split
  · exact Or.inl ⟨_, _, rfl⟩
  · rename_i htaken
    exact Or.inr ⟨htaken, rfl⟩

/-- The object carries no tag. -/
def IsUntagged (s : Store) (c : Handle) : Prop :=
  ∃ o, s.object? c = some o ∧ o.attributes.get? "parameter" = none

/-- The object can join a net. -/
def CanJoin (s : Store) (c : Handle) : Prop :=
  ∃ o owner p, s.object? c = some o ∧ o.body = .part owner p ∧ p.joinsNets = true ∧ p.net? = none

section Attach

variable {s s' : Store} {owner h : Handle} {name : String} {p : Part}

/-- What is there when a part is added keeps its attributes. -/
theorem attach_keeps (hs : s.Coherent) (hok : s.attach owner name p = .ok (s', h)) {c : Handle}
    {o : Object} (ho : s.object? c = some o) :
    ∃ o', s'.object? c = some o' ∧ o'.attributes = o.attributes ∧
      (o' = o ∨ o' = o.adopt p s.size) := by
  obtain ⟨-, x, hx, -, -, -, heq⟩ := Store.attach_cases hok
  have hstore : s' = (s.createPart x name p).1 := by rw [heq]
  rw [createPart_eq name (hs.handle_eq_of_object? hx)] at hstore
  subst hstore
  have ho' := object?_create_owner name ho (x.name ++ "." ++ name) (.part owner p)
    (p.details ++ [("parent", x.id)])
  by_cases hc : owner = c
  · exact ⟨o.adopt p s.size, by rw [object?_modify, if_pos hc, ho', Option.map_some], rfl,
      Or.inr rfl⟩
  · exact ⟨o, by rw [object?_modify, if_neg hc, ho'], rfl, Or.inl rfl⟩

theorem attach_isUntagged_of_isUntagged (hs : s.Coherent)
    (hok : s.attach owner name p = .ok (s', h)) {c : Handle} (hc : s.IsUntagged c) :
    s'.IsUntagged c := by
  obtain ⟨o, ho, htag⟩ := hc
  obtain ⟨o', ho', hattributes, -⟩ := attach_keeps hs hok ho
  exact ⟨o', ho', by rw [hattributes, htag]⟩

theorem attach_canJoin_of_canJoin (hs : s.Coherent) (hok : s.attach owner name p = .ok (s', h))
    {c : Handle} (hc : s.CanJoin c) : s'.CanJoin c := by
  obtain ⟨o, owner', q, ho, hbody, hjoins, hnet⟩ := hc
  obtain ⟨o', ho', -, rfl | rfl⟩ := attach_keeps hs hok ho
  · exact ⟨o', owner', q, ho', hbody, hjoins, hnet⟩
  · refine ⟨_, owner', q, ho', ?_, hjoins, hnet⟩
    show o.body.adopt p s.size = _
    rw [hbody, body_adopt_of_isLeaf (Part.isLeaf_of_joinsNets hjoins)]

/-- A new part carries no tag. -/
theorem attach_isUntagged (hs : s.Coherent) (hok : s.attach owner name p = .ok (s', h)) :
    s'.IsUntagged h := by
  obtain ⟨-, o, ho, -, -, -, heq⟩ := Store.attach_cases hok
  have hlt : owner < s.size := lt_size_of_outline? (outline?_of_object? ho)
  have hstore : s' = (s.createPart o name p).1 := by rw [heq]
  have hh : h = s.size := by
    rw [show h = (s.createPart o name p).2 by rw [heq]]
    rfl
  rw [createPart_eq name (hs.handle_eq_of_object? ho)] at hstore
  subst hstore hh
  refine ⟨s.created (o.name ++ "." ++ name) name (.part owner p)
    (p.details ++ [("parent", o.id)]), ?_, ?_⟩
  · rw [object?_modify, if_neg (Nat.ne_of_lt hlt), object?_create_self]
    rfl
  · refine OrderedMap.get?_insertMany_of_notMem ?_ _
    have hdetails := tag_notMem_details p
    simpa using hdetails

theorem attach_canJoin (hs : s.Coherent) (hok : s.attach owner name p = .ok (s', h))
    (hjoins : p.joinsNets = true) (hnew : p.IsNew) : s'.CanJoin h := by
  obtain ⟨-, -, o, ho, -, hbody⟩ := attach_holds hs hok
  exact ⟨o, owner, p, ho, hbody, hjoins, hnew.1⟩

/-- A part is no net. -/
theorem attach_nets (hok : s.attach owner name p = .ok (s', h)) : s'.nets = s.nets := by
  obtain ⟨-, o, -, -, -, -, heq⟩ := Store.attach_cases hok
  rw [show s' = (s.createPart o name p).1 by rw [heq]]
  cases p <;> rfl

end Attach

/-! ## Carrying out steps -/

/-- The step reports, or asks for a part with a name at an owner that can own it. -/
def IsSound (s : Store) : Step → Prop
  | .report _ => True
  | .create demand _ => demand.name ≠ "" ∧ s.CanOwn demand.owner demand.part
  | .stray _ => False

theorem IsSound.congr {s s' : Store} {step : Step} (h : s.IsSound step)
    (hh : SameHierarchy s s') : s'.IsSound step := by
  cases step with
  | report d => trivial
  | create demand clash => exact ⟨h.1, h.2.congr hh⟩
  | stray object => exact h.elim

/-- What carrying out steps leaves behind. -/
structure Completed (s s' : Store) (steps : List Step) (created : List Handle) : Prop where
  nets : s'.nets = s.nets
  fresh : ∀ c ∈ created, s.size ≤ c
  nodup : created.Nodup
  keepsUntagged : ∀ c, s.IsUntagged c → s'.IsUntagged c
  keepsCanJoin : ∀ c, s.CanJoin c → s'.CanJoin c
  untagged : ∀ c ∈ created, s'.IsUntagged c
  canJoin : (∀ d ∈ steps.filterMap Step.demand?, d.part.joinsNets = true) →
    ∀ c ∈ created, s'.CanJoin c

namespace Completed

variable {s s' : Store} {rest : List Step} {created : List Handle}

/-- A step that creates nothing leaves things as they are. -/
theorem skip (h : Completed s s' rest created) (step : Step) :
    Completed s s' (step :: rest) created := by
  refine ⟨h.nets, h.fresh, h.nodup, h.keepsUntagged, h.keepsCanJoin, h.untagged, fun hjoins => ?_⟩
  refine h.canJoin fun d hd => hjoins d ?_
  rw [List.filterMap_cons]
  split
  · exact hd
  · exact List.mem_cons_of_mem _ hd

/-- A step gets its part, and the other steps follow. -/
theorem cons {s₁ : Store} (hs : s.Coherent) {demand : Demand} {clash : Bool} {c : Handle}
    (hnew : demand.part.IsNew)
    (hok : s.attach demand.owner demand.name demand.part = .ok (s₁, c))
    (h : Completed s₁ s' rest created) :
    Completed s s' (.create demand clash :: rest) (c :: created) := by
  obtain ⟨hc, hsize, -⟩ := attach_holds hs hok
  constructor
  case nets => exact h.nets.trans (attach_nets hok)
  case fresh =>
    intro c' hc'
    rcases List.mem_cons.1 hc' with rfl | hc'
    · exact Nat.le_of_eq hc.symm
    · have hle := h.fresh c' hc'
      omega
  case nodup =>
    refine List.nodup_cons.2 ⟨fun hmem => ?_, h.nodup⟩
    have hle := h.fresh c hmem
    rw [hc, hsize] at hle
    exact Nat.not_succ_le_self s.size hle
  case keepsUntagged =>
    exact fun c' hc' => h.keepsUntagged c' (attach_isUntagged_of_isUntagged hs hok hc')
  case keepsCanJoin =>
    exact fun c' hc' => h.keepsCanJoin c' (attach_canJoin_of_canJoin hs hok hc')
  case untagged =>
    intro c' hc'
    rcases List.mem_cons.1 hc' with rfl | hc'
    · exact h.keepsUntagged c' (attach_isUntagged hs hok)
    · exact h.untagged c' hc'
  case canJoin =>
    intro hjoins c' hc'
    have hdemand : demand.part.joinsNets = true := hjoins demand (by simp [Step.demand?])
    rcases List.mem_cons.1 hc' with rfl | hc'
    · exact h.keepsCanJoin c' (attach_canJoin hs hok hdemand hnew)
    · exact h.canJoin (fun d hd => hjoins d (by simp [Step.demand?, hd])) c' hc'

end Completed

/-- Sound steps are carried out. -/
theorem carryOut_completes {s : Store} (hs : s.Coherent) (request : String) {steps : List Step}
    (hnew : ∀ step ∈ steps, step.IsNew) (hsound : ∀ step ∈ steps, s.IsSound step) :
    ∃ created, (s.carryOut request steps).result = .ok created ∧
      Completed s (s.carryOut request steps).store steps created := by
  induction steps generalizing s with
  | nil => exact ⟨[], rfl, rfl, by simp, by simp, fun _ h => h, fun _ h => h, by simp, by simp⟩
  | cons step rest ih =>
    have hnew' : ∀ step ∈ rest, step.IsNew := fun step h => hnew step (List.mem_cons_of_mem _ h)
    have hsound' : ∀ step ∈ rest, s.IsSound step :=
      fun step h => hsound step (List.mem_cons_of_mem _ h)
    have hfirst := hsound step List.mem_cons_self
    cases step with
    | report d =>
      obtain ⟨created, hok, hcompleted⟩ := ih hs hnew' hsound'
      exact ⟨created, hok, hcompleted.skip _⟩
    | stray object => exact hfirst.elim
    | create demand clash =>
      obtain ⟨hname, hown⟩ := hfirst
      have hpart : demand.part.IsNew := hnew (.create demand clash) List.mem_cons_self
      rcases hown.attach_cases hname with ⟨s₁, c, hattach⟩ | ⟨-, hattach⟩
      · have hh := attach_sameHierarchy hs hattach
        obtain ⟨created, hok, hcompleted⟩ :=
          ih (Coherent.change (.part hpart hattach) hs) hnew'
            fun step h => (hsound' step h).congr hh
        refine ⟨c :: created, ?_, ?_⟩
        · rw [carryOut, hattach, Outcome.result_after, Outcome.map, hok]
          rfl
        · rw [carryOut, hattach]
          exact hcompleted.cons hs hpart hattach
      · obtain ⟨created, hok, hcompleted⟩ := ih hs hnew' hsound'
        refine ⟨created, ?_, ?_⟩
        · rw [carryOut, hattach]
          exact hok
        · rw [carryOut, hattach]
          exact hcompleted.skip _

/-! ## Binding what was created -/

/-- A new name and members that can join are all that a net needs. -/
theorem addNet_completes {s : Store} {name : String} {members : List Handle} (hname : name ≠ "")
    (hfresh : s.nets.get? name = none) (hid : s.ids.get? (Kind.net.objectId name) = none)
    (hjoin : ∀ c ∈ members, s.CanJoin c) : ∃ s' net, s.addNet name members = .ok (s', net) := by
  have hgiven : name.isEmpty = false := by simpa using hname
  have hnew : s.nets.contains name = false := by simp [OrderedMap.contains, hfresh]
  have hfree : s.expectFree (Kind.net.objectId name) = .ok () := expectFree_eq_ok.2 hid
  have hall : (distinct members).forM s.expectJoinable = .ok () := by
    refine forM_eq_ok.2 fun c hc => expectJoinable_eq_ok.2 ?_
    exact hjoin c (mem_distinct.1 hc)
  unfold addNet
  simp only [hgiven, hnew, hfree, hall]
  exact ⟨_, _, rfl⟩

theorem joinObjects_completes {s : Store} (request : String) {signal : String}
    {objects : List Handle} (hname : signal ≠ "") (hfresh : s.nets.get? signal = none)
    (hid : s.ids.get? (Kind.net.objectId signal) = none) (hjoin : ∀ c ∈ objects, s.CanJoin c) :
    ∃ created, (s.joinObjects request signal objects).result = .ok created := by
  unfold joinObjects
  split
  · exact ⟨[], rfl⟩
  · obtain ⟨s', net, hnet⟩ := addNet_completes hname hfresh hid hjoin
    rw [hnet]
    exact ⟨objects, rfl⟩

/-- An object without a tag can be tagged. -/
theorem setAttribute_completes {s : Store} {c : Handle} (hc : s.IsUntagged c) (value : String) :
    s.setAttribute c "parameter" value true
      = .ok (s.write c "parameter" { value, constant := true }) := by
  obtain ⟨o, ho, htag⟩ := hc
  unfold setAttribute
  rw [expectObject_eq_ok.2 ho]
  simp [htag, bind, Except.bind, pure, Except.pure]

theorem write_isUntagged_of_ne {s : Store} {c c' : Handle} (hne : c ≠ c') (hc : s.IsUntagged c')
    (name : String) (a : Attribute) : (s.write c name a).IsUntagged c' := by
  obtain ⟨o, ho, htag⟩ := hc
  exact ⟨o, by rw [object?_write, if_neg hne, ho], htag⟩

/-- Distinct objects without a tag can all be tagged. -/
theorem tagAll_completes {s : Store} (name : String) {objects : List Handle}
    (hnodup : objects.Nodup) (huntagged : ∀ c ∈ objects, s.IsUntagged c) :
    (tagAll name s objects).result = .ok () := by
  induction objects generalizing s with
  | nil => rfl
  | cons c rest ih =>
    obtain ⟨hc, hrest⟩ := List.nodup_cons.1 hnodup
    rw [tagAll, setAttribute_completes (huntagged c List.mem_cons_self)]
    refine ih hrest fun c' hc' => write_isUntagged_of_ne ?_ (huntagged c' ?_) _ _
    · exact fun heq => hc (heq ▸ hc')
    · exact List.mem_cons_of_mem c hc'

theorem tagObjects_completes {s : Store} (request name : String) {objects : List Handle}
    (hnodup : objects.Nodup) (huntagged : ∀ c ∈ objects, s.IsUntagged c) :
    ∃ created, (s.tagObjects request name objects).result = .ok created := by
  unfold tagObjects
  split
  · exact ⟨[], rfl⟩
  · rw [Outcome.andThen_of_ok _ (tagAll_completes name hnodup huntagged)]
    exact ⟨objects, rfl⟩

end Store

/-! ## Plans are sound -/

namespace Task

open Store

section Hop

variable {t : Task} {s : Store} {above : Option String} {hop : Hop}

theorem ownName_ne (hname : t.nameAt hop ≠ "") (suffixed : String → String)
    (hsuffixed : ∀ n, suffixed n ≠ "") : t.ownName hop suffixed ≠ "" := by
  unfold ownName
  split
  · exact hname
  · exact hsuffixed _

variable (hname : t.nameAt hop ≠ "") (habove : ∀ n, above = some n → n ≠ "")

include hname

theorem sound_atModule {o : Object} {m : Module} (ho : s.object? hop.object = some o)
    (hm : o.body = .module m) (id : String) (habove : ∀ n, above = some n → n ≠ "") :
    (∀ step ∈ (t.atModule id m above hop).1, s.IsSound step) ∧
      (t.atModule id m above hop).2 ≠ "" := by
  have hframe := frame_of_module ho hm
  have hown := ownName_ne hname Naming.signalName fun n => Naming.withSuffix_ne n 's'
  unfold atModule
  split
  · rename_i name _
    refine ⟨fun step hstep => ?_, habove name rfl⟩
    rw [List.mem_singleton.1 hstep]
    exact ⟨habove name rfl, .module hframe rfl fun h => by cases h⟩
  · dsimp only
    split
    · refine ⟨fun step hstep => ?_, hown⟩
      rw [List.mem_singleton.1 hstep]
      trivial
    · rename_i hres
      refine ⟨fun step hstep => ?_, hown⟩
      rw [List.mem_singleton.1 hstep]
      exact ⟨hown, .module hframe rfl fun _ => Bool.eq_false_iff.2 hres⟩
  · rename_i name _
    refine ⟨fun step hstep => ?_, habove name rfl⟩
    rw [List.mem_singleton.1 hstep]
    exact ⟨habove name rfl, .module hframe rfl fun h => by cases h⟩
  · refine ⟨fun step hstep => ?_, hname⟩
    rw [List.mem_singleton.1 hstep]
    exact ⟨hname, .module hframe rfl fun h => by cases h⟩

theorem sound_atInstance {o : Object} {i : Instance} (ho : s.object? hop.object = some o)
    (hi : o.body = .inst i) (id : String) :
    (∀ step ∈ (t.atInstance id above hop).1, s.IsSound step) ∧
      (t.atInstance id above hop).2 ≠ "" := by
  have htarget : s.target .placement hop.object = some i.module :=
    target_eq_some_iff.2 ⟨o, ho, Object.target_placement_eq_some.2 ⟨i, hi, rfl⟩⟩
  have htop : ∀ step ∈ t.topInstance id above, s.IsSound step := by
    intro step hstep
    unfold topInstance at hstep
    cases above with
    | some name => cases hstep
    | none =>
      rcases List.mem_append.1 hstep with hstep | hstep
      · split at hstep
        · rw [List.mem_singleton.1 hstep]
          trivial
        · cases hstep
      · rw [List.mem_singleton.1 hstep]
        trivial
  unfold atInstance
  split
  · have hown := ownName_ne hname (fun n => Naming.pinName n hop.heading)
      fun n => Naming.withSuffix_ne _ _
    refine ⟨fun step hstep => ?_, hown⟩
    rcases List.mem_append.1 hstep with hstep | hstep
    · exact htop step hstep
    · rw [List.mem_singleton.1 hstep]
      exact ⟨hown, .inst htarget rfl⟩
  · refine ⟨fun step hstep => ?_, hname⟩
    rcases List.mem_append.1 hstep with hstep | hstep
    · exact htop step hstep
    · rw [List.mem_singleton.1 hstep]
      exact ⟨hname, .inst htarget rfl⟩

/-- The steps of a hop in the hierarchy are sound, and the name that is handed down is one. -/
theorem sound_atHop (hplace : (s.above? hop.object).isSome)
    (habove : ∀ n, above = some n → n ≠ "") :
    (∀ step ∈ (t.atHop s above hop).1, s.IsSound step) ∧ (t.atHop s above hop).2 ≠ "" := by
  obtain ⟨o, ho, ⟨m, hm, hsteps⟩ | ⟨i, hi, hsteps⟩⟩ := atHop_cases t above hplace
  · rw [hsteps]
    exact sound_atModule hname ho hm o.id habove
  · rw [hsteps]
    exact sound_atInstance hname ho hi o.id

end Hop

/-- The plan of a tree in the hierarchy, each hop of which has a name, is sound. -/
theorem sound_plan {t : Task} {s : Store} {tree : HopTree} (hh : tree.Hangs s)
    (hall : ∀ hop, tree.Passes hop → (s.above? hop.object).isSome ∧ t.nameAt hop ≠ "")
    {above : Option String} (habove : ∀ n, above = some n → n ≠ "") :
    ∀ step ∈ t.plan s above tree, s.IsSound step := by
  induction hh generalizing above with
  | @node hop branches _ _ _ ih =>
    obtain ⟨hplace, hname⟩ := hall hop .top
    obtain ⟨hsteps, hhanded⟩ := sound_atHop hname hplace habove
    intro step hstep
    rw [plan, planAll_eq_flatMap] at hstep
    rcases List.mem_append.1 hstep with hstep | hstep
    · exact hsteps step hstep
    · obtain ⟨b, hb, hstep⟩ := List.mem_flatMap.1 hstep
      refine ih b hb (fun hop' hp => hall hop' (.branch hb hp)) ?_ step hstep
      rintro n ⟨⟩
      exact hhanded

end Task

end Interconnect
