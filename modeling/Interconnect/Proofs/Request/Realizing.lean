import Interconnect.Proofs.Request.Planning

/-!
# What carrying out a plan creates

Unless an id is taken, each step that creates an object gets it, and keeps it: `Holds` says
that the object is there, with its owner, its name and its part.  Neither the steps nor the
net that the objects join change the hierarchy.
-/

namespace Interconnect

/-- The numbers of the errors that the hops of a task can have. -/
def Task.errors (t : Task) : List UInt16 :=
  match t.mode with
  | .signal => [300, 301, 302]
  | .parameter .. => [300, 301, 303]

namespace Store

/-- The part lies under the handle. -/
def Holds (s : Store) (c owner : Handle) (name : String) (p : Part) : Prop :=
  ∃ o, s.object? c = some o ∧ o.name = name ∧ o.body = .part owner p

/-- An object is under one handle only what it is. -/
theorem Holds.unique {s : Store} {c owner owner' : Handle} {name name' : String} {p p' : Part}
    (h : s.Holds c owner name p) (h' : s.Holds c owner' name' p') :
    owner = owner' ∧ name = name' ∧ p = p' := by
  obtain ⟨o, ho, hname, hbody⟩ := h
  obtain ⟨o', ho', hname', hbody'⟩ := h'
  rw [ho] at ho'
  cases ho'
  rw [hbody] at hbody'
  cases hbody'
  exact ⟨rfl, hname.symm.trans hname', rfl⟩

/-- The stores have the same modules and instances in the same places. -/
structure SameHierarchy (s s' : Store) : Prop where
  frame : s'.frame = s.frame
  child : s'.target .child = s.target .child
  placement : s'.target .placement = s.target .placement

theorem SameHierarchy.refl (s : Store) : SameHierarchy s s :=
  ⟨rfl, rfl, rfl⟩

theorem SameHierarchy.trans {s s' s'' : Store} (h : SameHierarchy s s')
    (h' : SameHierarchy s' s'') : SameHierarchy s s'' :=
  ⟨h'.frame.trans h.frame, h'.child.trans h.child, h'.placement.trans h.placement⟩

/-! ## Adding a part -/

/-- A part that has no parts of its own adopts none. -/
theorem body_adopt_of_isLeaf {owner : Handle} {q : Part} (hq : q.isLeaf = true) (p : Part)
    (c : Handle) : (Body.part owner q).adopt p c = .part owner q := by
  cases q <;> first | rfl | cases hq

section Attach

variable {s s' : Store} {owner h : Handle} {name : String} {p : Part}

/-- A part that was added lies under the next handle. -/
theorem attach_holds (hs : s.Coherent) (hok : s.attach owner name p = .ok (s', h)) :
    h = s.size ∧ s'.size = s.size + 1 ∧ s'.Holds h owner name p := by
  obtain ⟨-, o, ho, -, -, -, heq⟩ := attach_cases hok
  have hhandle := hs.handle_eq_of_object? ho
  have hlt : owner < s.size := lt_size_of_outline? (outline?_of_object? ho)
  have hstore : s' = (s.createPart o name p).1 := by rw [heq]
  have hh : h = s.size := by
    rw [show h = (s.createPart o name p).2 by rw [heq]]
    rfl
  rw [createPart_eq name hhandle] at hstore
  subst hstore hh
  refine ⟨rfl, by rw [size_modify, size_create], ?_⟩
  refine ⟨s.created (o.name ++ "." ++ name) name (.part owner p)
    (p.details ++ [("parent", o.id)]), ?_, rfl, rfl⟩
  rw [object?_modify, if_neg (Nat.ne_of_lt hlt), object?_create_self]
  rfl

/-- Parts without parts of their own stay as they are when a part is added. -/
theorem attach_holds_of_holds (hs : s.Coherent) (hok : s.attach owner name p = .ok (s', h))
    {c owner' : Handle} {name' : String} {q : Part} (hq : q.isLeaf = true)
    (hc : s.Holds c owner' name' q) : s'.Holds c owner' name' q := by
  obtain ⟨-, o, ho, -, -, -, heq⟩ := attach_cases hok
  have hhandle := hs.handle_eq_of_object? ho
  have hstore : s' = (s.createPart o name p).1 := by rw [heq]
  rw [createPart_eq name hhandle] at hstore
  subst hstore
  obtain ⟨x, hx, hname, hbody⟩ := hc
  have hx' := object?_create_owner name hx (o.name ++ "." ++ name) (.part owner p)
    (p.details ++ [("parent", o.id)])
  by_cases hco : owner = c
  · refine ⟨x.adopt p s.size, ?_, hname, ?_⟩
    · rw [object?_modify, if_pos hco, hx', Option.map_some]
    · show x.body.adopt p s.size = _
      rw [hbody, body_adopt_of_isLeaf hq]
  · exact ⟨x, by rw [object?_modify, if_neg hco, hx'], hname, hbody⟩

theorem attach_sameHierarchy (hs : s.Coherent) (hok : s.attach owner name p = .ok (s', h)) :
    SameHierarchy s s' := by
  obtain ⟨-, o, ho, hk, -, -, heq⟩ := attach_cases hok
  have hhandle := hs.handle_eq_of_object? ho
  have hstore : s' = (s.createPart o name p).1 := by rw [heq]
  subst hstore
  refine ⟨frame_createPart name hhandle ho hk, ?_, ?_⟩
  · rw [target_createPart name hhandle ho hk, if_neg (by simp)]
  · rw [target_createPart name hhandle ho hk, if_neg (by simp)]

end Attach

/-! ## Carrying out steps -/

theorem diagnostics_append (notices notices' : List Notice) :
    Notice.diagnostics (notices ++ notices')
      = Notice.diagnostics notices ++ Notice.diagnostics notices' :=
  List.filterMap_append

theorem mem_diagnostics {notices notices' : List Notice} {d : Diagnostic} :
    d ∈ Notice.diagnostics (notices ++ notices') ↔
      d ∈ Notice.diagnostics notices ∨ d ∈ Notice.diagnostics notices' := by
  rw [diagnostics_append, List.mem_append]

theorem diagnostics_map (ds : List Diagnostic) :
    Notice.diagnostics (ds.map .diagnostic) = ds := by
  rw [Notice.diagnostics, List.filterMap_map]
  exact List.filterMap_some

/-- Steps that report do nothing else. -/
theorem carryOut_reports (request : String) (s : Store) (reports : List Diagnostic)
    (rest : List Step) :
    s.carryOut request (reports.map .report ++ rest)
      = (s.carryOut request rest).after (reports.map .diagnostic) := by
  induction reports with
  | nil => rfl
  | cons d others ih =>
    rw [List.map_cons, List.cons_append, carryOut, ih]
    rfl

/-- What carrying out a first step and the rest can do, if it succeeds: the step reports, or it
gets its object, or the id of its object is taken. -/
theorem carryOut_cases {request : String} {s : Store} {step : Step} {rest : List Step}
    {created : List Handle} (hok : (s.carryOut request (step :: rest)).result = .ok created) :
    (∃ d, step = .report d ∧
      s.carryOut request (step :: rest) = (s.carryOut request rest).after [.diagnostic d]) ∨
    (∃ demand clash s₁ h created' notices, step = .create demand clash ∧
      s.attach demand.owner demand.name demand.part = .ok (s₁, h) ∧
      (s₁.carryOut request rest).result = .ok created' ∧ created = h :: created' ∧
      s.carryOut request (step :: rest)
        = ((s₁.carryOut request rest).map (h :: ·)).after notices) ∨
    ∃ demand clash id, step = .create demand clash ∧
      s.attach demand.owner demand.name demand.part = .error (.idExists id) ∧
      s.carryOut request (step :: rest)
        = (s.carryOut request rest).after [.diagnostic (Report.idTaken request id)] := by
  cases step with
  | report d => exact Or.inl ⟨d, rfl, rfl⟩
  | stray object => cases hok
  | create demand clash =>
    rw [carryOut] at hok ⊢
    split at hok
    · rename_i s₁ h hattach
      refine Or.inr (Or.inl ?_)
      rw [Outcome.result_after, Outcome.map] at hok
      cases hrest : (s₁.carryOut request rest).result with
      | error e =>
        rw [hrest] at hok
        cases hok
      | ok created' =>
        rw [hrest] at hok
        cases hok
        exact ⟨demand, clash, s₁, h, created', _, rfl, hattach, hrest, rfl, rfl⟩
    · rename_i id hattach
      exact Or.inr (Or.inr ⟨demand, clash, id, rfl, hattach, rfl⟩)
    · cases hok
    · cases hok

/-- What a step reports is among the diagnostics. -/
theorem mem_diagnostics_of_report {request : String} {s : Store} {steps : List Step}
    {created : List Handle} (hok : (s.carryOut request steps).result = .ok created)
    {d : Diagnostic} (hd : .report d ∈ steps) :
    d ∈ Notice.diagnostics (s.carryOut request steps).notices := by
  induction steps generalizing s created with
  | nil => cases hd
  | cons step rest ih =>
    rcases carryOut_cases hok with ⟨d', rfl, heq⟩ |
      ⟨demand, clash, s₁, h, created', notices, rfl, -, hrest, -, heq⟩ |
      ⟨demand, clash, id, rfl, -, heq⟩
    · rw [heq] at hok ⊢
      rw [Outcome.notices_after, mem_diagnostics]
      rcases List.mem_cons.1 hd with hd | hd
      · cases hd
        exact Or.inl List.mem_cons_self
      · exact Or.inr (ih hok hd)
    · rw [heq, Outcome.notices_after, Outcome.notices_map, mem_diagnostics]
      exact Or.inr (ih hrest ((List.mem_cons.1 hd).resolve_left (by simp)))
    · rw [heq] at hok ⊢
      rw [Outcome.notices_after, mem_diagnostics]
      exact Or.inr (ih hok ((List.mem_cons.1 hd).resolve_left (by simp)))

/-- A step that is carried out reports or creates. -/
theorem report_or_creates {request : String} {s : Store} {steps : List Step}
    {created : List Handle} (hok : (s.carryOut request steps).result = .ok created) {step : Step}
    (hstep : step ∈ steps) : (∃ d, step = .report d) ∨ step.Creates := by
  induction steps generalizing s created with
  | nil => cases hstep
  | cons step' rest ih =>
    rcases carryOut_cases hok with ⟨d', rfl, heq⟩ |
      ⟨demand, clash, s₁, h, created', notices, rfl, -, hrest, -, -⟩ |
      ⟨demand, clash, id, rfl, -, heq⟩
    · rcases List.mem_cons.1 hstep with rfl | hstep
      · exact Or.inl ⟨d', rfl⟩
      · rw [heq] at hok
        exact ih hok hstep
    · rcases List.mem_cons.1 hstep with rfl | hstep
      · exact Or.inr rfl
      · exact ih hrest hstep
    · rcases List.mem_cons.1 hstep with rfl | hstep
      · exact Or.inr rfl
      · rw [heq] at hok
        exact ih hok hstep

/-- What has happened once every demand has got its object. -/
structure CarriedOut (s s' : Store) (demands : List Demand) (created : List Handle) : Prop where
  coherent : s'.Coherent
  hierarchy : SameHierarchy s s'
  holds : List.Forall₂ (fun d c => s'.Holds c d.owner d.name d.part) demands created
  kept : ∀ {c owner : Handle} {name : String} {q : Part}, q.isLeaf = true →
    s.Holds c owner name q → s'.Holds c owner name q
  fresh : ∀ c ∈ created, s.size ≤ c
  nodup : created.Nodup

/-- Unless an id is taken, every demand gets its object. -/
theorem carriedOut_of_ok {request : String} {s : Store} (hs : s.Coherent) {steps : List Step}
    {created : List Handle} (hok : (s.carryOut request steps).result = .ok created)
    (hfree : ∀ d ∈ Notice.diagnostics (s.carryOut request steps).notices,
      d.code ≠ Report.errorCode 300)
    (hnew : ∀ step ∈ steps, step.IsNew)
    (hleaf : ∀ d ∈ steps.filterMap Step.demand?, d.part.isLeaf = true) :
    CarriedOut s (s.carryOut request steps).store (steps.filterMap Step.demand?) created := by
  induction steps generalizing s created with
  | nil =>
    cases hok
    exact ⟨hs, .refl s, .nil, fun _ h => h, by simp, List.nodup_nil⟩
  | cons step rest ih =>
    have hnew' : ∀ step ∈ rest, step.IsNew := fun step hstep => hnew step (by simp [hstep])
    rcases carryOut_cases hok with ⟨d', rfl, heq⟩ |
      ⟨demand, clash, s₁, h, created', notices, rfl, hattach, hrest, rfl, heq⟩ |
      ⟨demand, clash, id, rfl, -, heq⟩
    · rw [heq] at hok hfree ⊢
      exact ih hs hok (fun d hd => hfree d (mem_diagnostics.2 (Or.inr hd))) hnew' hleaf
    · rw [heq] at hfree ⊢
      have hcoherent : s₁.Coherent :=
        Coherent.change (.part (hnew (.create demand clash) (by simp)) hattach) hs
      have hdemand : demand.part.isLeaf = true := hleaf demand (by simp [Step.demand?])
      obtain ⟨hh, hsize, hholds⟩ := attach_holds hs hattach
      have hcarried := ih hcoherent hrest (fun d hd => hfree d (mem_diagnostics.2 (Or.inr hd)))
        hnew' fun d hd => hleaf d (by simp [Step.demand?, hd])
      show CarriedOut s _ (demand :: rest.filterMap Step.demand?) (h :: created')
      refine
        { coherent := hcarried.coherent
          hierarchy := (attach_sameHierarchy hs hattach).trans hcarried.hierarchy
          holds := .cons (hcarried.kept hdemand hholds) hcarried.holds
          kept := fun hq hc => hcarried.kept hq (attach_holds_of_holds hs hattach hq hc)
          fresh := ?_
          nodup := ?_ }
      · intro c hc
        rcases List.mem_cons.1 hc with rfl | hc
        · exact Nat.le_of_eq hh.symm
        · have hle := hcarried.fresh c hc
          omega
      · refine List.nodup_cons.2 ⟨fun hmem => ?_, hcarried.nodup⟩
        have hle := hcarried.fresh h hmem
        rw [hh, hsize] at hle
        exact absurd hle (Nat.not_succ_le_self s.size)
    · have hcode := hfree (Report.idTaken request id) (by
        rw [heq, Outcome.notices_after, mem_diagnostics]
        exact Or.inl List.mem_cons_self)
      exact absurd rfl hcode

/-- Where no error is reported, every step of the plan creates, and every demand gets its object. -/
theorem carriedOut_of_realize {s : Store} (hs : s.Coherent) {t : Task} {tree : HopTree}
    {created : List Handle} (hok : (s.realize t tree).result = .ok created)
    (hquiet : ∀ d ∈ Notice.diagnostics (s.realize t tree).notices,
      ∀ n ∈ t.errors, d.code ≠ Report.errorCode n) :
    t.Clean s none tree ∧
      CarriedOut s (s.realize t tree).store (t.demands s none tree) created := by
  have hclean : t.Clean s none tree := by
    intro step hstep
    rcases report_or_creates hok hstep with ⟨d, rfl⟩ | hcreates
    · have hmem := mem_diagnostics_of_report hok hstep
      obtain ⟨id, rfl | ⟨hmode, rfl⟩ | ⟨hmode, rfl⟩⟩ := Task.report_of_mem_plan hstep
      · exact absurd rfl (hquiet _ hmem 301 (by unfold Task.errors; split <;> simp))
      · exact absurd rfl (hquiet _ hmem 302 (by simp [Task.errors, hmode]))
      · exact absurd rfl (hquiet _ hmem 303 (by unfold Task.errors; split <;> simp_all))
    · exact hcreates
  refine ⟨hclean, carriedOut_of_ok hs hok (fun d hd => ?_) (isNew_plan t s none tree)
    fun d hd => ?_⟩
  · exact hquiet d hd 300 (by unfold Task.errors; split <;> simp)
  · obtain ⟨hop, -, above, hwants⟩ := exists_left_of_mem (Task.demands_wanted tree hclean) hd
    exact hwants.isLeaf

/-! ## Joining a net -/

theorem mem_distinct {members : List Handle} {c : Handle} :
    c ∈ distinct members ↔ c ∈ members := by
  induction members with
  | nil => simp [distinct]
  | cons h rest ih =>
    unfold distinct
    simp only [List.mem_cons, List.mem_filter, ih, decide_eq_true_eq]
    by_cases hc : c = h
    · simp [hc]
    · simp [hc]

/-- Handles that are distinct already stay as they are. -/
theorem distinct_eq_self {members : List Handle} (h : members.Nodup) :
    distinct members = members := by
  induction members with
  | nil => rfl
  | cons x rest ih =>
    obtain ⟨hx, hrest⟩ := List.nodup_cons.1 h
    unfold distinct
    rw [ih hrest, List.filter_eq_self.2]
    intro y hy
    have hne : y ≠ x := fun heq => hx (heq ▸ hy)
    simpa using hne

/-- A part is in the net if it is the one that joins, and it is as it was otherwise. -/
theorem enlist_holds {s : Store} {c owner : Handle} {given : String} {q : Part}
    (hc : s.Holds c owner given q) (net : Handle) (name id : String) (h : Handle) :
    (enlist net name id s h).Holds c owner given (if c = h then q.joined net else q) := by
  obtain ⟨x, hx, hname, hbody⟩ := hc
  obtain ⟨y, hy, hname', hbody'⟩ := exists_enlisted hx net name id h
  refine ⟨y, hy, hname'.trans hname, ?_⟩
  rw [hbody']
  split
  · unfold joinNet
    rw [hbody]
  · rw [hbody]

theorem joined_joined (net : Handle) (q : Part) : (q.joined net).joined net = q.joined net := by
  cases q <;> rfl

theorem enlistAll_holds {s : Store} {c owner : Handle} {given : String} {q : Part}
    (hc : s.Holds c owner given q) (net : Handle) (name id : String) (members : List Handle) :
    (members.foldl (enlist net name id) s).Holds c owner given
      (if c ∈ members then q.joined net else q) := by
  induction members generalizing s q with
  | nil => simpa using hc
  | cons h rest ih =>
    rw [List.foldl_cons]
    have hrest := ih (enlist_holds hc net name id h)
    by_cases hh : c = h
    · subst hh
      by_cases hmem : c ∈ rest
      · simpa [hmem, joined_joined] using hrest
      · simpa [hmem] using hrest
    · simpa [hh] using hrest

/-- A net keeps its members while parts join. -/
theorem enlistAll_net {s : Store} {c : Handle} {listed : List Handle}
    (hc : ∃ o, s.object? c = some o ∧ o.body = .net listed) (net : Handle) (name id : String)
    (members : List Handle) :
    ∃ o, (members.foldl (enlist net name id) s).object? c = some o ∧ o.body = .net listed := by
  induction members generalizing s with
  | nil => exact hc
  | cons h rest ih =>
    obtain ⟨o, ho, hbody⟩ := hc
    obtain ⟨y, hy, -, hbody'⟩ := exists_enlisted ho net name id h
    refine ih ⟨y, hy, ?_⟩
    rw [hbody']
    split
    · unfold joinNet
      rw [hbody]
      exact hbody
    · exact hbody

/-- What joining parts into a net does. -/
structure Joined (s s' : Store) (name : String) (net : Handle) (members : List Handle) :
    Prop where
  found : s'.netByName? name = some net
  object : ∃ o, s'.object? net = some o ∧ o.body = .net (distinct members)
  hierarchy : SameHierarchy s s'
  holds : ∀ {c owner : Handle} {given : String} {q : Part}, c ∈ members →
    s.Holds c owner given q → s'.Holds c owner given (q.joined net)

theorem joined_of_addNet {s s' : Store} {name : String} {members : List Handle} {net : Handle}
    (hok : s.addNet name members = .ok (s', net)) : Joined s s' name net members := by
  obtain ⟨-, -, -, -, rfl, rfl⟩ := addNet_cases hok
  have houtline := outline?_enlistAll s.size name (Kind.net.objectId name)
    (s.create name name (.net (distinct members)) []).1 (distinct members)
  constructor
  case found =>
    rw [netByName?, (sameIndices_enlistAll _ _ _ _ _).nets]
    exact OrderedMap.get?_insert_self _ _ _
  case object =>
    exact enlistAll_net ⟨_, object?_create_self s name name _ [], rfl⟩ _ _ _ _
  case hierarchy =>
    refine ⟨?_, ?_, ?_⟩
    · rw [frame_congr houtline, frame_create_of_none rfl]
    · rw [target_congr houtline, target_create_of_none rfl]
    · rw [target_congr houtline, target_create_of_none rfl]
  case holds =>
    rintro c owner given q hc ⟨o, ho, hname, hbody⟩
    have hlt : c < s.size := lt_size_of_outline? (outline?_of_object? ho)
    have hcreate : (s.create name name (.net (distinct members)) []).1.Holds c owner given q :=
      ⟨o, by rw [object?_create_of_ne s _ _ _ _ (Nat.ne_of_lt hlt), ho], hname, hbody⟩
    have hjoined := enlistAll_holds hcreate s.size name (Kind.net.objectId name)
      (distinct members)
    rwa [if_pos (mem_distinct.2 hc)] at hjoined

end Store

end Interconnect
