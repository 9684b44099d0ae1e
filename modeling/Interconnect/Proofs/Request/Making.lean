import Interconnect.Proofs.Request.Distinctness
import Interconnect.Proofs.Store.Mirroring

/-!
# What is made of the steps of a plan

Some steps of a plan report, some get their objects, and some find that the id of their object is
taken.  `Makes` is the trace of these choices: which of the steps have got which objects, from one
store to another.  It is a relation beside `carryOut`, so that what holds of the objects that were
created can be said of the steps that they were created for, even where other steps are skipped.

* What was there keeps its label and its place in the hierarchy (`Makes.extended`).
* An object is what its step asked for (`Makes.holds`).
* Under the id that a step asked for, there is an object, also if the step is skipped
  (`Makes.registered`).
* A clash of headings is reported with the objects of the steps that have one, and with no others
  (`Makes.clashes`).
-/

namespace Interconnect.Store

/-! ## Stores that have more objects -/

theorem describe_of_label? {s : Store} {h : Handle} {v : Label} (hv : s.label? h = some v) :
    s.describe h = v.id := by
  obtain ⟨o, ho, rfl⟩ := label?_eq_some_iff.1 hv
  rw [describe, idOf?, ho]
  rfl

theorem kind?_of_label? {s : Store} {h : Handle} {v : Label} (hv : s.label? h = some v) :
    s.kind? h = some v.kind := by
  obtain ⟨o, ho, rfl⟩ := label?_eq_some_iff.1 hv
  rw [kind?, ho]
  rfl

/-- What is in the one store is in the other under the same label. -/
def KeepsLabels (s s' : Store) : Prop :=
  ∀ h v, s.label? h = some v → s'.label? h = some v

namespace KeepsLabels

variable {s s' : Store} (h : KeepsLabels s s')

include h

theorem name? {c : Handle} {n : String} (hn : s.name? c = some n) : s'.name? c = some n := by
  obtain ⟨v, hv, rfl⟩ := Option.map_eq_some_iff.1 hn
  rw [Store.name?, h c v hv, Option.map_some]

theorem demandId {d : Demand} {n : String} (hn : s.name? d.owner = some n) :
    s'.demandId d = s.demandId d := by
  rw [Store.demandId, Store.demandId, h.name? hn, hn]

/-- What is found by its id is found by it later. -/
theorem objectById? (hs : s.Coherent) (hs' : s'.Coherent) {id : String} {c : Handle}
    (hid : s.objectById? id = some c) : s'.objectById? id = some c := by
  obtain ⟨v, hv, -, hkey⟩ := hs.ids.get?_eq_some_iff.1 hid
  exact hs'.ids.get?_eq_some_iff.2 ⟨v, h c v hv, trivial, hkey⟩

/-- So is a net by its name. -/
theorem netByName? (hs : s.Coherent) (hs' : s'.Coherent) {name : String} {net : Handle}
    (hnet : s.netByName? name = some net) : s'.netByName? name = some net := by
  obtain ⟨v, hv, hkind, hkey⟩ := hs.nets.get?_eq_some_iff.1 hnet
  exact hs'.nets.get?_eq_some_iff.2 ⟨v, h net v hv, hkind, hkey⟩

end KeepsLabels

/-- What is in the one store is in the other under the same label, and the hierarchies are the
same. -/
structure Extends (s s' : Store) : Prop where
  coherent : s'.Coherent
  hierarchy : SameHierarchy s s'
  label : ∀ {h : Handle} {v : Label}, s.label? h = some v → s'.label? h = some v

namespace Extends

variable {s s' s'' : Store}

theorem refl (hs : s.Coherent) : s.Extends s :=
  ⟨hs, .refl s, id⟩

theorem trans (h : s.Extends s') (h' : s'.Extends s'') : s.Extends s'' :=
  ⟨h'.coherent, h.hierarchy.trans h'.hierarchy, fun hv => h'.label (h.label hv)⟩

theorem keepsLabels (h : s.Extends s') : KeepsLabels s s' :=
  fun _ _ => h.label

theorem demandId (h : s.Extends s') {d : Demand} {n : String} (hn : s.name? d.owner = some n) :
    s'.demandId d = s.demandId d :=
  h.keepsLabels.demandId hn

/-- What is found by its id is found by it later. -/
theorem objectById? (h : s.Extends s') (hs : s.Coherent) {id : String} {c : Handle}
    (hid : s.objectById? id = some c) : s'.objectById? id = some c :=
  h.keepsLabels.objectById? hs h.coherent hid

end Extends

theorem attach_extends {s s' : Store} (hs : s.Coherent) {owner h : Handle} {name : String}
    {p : Part} (hnew : p.IsNew) (hok : s.attach owner name p = .ok (s', h)) : s.Extends s' := by
  refine ⟨Coherent.change (.part hnew hok) hs, attach_sameHierarchy hs hok, fun hv => ?_⟩
  obtain ⟨-, o, ho, hk, -, -, heq⟩ := attach_cases hok
  rw [show s' = (s.createPart o name p).1 by rw [heq],
    label?_createPart name (hs.handle_eq_of_object? ho) ho hk]
  exact label?_create_of_some hv

theorem addNet_extends {s s' : Store} (hs : s.Coherent) {name : String} {members : List Handle}
    {net : Handle} (hok : s.addNet name members = .ok (s', net)) : s.Extends s' := by
  refine ⟨Coherent.change (.net hok) hs, (joined_of_addNet hok).hierarchy, fun hv => ?_⟩
  obtain ⟨-, -, -, -, -, rfl⟩ := addNet_cases hok
  rw [label?_congr (outline?_enlistAll _ _ _ _ _)]
  exact label?_create_of_some hv

/-! ## The trace -/

/-- Which objects the steps get while they are carried out from the one store to the other.  Each
step comes with a mark, and so do the objects. -/
inductive Makes {α : Type} : Store → List (α × Step) → Store → List (α × Handle) → Prop where
  | nil {s : Store} : Makes s [] s []
  | report {s s' : Store} {x : α} {d : Diagnostic} {rest : List (α × Step)}
    {made : List (α × Handle)} : Makes s rest s' made → Makes s ((x, .report d) :: rest) s' made
  | create {s s₁ s' : Store} {x : α} {d : Demand} {clash : Bool} {h : Handle}
    {rest : List (α × Step)} {made : List (α × Handle)} :
    s.attach d.owner d.name d.part = .ok (s₁, h) → Makes s₁ rest s' made →
    Makes s ((x, .create d clash) :: rest) s' ((x, h) :: made)
  | skip {s s' : Store} {x : α} {d : Demand} {clash : Bool} {id : String} {rest : List (α × Step)}
    {made : List (α × Handle)} :
    s.attach d.owner d.name d.part = .error (.idExists id) → Makes s rest s' made →
    Makes s ((x, .create d clash) :: rest) s' made

/-- What the steps have got is what was created. -/
theorem exists_makes {α : Type} {request : String} {s : Store} {steps : List (α × Step)}
    {created : List Handle}
    (hok : (s.carryOut request (steps.map Prod.snd)).result = .ok created) :
    ∃ made, s.Makes steps (s.carryOut request (steps.map Prod.snd)).store made ∧
      made.map Prod.snd = created := by
  induction steps generalizing s created with
  | nil =>
    cases hok
    exact ⟨[], .nil, rfl⟩
  | cons first rest ih =>
    obtain ⟨x, step⟩ := first
    rw [List.map_cons] at hok ⊢
    rcases carryOut_cases hok with ⟨d, rfl, heq⟩ |
      ⟨d, clash, s₁, h, created', notices, rfl, hattach, hrest, rfl, heq⟩ |
      ⟨d, clash, id, rfl, hattach, heq⟩
    · rw [heq] at hok ⊢
      obtain ⟨made, hmakes, hmade⟩ := ih hok
      exact ⟨made, .report hmakes, hmade⟩
    · rw [heq]
      obtain ⟨made, hmakes, rfl⟩ := ih hrest
      exact ⟨(x, h) :: made, .create hattach hmakes, rfl⟩
    · rw [heq] at hok ⊢
      obtain ⟨made, hmakes, hmade⟩ := ih hok
      exact ⟨made, .skip hattach hmakes, hmade⟩

/-- The steps can be carried out: they ask for new parts, without parts of their own, at owners that
can own them. -/
structure Ready {α : Type} (s : Store) (steps : List (α × Step)) : Prop where
  coherent : s.Coherent
  new : ∀ x ∈ steps, x.2.IsNew
  sound : ∀ x ∈ steps, s.IsSound x.2
  leaf : ∀ x ∈ steps, ∀ d ∈ x.2.demand?, d.part.isLeaf = true

section Ready

variable {α : Type} {s : Store} {x : α × Step} {rest : List (α × Step)}

theorem Ready.tail (h : s.Ready (x :: rest)) : s.Ready rest where
  coherent := h.coherent
  new y hy := h.new y (List.mem_cons_of_mem x hy)
  sound y hy := h.sound y (List.mem_cons_of_mem x hy)
  leaf y hy := h.leaf y (List.mem_cons_of_mem x hy)

/-- Once a step has got its object, the store has more in it, and the other steps can be carried
out. -/
theorem Ready.attach {mark : α} {d : Demand} {clash : Bool} {s₁ : Store} {c : Handle}
    (h : s.Ready ((mark, .create d clash) :: rest))
    (hok : s.attach d.owner d.name d.part = .ok (s₁, c)) : s.Extends s₁ ∧ s₁.Ready rest := by
  have hnew : d.part.IsNew := h.new _ List.mem_cons_self
  have hextends := attach_extends h.coherent hnew hok
  refine ⟨hextends, hextends.coherent, h.tail.new, fun y hy => ?_, h.tail.leaf⟩
  exact (h.tail.sound y hy).congr hextends.hierarchy

end Ready

namespace Makes

variable {α : Type} {s s' : Store} {steps : List (α × Step)} {made : List (α × Handle)}
  (h : s.Makes steps s' made) (hready : s.Ready steps)

include h hready

/-- Carrying out steps adds to the store. -/
theorem extended : s.Extends s' := by
  induction h with
  | nil => exact .refl hready.coherent
  | report _ ih => exact ih hready.tail
  | create hattach _ ih =>
    obtain ⟨hextends, hrest⟩ := hready.attach hattach
    exact hextends.trans (ih hrest)
  | skip _ _ ih => exact ih hready.tail

/-- Parts without parts of their own stay as they are. -/
theorem keeps {c owner : Handle} {name : String} {q : Part} (hq : q.isLeaf = true)
    (hc : s.Holds c owner name q) : s'.Holds c owner name q := by
  induction h with
  | nil => exact hc
  | report _ ih => exact ih hready.tail hc
  | create hattach _ ih =>
    obtain ⟨-, hrest⟩ := hready.attach hattach
    exact ih hrest (attach_holds_of_holds hready.coherent hattach hq hc)
  | skip _ _ ih => exact ih hready.tail hc

/-- Each object is what its step asked for. -/
theorem holds : ∀ y ∈ made, ∃ d clash,
    (y.1, .create d clash) ∈ steps ∧ s'.Holds y.2 d.owner d.name d.part := by
  -- What is asked for later is asked for.
  have hlater : ∀ {s' : Store} {x : α × Step} {rest : List (α × Step)} {y : α × Handle},
      (∃ d clash, (y.1, .create d clash) ∈ rest ∧ s'.Holds y.2 d.owner d.name d.part) →
      ∃ d clash, (y.1, .create d clash) ∈ x :: rest ∧ s'.Holds y.2 d.owner d.name d.part :=
    fun ⟨d, clash, hmem, hholds⟩ => ⟨d, clash, List.mem_cons_of_mem _ hmem, hholds⟩
  induction h with
  | nil => nofun
  | report _ ih => exact fun y hy => hlater (ih hready.tail y hy)
  | @create s s₁ s' x d clash c rest made hattach hrest ih =>
    obtain ⟨-, hready'⟩ := hready.attach hattach
    intro y hy
    rcases List.mem_cons.1 hy with rfl | hy
    · obtain ⟨-, -, hholds⟩ := attach_holds hready.coherent hattach
      exact ⟨d, clash, List.mem_cons_self,
        hrest.keeps hready' (hready.leaf _ List.mem_cons_self d rfl) hholds⟩
    · exact hlater (ih hready' y hy)
  | skip _ _ ih => exact fun y hy => hlater (ih hready.tail y hy)

/-- Under the id that a step asked for there is an object, whether the step has got it or not. -/
theorem registered {mark : α} {d : Demand} {clash : Bool} (hmem : (mark, .create d clash) ∈ steps) :
    (s'.objectById? (s.demandId d)).isSome := by
  induction h with
  | nil => cases hmem
  | report _ ih => exact ih hready.tail (List.mem_of_ne_of_mem (by simp) hmem)
  | @create s s₁ s' x d' clash' c rest made hattach hrest ih =>
    obtain ⟨hextends, hready'⟩ := hready.attach hattach
    rcases List.mem_cons.1 hmem with heq | hmem
    · cases heq
      rw [(hrest.extended hready').objectById? hready'.coherent (objectById?_attach hattach),
        Option.isSome_some]
    · have hown : s.CanOwn d.owner d.part := (hready.tail.sound _ hmem).2
      obtain ⟨n, hn⟩ := Option.isSome_iff_exists.1 hown.isSome_name?
      rw [← hextends.demandId hn]
      exact ih hready' hmem
  | @skip s s' x d' clash' id rest made hattach hrest ih =>
    rcases List.mem_cons.1 hmem with heq | hmem
    · cases heq
      obtain ⟨hname, hown⟩ := hready.sound _ List.mem_cons_self
      rcases hown.attach_cases hname with ⟨s₁, c, hok⟩ | ⟨htaken, -⟩
      · rw [hattach] at hok
        cases hok
      · obtain ⟨c, hc⟩ := Option.ne_none_iff_exists'.1 htaken
        rw [(hrest.extended hready.tail).objectById? hready.coherent hc, Option.isSome_some]
    · exact ih hready.tail hmem

end Makes

/-! ## Clashes of headings -/

/-- The object is a port or a pin. -/
def isAtBoundary (s : Store) (h : Handle) : Bool :=
  s.kind? h = some .port || s.kind? h = some .pin

/-- What is reported of the clashes of headings: each port and each pin that was made for a mark
with a clash, once and in their order. -/
def clashReports {α : Type} (s : Store) (request : String) (clashed : α → Bool)
    (made : List (α × Handle)) : List Diagnostic :=
  (made.filter fun y => clashed y.1 && s.isAtBoundary y.2).map
    fun y => Report.headingClash request (s.describe y.2)

/-- Each of these reports is a W300, and is about the port or the pin. -/
theorem map_clashReports {α : Type} (s : Store) (request : String) (clashed : α → Bool)
    (made : List (α × Handle)) :
    (s.clashReports request clashed made).map (fun d => (d.code, d.subject))
      = (made.filter fun y => clashed y.1 && s.isAtBoundary y.2).map
          fun y => (⟨.warning, 300⟩, some (s.describe y.2)) := by
  rw [clashReports, List.map_map]
  rfl

/-- The clashes of headings among some diagnostics. -/
def clashesOf (ds : List Diagnostic) : List Diagnostic :=
  ds.filter fun d => d.code = Report.warningCode 300

theorem clashesOf_append (ds ds' : List Diagnostic) :
    clashesOf (ds ++ ds') = clashesOf ds ++ clashesOf ds' :=
  List.filter_append ds ds'

/-- Diagnostics of other codes are no clashes. -/
theorem clashesOf_eq_nil {ds : List Diagnostic} (h : ∀ d ∈ ds, d.code ≠ Report.warningCode 300) :
    clashesOf ds = [] :=
  List.filter_eq_nil_iff.2 fun d hd => by simpa using h d hd

/-- A part stays what it is, under its id. -/
theorem Extends.shows {s s' : Store} (h : s.Extends s') {c owner : Handle} {name : String}
    {p : Part} (hc : s.Holds c owner name p) :
    s'.describe c = s.describe c ∧
      s'.isAtBoundary c = (p.kind = .port || p.kind = .pin) := by
  obtain ⟨o, ho, -, hbody⟩ := hc
  have hv := label?_of_object? ho
  have hkind : s'.kind? c = some p.kind := by
    rw [kind?_of_label? (h.label hv), show o.outline.kind = o.kind from rfl, Object.kind, hbody,
      Body.kind]
  refine ⟨?_, ?_⟩
  · rw [describe_of_label? (h.label hv), describe_of_label? hv]
  · simp only [isAtBoundary, hkind, Option.some.injEq]

/-- The step tells clashes of headings as its mark does, with ports and pins only.  A diagnostic of
its own is not about a clash. -/
def TellsClash (clashed : Bool) : Step → Prop
  | .create d clash => clash = (clashed && (d.part.kind = .port || d.part.kind = .pin))
  | .report d => d.code ≠ Report.warningCode 300
  | .stray _ => True

/-- Clashes are reported with the ports and pins that were made for a mark with one, and with
nothing else. -/
theorem Makes.clashes {α : Type} {s s' : Store} {steps : List (α × Step)}
    {made : List (α × Handle)} (h : s.Makes steps s' made) (hready : s.Ready steps)
    (request : String) {clashed : α → Bool} (htells : ∀ x ∈ steps, TellsClash (clashed x.1) x.2)
    {final : Store} (hfinal : s'.Extends final) :
    clashesOf (Notice.diagnostics (s.carryOut request (steps.map Prod.snd)).notices)
      = final.clashReports request clashed made := by
  induction h with
  | nil => rfl
  | @report s s' x d rest made _ ih =>
    obtain ⟨hcode, hrest⟩ := List.forall_mem_cons.1 htells
    have hnone : clashesOf (Notice.diagnostics [.diagnostic d]) = [] :=
      clashesOf_eq_nil fun d' hd' => by rwa [List.mem_singleton.1 hd']
    rw [List.map_cons, carryOut, Outcome.notices_after, diagnostics_append, clashesOf_append,
      hnone, List.nil_append, ih hready.tail hrest hfinal]
  | @create s s₁ s' x d clash c rest made hattach hmakes ih =>
    obtain ⟨hsaid, hrest⟩ := List.forall_mem_cons.1 htells
    obtain ⟨-, hready'⟩ := hready.attach hattach
    obtain ⟨-, -, hholds⟩ := attach_holds hready.coherent hattach
    obtain ⟨hdescribe, hboundary⟩ :=
      Extends.shows ((hmakes.extended hready').trans hfinal) hholds
    rw [List.map_cons, carryOut, hattach]
    dsimp only at hsaid ⊢
    rw [Outcome.notices_after, Outcome.notices_map, diagnostics_append, clashesOf_append,
      ih hready' hrest hfinal, clashReports, clashReports, List.filter_cons, hboundary, ← hsaid]
    cases clash with
    | true =>
      rw [if_pos rfl, if_pos rfl, List.map_cons, hdescribe]
      rfl
    | false => rfl
  | @skip s s' x d clash id rest made hattach _ ih =>
    obtain ⟨-, hrest⟩ := List.forall_mem_cons.1 htells
    rw [List.map_cons, carryOut, hattach]
    dsimp only
    rw [Outcome.notices_after, diagnostics_append, clashesOf_append, ih hready.tail hrest hfinal]
    rfl

end Interconnect.Store
