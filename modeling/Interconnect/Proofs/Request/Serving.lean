import Interconnect.Proofs.Procedure.Realization
import Interconnect.Proofs.Request.Asking

/-!
# Hops are served one after the other

What the hops of a tree ask for is known before any of them is served.  Each one gets its object if
the id is free at that time, and is reported and skipped if it is not.  `Serves` is the run of such
steps, and `realize_serves` says that realizing a tree is one.  The errors that it reports tell the
hops that got nothing, one by one (`refusals`).
-/

namespace Interconnect

namespace Store

/-- Hops are served from the one store to the other.  Each gets an object or nothing, and what is
reported on the way is listed. -/
inductive Serves (request : String) :
    Store → List Ask → Store → List (Option Handle) → List Diagnostic → Prop where
  | nil {s : Store} : Serves request s [] s [] []
  /-- The id is free. -/
  | create {s s₁ s' : Store} {a : Ask} {h : Handle} {rest : List Ask}
    {answers : List (Option Handle)} {reports : List Diagnostic} :
    a.barred = false → s.objectById? a.id = none →
    s.attach a.demand.owner a.demand.name a.demand.part = .ok (s₁, h) →
    Serves request s₁ rest s' answers reports →
    Serves request s (a :: rest) s' (some h :: answers)
      (a.remarks ++ ((if a.clash then [Report.headingClash request a.id] else []) ++ reports))
  /-- The id is taken. -/
  | skip {s s' : Store} {a : Ask} {rest : List Ask} {answers : List (Option Handle)}
    {reports : List Diagnostic} :
    a.barred = false → (s.objectById? a.id).isSome → Serves request s rest s' answers reports →
    Serves request s (a :: rest) s' (none :: answers)
      (a.remarks ++ Report.idTaken request a.id :: reports)
  /-- The hop is barred. -/
  | bar {s s' : Store} {a : Ask} {rest : List Ask} {answers : List (Option Handle)}
    {reports : List Diagnostic} :
    a.barred = true → Serves request s rest s' answers reports →
    Serves request s (a :: rest) s' (none :: answers)
      (a.remarks ++ Report.resourceContent request "declaration" a.site.id :: reports)

/-! ## What stays -/

/-- What is fixed stays when parts are added. -/
theorem Framed.site? {s s' : Store} {created : List Handle} (h : Framed s s' created) {x : Handle}
    {site : Site} (hsite : s.site? x = some site) : s'.site? x = some site := by
  obtain ⟨o, ho, hsite⟩ := Option.bind_eq_some_iff.1 hsite
  obtain ⟨b, hb, hgains⟩ := h.kept x o ho
  refine Option.bind_eq_some_iff.2 ⟨_, hb, ?_⟩
  obtain ⟨handle, id, name, attributes, body⟩ := o
  cases hgains with
  | module hm =>
    cases hsite
    simp [Object.site?, hm.resource]
  | inst hi => exact hsite
  | net | part => exact hsite

end Store

namespace Ask

open Store

theorem Fits.demandId {a : Ask} {s : Store} (h : a.Fits s) : s.demandId a.demand = a.id := by
  obtain ⟨o, ho, hsite⟩ := Option.bind_eq_some_iff.1 h.site
  have hname : o.name = a.site.name := by
    obtain ⟨handle, id, name, attributes, body⟩ := o
    cases body with
    | module m => rw [← Option.some.inj hsite]
    | inst i => rw [← Option.some.inj hsite]
    | net | part => cases hsite
  rw [Store.demandId, name?_of_object? ho, Option.getD_some, hname, Ask.id]

/-- What can be met can be met after another hop has got its object. -/
theorem Fits.attach {a b : Ask} {s s' : Store} (h : b.Fits s) (hs : s.Coherent)
    (ha : a.demand.part.isRequested = true) {c : Handle}
    (hok : s.attach a.demand.owner a.demand.name a.demand.part = .ok (s', c)) : b.Fits s' where
  site := (Framed.attach hs ha hok).2.site? h.site
  named := h.named
  new := h.new
  requested := h.requested
  owns hbarred := (h.owns hbarred).congr (attach_sameHierarchy hs hok)
  remarks := h.remarks

end Ask

namespace Store

/-- What is found by an id is shown by it. -/
theorem Coherent.describe_of_objectById? {s : Store} (hs : s.Coherent) {id : String} {h : Handle}
    (hid : s.objectById? id = some h) : s.describe h = id := by
  obtain ⟨v, hv, -, rfl⟩ := hs.ids.get?_eq_some_iff.1 hid
  exact describe_of_label? hv

theorem diagnostics_event (e : Event) (notices : List Notice) :
    Notice.diagnostics (.event e :: notices) = Notice.diagnostics notices :=
  rfl

/-- Hops whose asks can be met are served. -/
theorem carryOut_serves {s : Store} (hs : s.Coherent) (request : String) {asks : List Ask}
    (hfits : ∀ a ∈ asks, a.Fits s) :
    ∃ answers, (s.carryOut request (asks.flatMap (Ask.steps request))).result
        = .ok (answers.filterMap id) ∧
      Serves request s asks (s.carryOut request (asks.flatMap (Ask.steps request))).store answers
        (Notice.diagnostics (s.carryOut request (asks.flatMap (Ask.steps request))).notices) := by
  induction asks generalizing s with
  | nil => exact ⟨[], rfl, .nil⟩
  | cons a rest ih =>
    obtain ⟨ha, hrest⟩ := List.forall_mem_cons.1 hfits
    rw [List.flatMap_cons, Ask.steps, List.append_assoc, carryOut_reports, List.singleton_append,
      Outcome.store_after, Outcome.result_after, Outcome.notices_after, diagnostics_append,
      diagnostics_map]
    cases hbarred : a.barred with
    | true =>
      obtain ⟨answers, hresult, hserves⟩ := ih hs hrest
      exact ⟨none :: answers, hresult, .bar hbarred hserves⟩
    | false =>
      have hid := ha.demandId
      rw [if_neg Bool.false_ne_true, carryOut]
      rcases (ha.owns hbarred).attach_cases ha.named with ⟨s₁, h, hok⟩ | ⟨htaken, hok⟩
      · have hcoherent : s₁.Coherent := Coherent.change (.part ha.new hok) hs
        have hshown : s₁.describe h = a.id := by
          rw [hcoherent.describe_of_objectById? (objectById?_attach hok), ha.demandId]
        obtain ⟨answers, hresult, hserves⟩ := ih hcoherent fun b hb =>
          (hrest b hb).attach hs ha.requested hok
        have hfree : s.objectById? a.id = none := by
          rw [← ha.demandId]
          exact free_of_attach hok
        rw [hok]
        dsimp only
        refine ⟨some h :: answers, ?_, ?_⟩
        · rw [Outcome.result_after, Outcome.map, hresult]
          rfl
        · rw [Outcome.store_after, Outcome.store_map, Outcome.notices_after, Outcome.notices_map,
            List.cons_append, diagnostics_event, diagnostics_append, hshown]
          have hclash : Notice.diagnostics
              (if a.clash then [.diagnostic (Report.headingClash request a.id)] else [])
                = if a.clash then [Report.headingClash request a.id] else [] := by
            cases a.clash <;> rfl
          rw [hclash]
          exact .create hbarred hfree hok hserves
      · obtain ⟨answers, hresult, hserves⟩ := ih hs hrest
        rw [ha.demandId] at htaken hok
        rw [hok]
        exact ⟨none :: answers, hresult,
          .skip hbarred (Option.isSome_iff_ne_none.2 htaken) hserves⟩

/-! ## What a run of hops does -/

/-- The object under a handle is what was asked for, and is found by the id. -/
def Answers (s : Store) (a : Ask) (h : Handle) : Prop :=
  s.Holds h a.demand.owner a.demand.name a.demand.part ∧ s.objectById? a.id = some h

/-- A hop is turned away: its id is taken, or it is barred. -/
def isRefusal (d : Diagnostic) : Bool :=
  d.code = Report.errorCode 300 || d.code = Report.errorCode 302

/-- What a hop is turned away with, and by which id: with E302 by that of its module if it is barred
from there, and otherwise with E300 by the id that is taken. -/
def refusal (a : Ask) : Code × Option String :=
  if a.barred then (⟨.error, 302⟩, some a.site.id) else (⟨.error, 300⟩, some a.id)

/-- What the hops that got nothing are turned away with. -/
def refusals (asks : List Ask) (answers : List (Option Handle)) : List (Code × Option String) :=
  (asks.zip answers).filterMap fun (a, answer) => if answer.isSome then none else some (refusal a)

theorem refusals_cons_some (a : Ask) (c : Handle) (asks : List Ask)
    (answers : List (Option Handle)) :
    refusals (a :: asks) (some c :: answers) = refusals asks answers :=
  rfl

theorem refusals_cons_none (a : Ask) (asks : List Ask) (answers : List (Option Handle)) :
    refusals (a :: asks) (none :: answers) = refusal a :: refusals asks answers :=
  rfl

/-- Hops get objects or are turned away. -/
theorem length_refusals {asks : List Ask} {answers : List (Option Handle)}
    (h : asks.length = answers.length) :
    (answers.filterMap id).length + (refusals asks answers).length = asks.length := by
  induction asks generalizing answers with
  | nil =>
    rw [List.eq_nil_of_length_eq_zero h.symm]
    rfl
  | cons a rest ih =>
    cases answers with
    | nil => cases h
    | cons answer answers =>
      have hrest := ih (Nat.succ.inj h)
      cases answer with
      | some c =>
        rw [refusals_cons_some, List.filterMap_cons_some (f := id) rfl, List.length_cons,
          List.length_cons, ← hrest]
        omega
      | none =>
        rw [refusals_cons_none, List.filterMap_cons_none rfl, List.length_cons, List.length_cons,
          ← hrest]
        omega

/-- No remark is a refusal. -/
theorem filter_remarks {a : Ask} {s : Store} (h : a.Fits s) : a.remarks.filter isRefusal = [] := by
  refine List.filter_eq_nil_iff.2 fun d hd => ?_
  rcases h.remarks d hd with hcode | hcode <;>
    simp [isRefusal, hcode, Report.errorCode]

namespace Serves

variable {request : String} {s s' : Store} {asks : List Ask} {answers : List (Option Handle)}
  {reports : List Diagnostic} (h : Serves request s asks s' answers reports)
  (hs : s.Coherent) (hfits : ∀ a ∈ asks, a.Fits s)

include h hs hfits

/-- Serving hops adds to the store. -/
theorem extended : s.Extends s' := by
  induction h with
  | nil => exact .refl hs
  | create _ _ hok _ ih =>
    obtain ⟨ha, hrest⟩ := List.forall_mem_cons.1 hfits
    have hextends := attach_extends hs ha.new hok
    exact hextends.trans (ih hextends.coherent fun b hb => (hrest b hb).attach hs ha.requested hok)
  | skip _ _ _ ih => exact ih hs (List.forall_mem_cons.1 hfits).2
  | bar _ _ ih => exact ih hs (List.forall_mem_cons.1 hfits).2

/-- Parts without parts of their own stay as they are. -/
theorem keeps {c owner : Handle} {name : String} {q : Part} (hq : q.isLeaf = true)
    (hc : s.Holds c owner name q) : s'.Holds c owner name q := by
  induction h with
  | nil => exact hc
  | create _ _ hok _ ih =>
    obtain ⟨ha, hrest⟩ := List.forall_mem_cons.1 hfits
    exact ih (attach_extends hs ha.new hok).coherent
      (fun b hb => (hrest b hb).attach hs ha.requested hok) (attach_holds_of_holds hs hok hq hc)
  | skip _ _ _ ih => exact ih hs (List.forall_mem_cons.1 hfits).2 hc
  | bar _ _ ih => exact ih hs (List.forall_mem_cons.1 hfits).2 hc

/-- What a hop gets is what it asked for. -/
theorem answered :
    List.Forall₂ (fun a answer => ∀ c, answer = some c → s'.Answers a c) asks answers := by
  induction h with
  | nil => exact .nil
  | @create s s₁ s' a c rest answers reports _ _ hok hserves ih =>
    obtain ⟨ha, hrest⟩ := List.forall_mem_cons.1 hfits
    have hcoherent := (attach_extends hs ha.new hok).coherent
    have hfits' : ∀ b ∈ rest, b.Fits s₁ := fun b hb => (hrest b hb).attach hs ha.requested hok
    refine .cons ?_ (ih hcoherent hfits')
    rintro _ ⟨⟩
    obtain ⟨-, -, hholds⟩ := attach_holds hs hok
    refine ⟨hserves.keeps hcoherent hfits' (Part.isLeaf_of_isRequested ha.requested) hholds, ?_⟩
    refine (hserves.extended hcoherent hfits').objectById? hcoherent ?_
    rw [← ha.demandId]
    exact objectById?_attach hok
  | skip _ _ _ ih => exact .cons (fun _ hc => by cases hc) (ih hs (List.forall_mem_cons.1 hfits).2)
  | bar _ _ ih => exact .cons (fun _ hc => by cases hc) (ih hs (List.forall_mem_cons.1 hfits).2)

/-- The hops that get nothing are turned away, in their order. -/
theorem refused :
    (reports.filter isRefusal).map (fun d => (d.code, d.subject)) = refusals asks answers := by
  induction h with
  | nil => rfl
  | @create s s₁ s' a c rest answers reports _ _ hok _ ih =>
    obtain ⟨ha, hrest⟩ := List.forall_mem_cons.1 hfits
    have hclash : (if a.clash then [Report.headingClash request a.id] else []).filter isRefusal
        = [] := by
      cases a.clash <;> rfl
    rw [List.filter_append, List.filter_append, filter_remarks ha, hclash, List.nil_append,
      List.nil_append, ih (attach_extends hs ha.new hok).coherent
        fun b hb => (hrest b hb).attach hs ha.requested hok]
    rfl
  | @skip s s' a rest answers reports hbarred _ _ ih =>
    obtain ⟨ha, hrest⟩ := List.forall_mem_cons.1 hfits
    have hrefusal : isRefusal (Report.idTaken request a.id) = true := rfl
    rw [List.filter_append, filter_remarks ha, List.nil_append, List.filter_cons_of_pos hrefusal,
      List.map_cons, ih hs hrest, refusals_cons_none, refusal, hbarred]
    rfl
  | @bar s s' a rest answers reports hbarred _ ih =>
    obtain ⟨ha, hrest⟩ := List.forall_mem_cons.1 hfits
    have hrefusal : isRefusal (Report.resourceContent request "declaration" a.site.id) = true := rfl
    rw [List.filter_append, filter_remarks ha, List.nil_append, List.filter_cons_of_pos hrefusal,
      List.map_cons, ih hs hrest, refusals_cons_none, refusal, hbarred]
    rfl

/-- Each hop gets an object or is turned away. -/
theorem count : (answers.filterMap id).length + reports.countP isRefusal = asks.length := by
  have hlength := length_refusals (h.answered hs hfits).length_eq
  rw [← h.refused hs hfits, List.length_map, ← List.countP_eq_length_filter] at hlength
  exact hlength

/-- A hop gets its object if it is not barred, and neither an older object nor an earlier hop has
the id. -/
theorem isSome_iff {i : Nat} {a : Ask} {answer : Option Handle} (ha : asks[i]? = some a)
    (hanswer : answers[i]? = some answer) :
    answer.isSome ↔ a.barred = false ∧ s.objectById? a.id = none ∧
      ∀ b ∈ asks.take i, b.barred = false → b.id ≠ a.id := by
  induction h generalizing i with
  | nil => cases ha
  | @create s s₁ s' first c rest answers reports hbarred hfree hok _ ih =>
    obtain ⟨hfirst, hrest⟩ := List.forall_mem_cons.1 hfits
    cases i with
    | zero =>
      cases ha
      cases hanswer
      simp [hbarred, hfree]
    | succ i =>
      have hid := objectById?_attach_eq_none hok a.id
      rw [hfirst.demandId] at hid
      rw [ih (attach_extends hs hfirst.new hok).coherent
        (fun b hb => (hrest b hb).attach hs hfirst.requested hok) ha hanswer, hid,
        List.take_succ_cons, List.forall_mem_cons, and_assoc]
      simp [hbarred, and_left_comm]
  | @skip s s' first rest answers reports hbarred htaken _ ih =>
    obtain ⟨-, hrest⟩ := List.forall_mem_cons.1 hfits
    cases i with
    | zero =>
      cases ha
      cases hanswer
      simp [Option.isSome_iff_ne_none.1 htaken]
    | succ i =>
      -- A free id is not the one that is taken.
      have hne : s.objectById? a.id = none → first.id ≠ a.id := by
        rintro hnone heq
        rw [heq, hnone] at htaken
        cases htaken
      rw [ih hs hrest ha hanswer, List.take_succ_cons, List.forall_mem_cons]
      exact ⟨fun ⟨h, hfree, hall⟩ => ⟨h, hfree, fun _ => hne hfree, hall⟩,
        fun ⟨h, hfree, _, hall⟩ => ⟨h, hfree, hall⟩⟩
  | @bar s s' first rest answers reports hbarred _ ih =>
    obtain ⟨-, hrest⟩ := List.forall_mem_cons.1 hfits
    cases i with
    | zero =>
      cases ha
      cases hanswer
      simp [hbarred]
    | succ i =>
      rw [ih hs hrest ha hanswer, List.take_succ_cons, List.forall_mem_cons]
      simp [hbarred]

end Serves

/-! ## Realizing a tree -/

/-- The hops of a tree have been served, as they ask for it, and nothing else has happened. -/
structure Served (s : Store) (t : Task) (tree : HopTree)
    (o : Outcome Inconsistency (List Handle)) (answers : List (Option Handle)) : Prop where
  /-- Every hop asks for something. -/
  length : (t.asks s.site? none tree).length = tree.size
  /-- The hops are served one after the other, and nothing else is reported. -/
  serves : Serves t.request s (t.asks s.site? none tree) o.store answers
    (Notice.diagnostics o.notices)
  /-- What they got is the result. -/
  result : o.result = .ok (answers.filterMap id)
  /-- A hop gets its object if it is not barred and the id is free, also of earlier hops. -/
  isSome_iff : ∀ (i : Nat) (a : Ask) (answer : Option Handle),
    (t.asks s.site? none tree)[i]? = some a → answers[i]? = some answer →
    (answer.isSome ↔ a.barred = false ∧ s.objectById? a.id = none ∧
      ∀ b ∈ (t.asks s.site? none tree).take i, b.barred = false → b.id ≠ a.id)
  /-- In the end the object is there as it was asked for. -/
  answered : List.Forall₂ (fun a answer => ∀ c, answer = some c → o.store.Answers a c)
    (t.asks s.site? none tree) answers
  /-- Nothing else is new, and nothing but lists of parts has changed. -/
  framed : o.store.size = s.size + (answers.filterMap id).length ∧
    Framed s o.store (answers.filterMap id)
  /-- The hops that got nothing are turned away, by their codes and ids and in their order. -/
  refused : ((Notice.diagnostics o.notices).filter isRefusal).map (fun d => (d.code, d.subject))
    = refusals (t.asks s.site? none tree) answers
  /-- The other hops are reported as refused. -/
  count : (answers.filterMap id).length + (Notice.diagnostics o.notices).countP isRefusal
    = tree.size

/-- Modules and instances can be hops. -/
theorem isSome_site?_iff {s : Store} {h : Handle} :
    (s.site? h).isSome ↔ s.kind? h = some .module ∨ s.kind? h = some .inst := by
  unfold site? kind?
  cases ho : s.object? h with
  | none => simp
  | some o =>
    obtain ⟨handle, id, name, attributes, body⟩ := o
    cases body with
    | part owner p => cases p <;> simp [Object.site?, Object.kind, Body.kind, Part.kind]
    | _ => simp [Object.site?, Object.kind, Body.kind]

/-- Each hop of a tree of modules and instances asks for one object, which is known from what is
fixed of these, and gets it unless the id is taken or a resource on top is to hold a declaration.  A
tree that is visited hop by hop comes to the same. -/
theorem realize_serves {s : Store} (hs : s.Reachable) {t : Task} (hname : t.name ≠ "")
    {tree : HopTree}
    (hplaces : ∀ hop, tree.Passes hop →
      s.kind? hop.object = some .module ∨ s.kind? hop.object = some .inst)
    (hnames : ∀ hop, tree.Passes hop → hop.name ≠ some "") :
    (∃ answers, s.Served t tree (s.realize t tree) answers) ∧
      (∀ s' : Store, (∀ hop, tree.Passes hop → s'.site? hop.object = s.site? hop.object) →
        t.asks s'.site? none tree = t.asks s.site? none tree) ∧
      ((∀ hop, tree.Passes hop → hop.IsRecorded s.strings) →
        Procedure.Follows (Procedure.visit t none true tree) s (s.realize t tree)) := by
  have hsites : ∀ hop, tree.Passes hop → (s.site? hop.object).isSome := fun hop hp =>
    isSome_site?_iff.2 (hplaces hop hp)
  have hgiven : ∀ hop, tree.Passes hop → t.nameAt hop ≠ "" := by
    intro hop hp
    unfold Task.nameAt
    cases hn : hop.name with
    | none => exact hname
    | some n => exact fun heq => hnames hop hp (by rw [hn]; exact congrArg some heq)
  have hfits := Task.fits_asks tree (fun hop hp => ⟨hsites hop hp, hgiven hop hp⟩) none
    fun n hn => by cases hn
  refine ⟨?_, fun s' hsame => Task.asks_congr tree hsame none, fun hrecorded =>
    Procedure.visit_follows hs.sound t none tree hrecorded⟩
  obtain ⟨answers, hresult, hserves⟩ := carryOut_serves hs.coherent t.request hfits
  rw [← Task.plan_eq_asks tree hsites none] at hresult hserves
  have hlength := Task.length_asks (t := t) tree hsites none
  have hrequested : ∀ d ∈ (t.plan s none tree).filterMap Step.demand?,
      d.part.isRequested = true := by
    intro d hd
    obtain ⟨clash, hstep⟩ := Step.mem_filterMap_demand?.1 hd
    exact (asked_of_mem_plan hstep).isRequested
  exact ⟨answers, hlength, hserves, hresult,
    fun _ _ _ => hserves.isSome_iff hs.coherent hfits, hserves.answered hs.coherent hfits,
    framed_carryOut hs.coherent hresult (isNew_plan t s none tree) hrequested,
    hserves.refused hs.coherent hfits, (hserves.count hs.coherent hfits).trans hlength⟩

/-- A hop that nothing is said of. -/
def bareHop (object : Handle) : Hop :=
  { object, heading := .down, name := none, forced := false, inverted := false, explicit := true,
    clash := false }

/-- The leaf is asked for twice below the top. -/
def doubled : HopTree :=
  .node (bareHop 0) [.node (bareHop 3) [.node (bareHop 2) []], .node (bareHop 3) []]

def lone : Task :=
  { request := "connection x", name := "x", mode := .signal }

/-- The second pin would have the id of the first. -/
theorem realize_serves_doubled :
    nested.Reachable ∧ lone.name ≠ "" ∧ doubled.size = 4 ∧
      (nested.realize lone doubled).result = .ok [7, 8, 9] ∧
      Notice.diagnostics (nested.realize lone doubled).notices
        = [Report.idTaken "connection x" "pin::leaf.x_i"] ∧
      (∃ answers, nested.Served lone doubled (nested.realize lone doubled) answers) ∧
      Procedure.Follows (Procedure.visit lone none true doubled) nested
        (nested.realize lone doubled) := by
  have hs : nested.Reachable := reachable_execAll _
  have hhops : ∀ hop ∈ doubled.hops,
      (nested.kind? hop.object = some .module ∨ nested.kind? hop.object = some .inst) ∧
        hop.name = none := by decide
  have hgiven : lone.name ≠ "" := by decide
  obtain ⟨hserved, -, hvisit⟩ := realize_serves hs hgiven
    (fun hop hp => (hhops hop (HopTree.mem_hops.2 hp)).1)
    fun hop hp => by rw [(hhops hop (HopTree.mem_hops.2 hp)).2]; simp
  refine ⟨hs, hgiven, rfl, rfl, rfl, hserved, hvisit fun hop hp n hn => ?_⟩
  rw [(hhops hop (HopTree.mem_hops.2 hp)).2] at hn
  cases hn

end Store

end Interconnect
