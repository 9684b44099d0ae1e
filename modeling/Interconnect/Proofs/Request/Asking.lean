import Interconnect.Proofs.Request.Framing
import Interconnect.Proofs.Request.Making

/-!
# What the hops of a tree ask for

What a hop asks for depends on the tree, on the task, and on what is fixed of the module or instance
at the hop: its id, its name, and whether it is a resource (`Site`).  `Task.asks` reads it off these
alone, hop by hop in pre-order, and no store is looked at.  The name of the object of a hop is what
is handed down to the hops below, whether the hop gets its object or not.

In a store that has such modules and instances, this is what the plan says (`plan_eq_asks`), and
each hop can get its object unless the id is taken or the hop is barred (`fits_asks`).
-/

namespace Interconnect

/-- A module, which may be a resource, or an instance. -/
inductive Role where
  | module (resource : Bool)
  | inst
  deriving DecidableEq

/-- What is fixed of a module or an instance. -/
structure Site where
  id : String
  name : String
  role : Role
  deriving DecidableEq

/-- What an object is as a hop, if it can be one. -/
def Object.site? (o : Object) : Option Site :=
  match o.body with
  | .module m => some ⟨o.id, o.name, .module m.resource⟩
  | .inst _ => some ⟨o.id, o.name, .inst⟩
  | _ => none

/-- What a hop asks for. -/
structure Ask where
  site : Site
  demand : Demand
  /-- What is reported of the hop, whether it gets its object or not. -/
  remarks : List Diagnostic
  /-- Different headings met at the object. -/
  clash : Bool
  /-- The object would be inside of a resource. -/
  barred : Bool

namespace Ask

/-- The id of the object. -/
def id (a : Ask) : String :=
  Store.partId a.demand.part a.site.name a.demand.name

/-- The steps that are carried out for the hop. -/
def steps (request : String) (a : Ask) : List Step :=
  a.remarks.map .report ++
    [if a.barred then .report (Report.resourceContent request "declaration" a.site.id)
      else .create a.demand a.clash]

end Ask

namespace Task

/-- The object that a hop asks for.  `above` is the name of the object of the hop above. -/
def demandAt (t : Task) (role : Role) (above : Option String) (hop : Hop) : Demand :=
  match t.mode, role, above with
  | .signal, .module _, none =>
    ⟨hop.object, t.ownName hop Naming.signalName, .declaration true none none⟩
  | .signal, .module _, some name =>
    ⟨hop.object, name, .port hop.heading.portDirection none⟩
  | .signal, .inst, above =>
    ⟨hop.object, t.ownName hop fun n => Naming.pinName n hop.heading,
      .pin (above.getD "") hop.inverted none⟩
  | .parameter value isLocal, .module _, none =>
    ⟨hop.object, t.nameAt hop, .parameter value isLocal⟩
  | .parameter value _, .module _, some name => ⟨hop.object, name, .parameter value false⟩
  | .parameter value _, .inst, above =>
    ⟨hop.object, t.nameAt hop, .adjustment (above.getD value)⟩

/-- Nobody names what an instance on top connects to, and it takes no local parameter. -/
def remarksAt (t : Task) (site : Site) (above : Option String) : List Diagnostic :=
  match t.mode, site.role, above with
  | .parameter _ true, .inst, none =>
    [Report.localAtInstance t.request site.id, Report.unnamedInstance t.request site.id]
  | _, .inst, none => [Report.unnamedInstance t.request site.id]
  | _, _, _ => []

/-- A signal is not declared in a resource on top. -/
def isBarredAt (t : Task) (role : Role) (above : Option String) : Bool :=
  match t.mode, role, above with
  | .signal, .module true, none => true
  | _, _, _ => false

/-- What a hop asks for.  Clashes are told of ports and pins. -/
def ask (t : Task) (site : Site) (above : Option String) (hop : Hop) : Ask :=
  let demand := t.demandAt site.role above hop
  { site
    demand
    remarks := t.remarksAt site above
    clash := hop.clash && (demand.part.kind = .port || demand.part.kind = .pin)
    barred := t.isBarredAt site.role above }

mutual

/-- What the hops of a tree ask for, in pre-order. -/
def asks (t : Task) (site? : Handle → Option Site) (above : Option String) : HopTree → List Ask
  | .node hop branches =>
    match site? hop.object with
    | none => []
    | some site =>
      let first := t.ask site above hop
      first :: asksAll t site? first.demand.name branches

/-- What the hops of several trees ask for, one tree after the other. -/
def asksAll (t : Task) (site? : Handle → Option Site) (above : String) : List HopTree → List Ask
  | [] => []
  | tree :: rest => asks t site? (some above) tree ++ asksAll t site? above rest

end

theorem asksAll_eq_flatMap (t : Task) (site? : Handle → Option Site) (above : String)
    (trees : List HopTree) :
    t.asksAll site? above trees = trees.flatMap (t.asks site? (some above)) := by
  induction trees with
  | nil => rfl
  | cons tree rest ih => rw [asksAll, List.flatMap_cons, ih]

theorem asks_node {t : Task} {site? : Handle → Option Site} {hop : Hop} {site : Site}
    (hsite : site? hop.object = some site) (above : Option String) (branches : List HopTree) :
    t.asks site? above (.node hop branches) = t.ask site above hop ::
      branches.flatMap (t.asks site? (some (t.ask site above hop).demand.name)) := by
  rw [asks, hsite, ← asksAll_eq_flatMap]

/-- Only what is fixed of the modules and instances at the hops matters. -/
theorem asks_congr {t : Task} {site? site?' : Handle → Option Site} : (tree : HopTree) →
    (∀ hop, tree.Passes hop → site?' hop.object = site? hop.object) → (above : Option String) →
    t.asks site?' above tree = t.asks site? above tree
  | .node hop branches, hsame, above => by
    rw [asks, asks, hsame hop .top]
    split
    · rfl
    · dsimp only
      rw [asksAll_eq_flatMap, asksAll_eq_flatMap]
      congr 1
      exact List.flatMap_congr fun b hb =>
        asks_congr b (fun hop' hp => hsame hop' (.branch hb hp)) _

mutual

/-- Every hop asks for something. -/
theorem length_asks {t : Task} {site? : Handle → Option Site} (tree : HopTree)
    (hsites : ∀ hop, tree.Passes hop → (site? hop.object).isSome) (above : Option String) :
    (t.asks site? above tree).length = tree.size := by
  cases tree with
  | node hop branches =>
    obtain ⟨site, hsite⟩ := Option.isSome_iff_exists.1 (hsites hop .top)
    rw [asks, hsite, List.length_cons, HopTree.size,
      length_asksAll branches (fun b hb hop' hp => hsites hop' (.branch hb hp)), Nat.add_comm]

theorem length_asksAll {t : Task} {site? : Handle → Option Site} (trees : List HopTree)
    (hsites : ∀ tree ∈ trees, ∀ hop, tree.Passes hop → (site? hop.object).isSome)
    (above : String) : (t.asksAll site? above trees).length = HopTree.sizeAll trees := by
  cases trees with
  | nil => rfl
  | cons tree rest =>
    rw [asksAll, List.length_append, HopTree.sizeAll,
      length_asks tree (hsites tree List.mem_cons_self),
      length_asksAll rest fun b hb => hsites b (List.mem_cons_of_mem tree hb)]

end

end Task

namespace Store

/-- What is fixed of the module or instance under a handle. -/
def site? (s : Store) (h : Handle) : Option Site :=
  (s.object? h).bind Object.site?

end Store

namespace Task

open Store

/-! ## Plans -/

theorem atModule_eq_ask (t : Task) (id name : String) (m : Module) (above : Option String)
    (hop : Hop) :
    t.atModule id m above hop
      = ((t.ask ⟨id, name, .module m.resource⟩ above hop).steps t.request,
        (t.ask ⟨id, name, .module m.resource⟩ above hop).demand.name) := by
  obtain ⟨request, given, mode⟩ := t
  cases hres : m.resource <;> cases mode <;> cases above <;>
    simp [atModule, hres, ask, Ask.steps, demandAt, remarksAt, isBarredAt, Part.kind]

theorem atInstance_eq_ask (t : Task) (id name : String) (above : Option String) (hop : Hop) :
    t.atInstance id above hop
      = ((t.ask ⟨id, name, .inst⟩ above hop).steps t.request,
        (t.ask ⟨id, name, .inst⟩ above hop).demand.name) := by
  obtain ⟨request, given, _ | ⟨value, _ | _⟩⟩ := t <;> cases above <;>
    simp [atInstance, topInstance, ask, Ask.steps, demandAt, remarksAt, isBarredAt, Part.kind]

section Plan

variable {t : Task} {s : Store}

/-- The steps for a hop are those for what it asks for, and the name of the object is handed
down. -/
theorem atHop_eq_ask {hop : Hop} {site : Site} (hsite : s.site? hop.object = some site)
    (above : Option String) :
    t.atHop s above hop
      = ((t.ask site above hop).steps t.request, (t.ask site above hop).demand.name) := by
  obtain ⟨o, ho, hsite⟩ := Option.bind_eq_some_iff.1 hsite
  obtain ⟨handle, id, name, attributes, body⟩ := o
  unfold atHop
  rw [ho]
  cases body with
  | module m =>
    cases hsite
    exact atModule_eq_ask t id name m above hop
  | inst i =>
    cases hsite
    exact atInstance_eq_ask t id name above hop
  | net | part => cases hsite

/-- A plan is made of the steps for what the hops ask for. -/
theorem plan_eq_asks : (tree : HopTree) →
    (∀ hop, tree.Passes hop → (s.site? hop.object).isSome) → (above : Option String) →
    t.plan s above tree = (t.asks s.site? above tree).flatMap (Ask.steps t.request)
  | .node hop branches, hsites, above => by
    obtain ⟨site, hsite⟩ := Option.isSome_iff_exists.1 (hsites hop .top)
    rw [plan, atHop_eq_ask hsite, planAll_eq_flatMap, asks_node hsite, List.flatMap_cons,
      List.flatMap_assoc]
    congr 1
    exact List.flatMap_congr fun b hb =>
      plan_eq_asks b (fun hop' hp => hsites hop' (.branch hb hp)) _

end Plan

end Task

/-! ## What can be met -/

/-- The store has the hop, and its object can be created there, unless the id is taken or the hop is
barred. -/
structure Ask.Fits (a : Ask) (s : Store) : Prop where
  site : s.site? a.demand.owner = some a.site
  named : a.demand.name ≠ ""
  new : a.demand.part.IsNew
  requested : a.demand.part.isRequested = true
  owns : a.barred = false → s.CanOwn a.demand.owner a.demand.part
  remarks : ∀ d ∈ a.remarks, d.code = Report.errorCode 301 ∨ d.code = Report.errorCode 303

namespace Task

open Store

variable {t : Task} {s : Store}

theorem demandAt_owner (t : Task) (role : Role) (above : Option String) (hop : Hop) :
    (t.demandAt role above hop).owner = hop.object := by
  unfold demandAt
  split <;> rfl

/-- The name that a hop is given, or that of the task, is a name of its object. -/
theorem demandAt_name_ne {role : Role} {above : Option String} {hop : Hop}
    (hname : t.nameAt hop ≠ "") (habove : ∀ n, above = some n → n ≠ "") :
    (t.demandAt role above hop).name ≠ "" := by
  unfold demandAt
  split <;> dsimp only
  · exact ownName_ne hname Naming.signalName fun n => Naming.withSuffix_ne n 's'
  · exact habove _ rfl
  · exact ownName_ne hname (fun n => Naming.pinName n hop.heading) fun n =>
      Naming.withSuffix_ne _ _
  · exact hname
  · exact habove _ rfl
  · exact hname

/-- What is asked for is a new part, and has no parts of its own. -/
theorem demandAt_part (t : Task) (role : Role) (above : Option String) (hop : Hop) :
    (t.demandAt role above hop).part.IsNew ∧
      (t.demandAt role above hop).part.isRequested = true := by
  unfold demandAt
  split <;> exact ⟨⟨rfl, rfl⟩, rfl⟩

/-- An instance owns a pin or an adjustment, and a module the other parts. -/
theorem demandAt_ownerKind (t : Task) (role : Role) (above : Option String) (hop : Hop) :
    (t.demandAt role above hop).part.ownerKind = if role = .inst then .inst else .module := by
  unfold demandAt
  split <;> rfl

theorem code_of_mem_remarksAt {site : Site} {above : Option String} {d : Diagnostic}
    (hd : d ∈ t.remarksAt site above) :
    d.code = Report.errorCode 301 ∨ d.code = Report.errorCode 303 := by
  unfold remarksAt at hd
  split at hd
  · rcases List.mem_cons.1 hd with rfl | hd
    · exact Or.inr rfl
    · rw [List.mem_singleton.1 hd]
      exact Or.inl rfl
  · rw [List.mem_singleton.1 hd]
    exact Or.inl rfl
  · cases hd

/-- Only a signal on top asks for inner content. -/
theorem isBarredAt_of_innerContent {resource : Bool} {above : Option String} {hop : Hop}
    (h : (t.demandAt (.module resource) above hop).part.innerContent?.isSome) :
    t.isBarredAt (.module resource) above = resource := by
  obtain ⟨request, given, mode⟩ := t
  cases mode with
  | signal =>
    cases above with
    | none => cases resource <;> rfl
    | some name => cases h
  | parameter value isLocal => cases above <;> cases h

theorem fits_ask {hop : Hop} {site : Site} (hsite : s.site? hop.object = some site)
    (hname : t.nameAt hop ≠ "") {above : Option String} (habove : ∀ n, above = some n → n ≠ "") :
    (t.ask site above hop).Fits s := by
  constructor
  case site => rw [ask, demandAt_owner, hsite]
  case named => exact demandAt_name_ne hname habove
  case new => exact (demandAt_part t site.role above hop).1
  case requested => exact (demandAt_part t site.role above hop).2
  case remarks => exact fun d hd => code_of_mem_remarksAt hd
  case owns =>
    intro hbarred
    have hkind := demandAt_ownerKind t site.role above hop
    obtain ⟨o, ho, hsite⟩ := Option.bind_eq_some_iff.1 hsite
    rw [ask, demandAt_owner]
    obtain ⟨handle, id, name, attributes, body⟩ := o
    cases body with
    | module m =>
      cases hsite
      refine .module (frame_of_module ho rfl) hkind fun hinner => ?_
      rw [← isBarredAt_of_innerContent hinner]
      exact hbarred
    | inst i =>
      cases hsite
      exact .inst (target_eq_some_iff.2 ⟨_, ho, rfl⟩) hkind
    | net | part => cases hsite

/-- What the hops of a tree ask for can be met, if each of them has a name. -/
theorem fits_asks : (tree : HopTree) →
    (∀ hop, tree.Passes hop → (s.site? hop.object).isSome ∧ t.nameAt hop ≠ "") →
    (above : Option String) → (∀ n, above = some n → n ≠ "") →
    ∀ a ∈ t.asks s.site? above tree, a.Fits s
  | .node hop branches, hall, above, habove => by
    obtain ⟨hsome, hname⟩ := hall hop .top
    obtain ⟨site, hsite⟩ := Option.isSome_iff_exists.1 hsome
    have hfits := fits_ask hsite hname habove
    rw [asks_node hsite]
    refine List.forall_mem_cons.2 ⟨hfits, fun a ha => ?_⟩
    obtain ⟨b, hb, ha⟩ := List.mem_flatMap.1 ha
    refine fits_asks b (fun hop' hp => hall hop' (.branch hb hp)) _ ?_ a ha
    rintro n ⟨⟩
    exact hfits.named

end Task

end Interconnect
