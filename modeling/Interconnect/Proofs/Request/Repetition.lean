import Interconnect.Proofs.Request.Persistence
import Interconnect.Proofs.Request.Tracing

/-!
# Requests that are made again

A request for a parameter leaves something registered under every id that its plan asks for, also
where the id was taken before and the hop was skipped.  Ids stay taken, and trees and plans stay as
they are.  So when the request is made again, every hop finds its id taken, and nothing is created.

A connection that created something leaves a net, and the name of the net is not free again.
-/

namespace Interconnect

/-- What a request for a parameter realizes. -/
def Task.parametrizing (name value : String) (isLocal : Bool) : Task :=
  { request := "parameter " ++ name, name := name, mode := .parameter value isLocal }

/-- What is reported of the root of a tree for a parameter.  An instance there has no name, and it
cannot have the parameter for itself. -/
def Store.rootReports (s : Store) (request : String) (isLocal : Bool) (root : Handle) :
    List Diagnostic :=
  if s.kind? root = some .inst then
    (if isLocal then [Report.localAtInstance request (s.describe root)] else [])
      ++ [Report.unnamedInstance request (s.describe root)]
  else []

/-- What is reported where every hop of a tree for a parameter finds its id taken: first what is
wrong with the root, and then the id of each hop. -/
def Store.takenReports (s : Store) (t : Task) (isLocal : Bool) (tree : HopTree) :
    List Diagnostic :=
  s.rootReports t.request isLocal tree.hop.object
    ++ (t.demands s none tree).map fun d => Report.idTaken t.request (s.demandId d)

/-- The codes of these reports and of the one that nothing was created: E303 and E301 tell what is
wrong with the root, and each hop has its E300. -/
def Store.takenCodes (s : Store) (isLocal : Bool) (tree : HopTree) : List Code :=
  (if s.kind? tree.hop.object = some .inst then
    (if isLocal then [⟨.error, 303⟩] else []) ++ [⟨.error, 301⟩]
  else []) ++ List.replicate tree.size ⟨.error, 300⟩ ++ [⟨.warning, 302⟩]

theorem Store.codes_takenReports {s : Store} {t : Task} {tree : HopTree}
    (howners : List.Forall₂ (fun hop d => d.owner = hop.object) tree.hops
      (t.demands s none tree)) (isLocal : Bool) (request : String) :
    (s.takenReports t isLocal tree ++ [Report.nothingCreated request]).map Diagnostic.code
      = s.takenCodes isLocal tree := by
  have hsize : (t.demands s none tree).length = tree.size := by
    rw [← howners.length_eq, HopTree.hops, List.length_map, HopTree.length_listing]
  have htaken : ((t.demands s none tree).map fun d =>
      Report.idTaken t.request (s.demandId d)).map Diagnostic.code
        = List.replicate tree.size ⟨.error, 300⟩ := by
    rw [List.map_map, ← hsize]
    exact List.map_const' ..
  have hroot : (s.rootReports t.request isLocal tree.hop.object).map Diagnostic.code
      = if s.kind? tree.hop.object = some .inst then
          (if isLocal then [⟨.error, 303⟩] else []) ++ [⟨.error, 301⟩]
        else [] := by
    unfold rootReports
    split
    · cases isLocal <;> rfl
    · rfl
  rw [takenReports, List.map_append, List.map_append, hroot, htaken]
  rfl

/-! ## The plan for a parameter -/

namespace Task

section Parameter

variable {t : Task} {value : String} {isLocal : Bool} (ht : t.mode = .parameter value isLocal)
  {s : Store}

include ht

/-- On top, the plan reports what is wrong with the root, and asks for one object. -/
theorem exists_atHop_top {hop : Hop} (hplace : (s.above? hop.object).isSome) :
    ∃ d, t.atHop s none hop
        = ((s.rootReports t.request isLocal hop.object).map .report ++ [.create d false], d.name) ∧
      d.owner = hop.object := by
  obtain ⟨o, ho, hcases⟩ := atHop_cases t none hplace
  have hdescribe : s.describe hop.object = o.id := by
    rw [Store.describe, Store.idOf?, ho]
    rfl
  unfold Store.rootReports
  rw [hdescribe, Store.kind?, ho, Option.map_some]
  rcases hcases with ⟨m, hm, hsteps⟩ | ⟨i, hi, hsteps⟩
  · rw [hsteps, Object.kind_of_module hm, if_neg (by simp)]
    unfold atModule
    rw [ht]
    exact ⟨_, rfl, rfl⟩
  · rw [hsteps, Object.kind_of_inst hi, if_pos rfl]
    unfold atInstance topInstance
    rw [ht]
    cases isLocal with
    | false | true => exact ⟨_, rfl, rfl⟩

/-- The plan reports what is wrong with the root, and then asks for one object at each hop. -/
theorem exists_steps_of_plan {tree : HopTree} (hhangs : tree.Hangs s)
    (hplace : (s.above? tree.hop.object).isSome) :
    ∃ steps, t.plan s none tree
        = (s.rootReports t.request isLocal tree.hop.object).map .report ++ steps ∧
      (∀ step ∈ steps, step.Creates) ∧ steps.filterMap Step.demand? = t.demands s none tree ∧
      List.Forall₂ (fun hop d => d.owner = hop.object) tree.hops (t.demands s none tree) := by
  cases hhangs with
  | @node hop branches habove _ hbranches =>
    rw [HopTree.hop] at hplace ⊢
    obtain ⟨d, hsteps, howner⟩ := exists_atHop_top ht hplace
    have hclean : ∀ b ∈ branches, t.Clean s (some d.name) b := fun b hb =>
      clean_of_some (hbranches b hb) (by rw [habove b hb, Option.isSome_some]) d.name
    have hplan : t.plan s none (.node hop branches)
        = (s.rootReports t.request isLocal hop.object).map .report
          ++ .create d false :: branches.flatMap (t.plan s (some d.name)) := by
      rw [plan, planAll_eq_flatMap, hsteps, List.append_assoc]
      rfl
    have hreports : ((s.rootReports t.request isLocal hop.object).map Step.report).filterMap
        Step.demand? = [] := by
      rw [List.filterMap_map]
      exact List.filterMap_eq_nil_iff.2 fun _ _ => rfl
    have hdemands : t.demands s none (.node hop branches)
        = d :: branches.flatMap (t.demands s (some d.name)) := by
      unfold demands
      rw [hplan, List.filterMap_append, hreports, List.nil_append, List.filterMap_cons,
        List.filterMap_flatMap]
      rfl
    refine ⟨_, hplan, fun step hstep => ?_, ?_, ?_⟩
    · rcases List.mem_cons.1 hstep with rfl | hstep
      · rfl
      · obtain ⟨b, hb, hstep⟩ := List.mem_flatMap.1 hstep
        exact hclean b hb step hstep
    · rw [hdemands, List.filterMap_cons, List.filterMap_flatMap]
      rfl
    · rw [hdemands, HopTree.hops_node]
      refine .cons howner (Store.forall₂_flatMap fun b hb => ?_)
      exact (demands_wanted b (hclean b hb)).imp fun _ _ ⟨_, hwants⟩ => hwants.owner_eq

end Parameter

end Task

namespace Store

/-! ## Carrying out steps that get nothing -/

/-- A part does not get an id that is taken. -/
theorem CanOwn.attach_of_taken {s : Store} {d : Demand} (h : s.CanOwn d.owner d.part)
    (hname : d.name ≠ "") (htaken : (s.objectById? (s.demandId d)).isSome) :
    s.attach d.owner d.name d.part = .error (.idExists (s.demandId d)) := by
  rcases h.attach_cases hname with ⟨s', c, hok⟩ | ⟨-, herror⟩
  · rw [free_of_attach hok] at htaken
    cases htaken
  · exact herror

/-- Steps whose ids are all taken get nothing, and report so. -/
theorem carryOut_of_taken {request : String} {s : Store} {steps : List Step}
    (hsound : ∀ step ∈ steps, s.IsSound step) (hcreates : ∀ step ∈ steps, step.Creates)
    (htaken : ∀ d ∈ steps.filterMap Step.demand?, (s.objectById? (s.demandId d)).isSome) :
    s.carryOut request steps
      = (Outcome.done s []).after (((steps.filterMap Step.demand?).map fun d =>
          Report.idTaken request (s.demandId d)).map .diagnostic) := by
  induction steps with
  | nil => rfl
  | cons step rest ih =>
    cases step with
    | report d => cases hcreates (.report d) List.mem_cons_self
    | stray object => cases hcreates (.stray object) List.mem_cons_self
    | create d clash =>
      obtain ⟨hname, hown⟩ := hsound _ List.mem_cons_self
      have hdemands : (Step.create d clash :: rest).filterMap Step.demand?
          = d :: rest.filterMap Step.demand? := rfl
      rw [hdemands] at htaken ⊢
      rw [carryOut, hown.attach_of_taken hname (htaken d List.mem_cons_self)]
      dsimp only
      rw [ih (fun step h => hsound step (List.mem_cons_of_mem _ h))
        (fun step h => hcreates step (List.mem_cons_of_mem _ h))
        fun d' h => htaken d' (List.mem_cons_of_mem d h)]
      rfl

/-- Where every id that the plan for a parameter asks for is taken, the hops are reported, and
nothing is left to bind. -/
theorem Reachable.thread_of_taken {s : Store} (hs : s.Reachable) {t : Task} {value : String}
    {isLocal : Bool} (ht : t.mode = .parameter value isLocal) (hname : t.name ≠ "")
    {ends : List (Endpoint × Heading)}
    {bind : Store → List Handle → Outcome StoreError (List Handle)} {tree : HopTree}
    (htree : (s.spanningTree t.request t.name ends).result = .ok (some tree))
    (htaken : ∀ d ∈ t.demands s none tree, (s.objectById? (s.demandId d)).isSome) :
    s.thread t ends bind
      = (((bind (s.spanningTree t.request t.name ends).store []).mapError .store).after
          ((s.takenReports t isLocal tree).map .diagnostic)).after
          (s.spanningTree t.request t.name ends).notices := by
  obtain ⟨hhangs, -, texts, htexts⟩ := hs.spanningTree_spec htree
  obtain ⟨steps, hplan, hcreates, hdemands, -⟩ :=
    Task.exists_steps_of_plan ht hhangs (hs.name_of_passes htree tree.passes_hop).1
  have hsound := hs.isSound_of_mem_plan hname htree texts
  rw [plan_withTexts, hplan] at hsound
  have hrealize : (s.withTexts texts).realize t tree
      = (Outcome.done (s.withTexts texts) []).after
          ((s.takenReports t isLocal tree).map .diagnostic) := by
    rw [realize, plan_withTexts, hplan, carryOut_reports, carryOut_of_taken
      (fun step hstep => hsound step (List.mem_append_right _ hstep)) hcreates
      (by rw [hdemands]; exact htaken), hdemands, takenReports, List.map_append]
    simp only [Outcome.after, Outcome.done, List.append_nil]
    rfl
  unfold thread
  rw [Outcome.andThen_of_ok _ htree, htexts]
  dsimp only
  rw [hrealize]
  simp only [Outcome.after, Outcome.done, Outcome.mapError, Except.mapError, Outcome.andThen,
    List.append_nil]

/-! ## A request for a parameter -/

/-- The outcome of a request that creates nothing, and leaves the store as it was but for its
texts. -/
structure CreatesNothing (s : Store) (o : Outcome RequestError (List Handle))
    (reports : List Diagnostic) : Prop where
  result : o.result = .ok []
  interned : Interned s o.store
  diagnostics : Notice.diagnostics o.notices = reports

/-- A request for a parameter that succeeds has a name and a target. -/
theorem given_of_parametrize {s : Store} {name value : String} {targets : List Endpoint}
    {isLocal : Bool} {created : List Handle}
    (hok : (s.parametrize name value targets isLocal).result = .ok created) :
    name ≠ "" ∧ targets ≠ [] := by
  unfold parametrize at hok
  split at hok
  · cases hok
  · rename_i hgiven
    simpa using hgiven

/-- With a name and a target, a request for a parameter is carried out. -/
theorem parametrize_of_given (s : Store) {name : String} (value : String)
    {targets : List Endpoint} (isLocal : Bool) (hname : name ≠ "") (htargets : targets ≠ []) :
    s.parametrize name value targets isLocal
      = s.thread (.parametrizing name value isLocal) (targets.map fun t => (t, .unset))
        fun s objects => s.tagObjects ("parameter " ++ name) name objects := by
  unfold parametrize
  rw [if_neg (by simp [hname, htargets])]
  rfl

section Parameter

variable {s : Store} (hs : s.Reachable) {name value : String} {targets : List Endpoint}
  {isLocal : Bool} {tree : HopTree}
  (htree : (s.spanningTree ("parameter " ++ name) name (targets.map fun t => (t, .unset))).result
    = .ok (some tree))

include hs htree

/-- What a request for a parameter asks for is registered afterwards, whether it was created or
not. -/
theorem Reachable.registered_of_parametrize {created : List Handle}
    (hok : (s.parametrize name value targets isLocal).result = .ok created) :
    ∀ d ∈ (Task.parametrizing name value isLocal).demands s none tree,
      ((s.parametrize name value targets isLocal).store.objectById? (s.demandId d)).isSome := by
  intro d hd
  obtain ⟨hname, htargets⟩ := given_of_parametrize hok
  have hfinal : (s.parametrize name value targets isLocal).store.Coherent :=
    (Reachable.exec (.request (.parameter name value targets isLocal)) hs).coherent
  rw [parametrize_of_given s value isLocal hname htargets] at hok hfinal ⊢
  obtain ⟨found, o, made, hstages⟩ := hs.exists_stages hname htree hok
  obtain ⟨texts, rfl⟩ := hstages.interned
  -- The demand is that of a step, and the step is taken for some hop.
  obtain ⟨clash, hstep⟩ := Step.mem_filterMap_demand?.1 hd
  rw [← Task.map_hopSteps] at hstep
  obtain ⟨⟨hop, step⟩, hmem, rfl⟩ := List.mem_map.1 hstep
  obtain ⟨c, hc⟩ := Option.isSome_iff_exists.1 (hstages.makes.registered hstages.ready hmem)
  have hfound : o.store.objectById? (s.demandId d) = some c := hc
  have hcoherent := (hstages.makes.extended hstages.ready).coherent
  rw [hstages.store] at hfinal ⊢
  rw [(lasts_changes (changes_tagObjects _ _ _ _)).keepsLabels.objectById? hcoherent hfinal
    hfound, Option.isSome_some]

/-- Where every id that the plan asks for is taken, nothing is created, and every hop is reported.
-/
theorem Reachable.parametrize_of_taken (hname : name ≠ "") (htargets : targets ≠ [])
    (htaken : ∀ d ∈ (Task.parametrizing name value isLocal).demands s none tree,
      (s.objectById? (s.demandId d)).isSome) :
    s.CreatesNothing (s.parametrize name value targets isLocal)
      (s.takenReports (.parametrizing name value isLocal) isLocal tree
        ++ [Report.nothingCreated ("parameter " ++ name)]) := by
  rw [parametrize_of_given s value isLocal hname htargets,
    hs.thread_of_taken (t := .parametrizing name value isLocal) rfl hname htree htaken]
  refine ⟨rfl, interned_spanningTree s _ _ _, ?_⟩
  have hsilent : Notice.diagnostics (s.spanningTree (Task.parametrizing name value isLocal).request
      (Task.parametrizing name value isLocal).name
      (targets.map fun t => (t, .unset))).notices = [] := spanningTree_silent htree
  rw [Outcome.notices_after, Outcome.notices_after, diagnostics_append, diagnostics_append,
    diagnostics_map, hsilent, List.nil_append]
  rfl

end Parameter

/-- What would be reported of a tree is the same later. -/
theorem Lasts.takenReports_eq {s s' : Store} (h : Lasts s s') (hs : s.Reachable) {t : Task}
    (hname : t.name ≠ "") {ends : List (Endpoint × Heading)} {tree : HopTree}
    (htree : (s.spanningTree t.request t.name ends).result = .ok (some tree)) (isLocal : Bool) :
    s'.takenReports t isLocal tree = s.takenReports t isLocal tree := by
  obtain ⟨o, ho, -⟩ := Task.atHop_cases t none (hs.name_of_passes htree tree.passes_hop).1
  have hv := label?_of_object? ho
  have hv' := h.keepsLabels _ _ hv
  have hroot : s'.rootReports t.request isLocal tree.hop.object
      = s.rootReports t.request isLocal tree.hop.object := by
    rw [rootReports, rootReports, kind?_of_label? hv', kind?_of_label? hv, describe_of_label? hv',
      describe_of_label? hv]
  rw [takenReports, takenReports, hroot, h.demands_eq hs htree]
  congr 1
  exact List.map_congr_left fun d hd => by rw [h.demandId_eq hs htree hname hd]

/-- A request for a parameter that has succeeded creates nothing when it is made again. -/
theorem Reachable.parametrize_again {s : Store} (hs : s.Reachable) {name value : String}
    {targets : List Endpoint} {isLocal : Bool} {created : List Handle}
    (hok : (s.parametrize name value targets isLocal).result = .ok created) {s' : Store}
    (hs' : s'.Reachable) (hstays : Stays (s.parametrize name value targets isLocal).store s') :
    ∃ tree,
      (s.spanningTree ("parameter " ++ name) name (targets.map fun t => (t, .unset))).result
        = .ok (some tree) ∧
      (s'.spanningTree ("parameter " ++ name) name (targets.map fun t => (t, .unset))).result
        = .ok (some tree) ∧
      List.Forall₂ (fun hop d => d.owner = hop.object) tree.hops
        ((Task.parametrizing name value isLocal).demands s none tree) ∧
      s'.CreatesNothing (s'.parametrize name value targets isLocal)
        (s.takenReports (.parametrizing name value isLocal) isLocal tree
          ++ [Report.nothingCreated ("parameter " ++ name)]) := by
  obtain ⟨hname, htargets⟩ := given_of_parametrize hok
  obtain ⟨tree, htree⟩ : ∃ tree, (s.spanningTree (Task.parametrizing name value isLocal).request
      (Task.parametrizing name value isLocal).name
      (targets.map fun t => (t, .unset))).result = .ok (some tree) := by
    have hthread := hok
    rw [parametrize_of_given s value isLocal hname htargets] at hthread
    exact hs.exists_tree hthread
  obtain ⟨hhangs, -⟩ := hs.spanningTree_spec htree
  obtain ⟨-, -, -, -, howners⟩ := Task.exists_steps_of_plan
    (t := .parametrizing name value isLocal) rfl hhangs
    (hs.name_of_passes htree tree.passes_hop).1
  -- Nothing moves while the request is made for the first time, nor after that.
  have hmiddle : (s.parametrize name value targets isLocal).store.Reachable :=
    .exec (.request (.parameter name value targets isLocal)) hs
  have hrun : Stays s (s.parametrize name value targets isLocal).store :=
    hs.stays_exec (c := .request (.parameter name value targets isLocal)) nofun id
  have hall := hrun.trans hstays
  have htree' := hall.spanningTree hs hs' htree
  have htaken : ∀ d ∈ (Task.parametrizing name value isLocal).demands s' none tree,
      (s'.objectById? (s'.demandId d)).isSome := by
    rw [hall.lasts.demands_eq hs htree]
    intro d hd
    obtain ⟨c, hc⟩ := Option.isSome_iff_exists.1 (hs.registered_of_parametrize htree hok d hd)
    rw [hall.lasts.demandId_eq hs htree hname hd,
      hstays.lasts.keepsLabels.objectById? hmiddle.coherent hs'.coherent hc, Option.isSome_some]
  refine ⟨tree, htree, htree', howners, ?_⟩
  rw [← hall.lasts.takenReports_eq hs hname htree]
  exact hs'.parametrize_of_taken htree' hname htargets htaken

/-! ## A connection -/

/-- A signal that has a net is not connected again. -/
theorem connect_of_net {s : Store} {signal : String} (hsignal : signal ≠ "") {net : Handle}
    (hnet : s.netByName? signal = some net) {source : Option Endpoint} {targets : List Endpoint}
    (hends : source.isSome ∨ targets ≠ []) :
    s.connect signal source targets = .fail s (.netExists signal) := by
  have hgiven : ¬ (signal.isEmpty || (source.isNone && targets.isEmpty)) = true := by
    cases source <;> simp_all
  have hfound : s.nets.contains signal = true := by
    rw [OrderedMap.contains, show s.nets.get? signal = some net from hnet, Option.isSome_some]
  unfold connect
  rw [if_neg hgiven, if_pos hfound]

/-- Requests do nothing new when they are repeated.

If a request for a parameter has succeeded, and other commands follow, none of which clears the
store or places a default instance, then the same request finds the same tree again and creates
nothing.  Each hop is reported with the id that its object would have, after what is wrong with
the root if it is an instance, and in the end it is reported that nothing was created.  All objects
and indices stay as they are.

If a connection has created something, and other commands follow, none of which clears the store,
then any other connection of the same signal fails at once, as there is a net of that name. -/
theorem repeated_of_run {s : Store} (hs : s.Reachable) {r : Request} {created : List Handle}
    (hok : (r.run s).result = .ok created) {commands : List Command}
    (hkeep : .clear ∉ commands) :
    (∀ name value targets isLocal, r = .parameter name value targets isLocal →
      (r.run s).store.PlacesNone commands →
      ∃ tree,
        (s.spanningTree r.label name (targets.map fun t => (t, .unset))).result
          = .ok (some tree) ∧
        (((r.run s).store.after commands).spanningTree r.label name
          (targets.map fun t => (t, .unset))).result = .ok (some tree) ∧
        List.Forall₂ (fun hop d => d.owner = hop.object) tree.hops
          ((Task.parametrizing name value isLocal).demands s none tree) ∧
        ((r.run s).store.after commands).CreatesNothing
          (r.run ((r.run s).store.after commands))
          (s.takenReports (.parametrizing name value isLocal) isLocal tree
            ++ [Report.nothingCreated r.label]) ∧
        (Notice.diagnostics (r.run ((r.run s).store.after commands)).notices).map Diagnostic.code
          = s.takenCodes isLocal tree) ∧
    ∀ signal source targets, r = .connection signal source targets → created ≠ [] →
      ∀ source' targets', source'.isSome ∨ targets' ≠ [] →
        Request.run ((r.run s).store.after commands) (.connection signal source' targets')
          = .fail ((r.run s).store.after commands) (.netExists signal) := by
  have hmiddle : (r.run s).store.Reachable := .exec (.request r) hs
  have hs' := hmiddle.after commands
  constructor
  · rintro name value targets isLocal rfl hnone
    obtain ⟨tree, htree, htree', howners, hnothing⟩ :=
      hs.parametrize_again hok hs' (hmiddle.stays_after hkeep hnone)
    refine ⟨tree, htree, htree', howners, hnothing, ?_⟩
    rw [← codes_takenReports howners isLocal, ← hnothing.diagnostics]
    rfl
  · rintro signal source targets rfl hne source' targets' hends
    obtain ⟨-, -, hnet⟩ := hs.framed_connect hok
    have hsignal : signal ≠ "" := by
      rintro rfl
      cases hok
    have hfound := (lasts_after _ hkeep).keepsLabels.netByName? hmiddle.coherent hs'.coherent
      (hnet hne).2.1
    exact connect_of_net hsignal hfound hends

/-- Another module, and another instance of the memory in the leaf. -/
def laterCommands : List Command :=
  [.addModule "fifo" false false, .addInstance "bank" 4 2]

/-- In `nested`, neither a parameter down to the memory nor a signal up from it comes about twice,
although there is another memory in the leaf by then. -/
theorem repeated_nested :
    nested.Reachable ∧ .clear ∉ laterCommands ∧
      (Request.run nested (.parameter "DEPTH" "16" renamedEnds true)).result
        = .ok [7, 8, 9, 10] ∧
      (Request.run nested (.parameter "DEPTH" "16" renamedEnds true)).store.PlacesNone
        laterCommands ∧
      (∃ tree,
        (nested.spanningTree "parameter DEPTH" "DEPTH"
          (renamedEnds.map fun t => (t, .unset))).result = .ok (some tree) ∧
        (((Request.run nested (.parameter "DEPTH" "16" renamedEnds true)).store.after
          laterCommands).spanningTree "parameter DEPTH" "DEPTH"
            (renamedEnds.map fun t => (t, .unset))).result = .ok (some tree) ∧
        List.Forall₂ (fun hop d => d.owner = hop.object) tree.hops
          ((Task.parametrizing "DEPTH" "16" true).demands nested none tree) ∧
        ((Request.run nested (.parameter "DEPTH" "16" renamedEnds true)).store.after
          laterCommands).CreatesNothing
            (Request.run
              ((Request.run nested (.parameter "DEPTH" "16" renamedEnds true)).store.after
                laterCommands) (.parameter "DEPTH" "16" renamedEnds true))
            (nested.takenReports (.parametrizing "DEPTH" "16" true) true tree
              ++ [Report.nothingCreated "parameter DEPTH"]) ∧
        (Notice.diagnostics (Request.run
            ((Request.run nested (.parameter "DEPTH" "16" renamedEnds true)).store.after
              laterCommands) (.parameter "DEPTH" "16" renamedEnds true)).notices).map
                Diagnostic.code
          = nested.takenCodes true tree) ∧
      (Request.run nested (.connection "clk" none [.plain 5, .plain 0])).result
        = .ok [7, 8, 9, 10] ∧
      Request.run
          ((Request.run nested (.connection "clk" none [.plain 5, .plain 0])).store.after
            laterCommands) (.connection "clk" (some (.plain 2)) [])
        = .fail ((Request.run nested (.connection "clk" none [.plain 5, .plain 0])).store.after
            laterCommands) (.netExists "clk") := by
  have hreachable : nested.Reachable := reachable_execAll _
  have hkeep : .clear ∉ laterCommands := by simp [laterCommands]
  have hparameter : (Request.run nested (.parameter "DEPTH" "16" renamedEnds true)).result
      = .ok [7, 8, 9, 10] := rfl
  have hnone : (Request.run nested (.parameter "DEPTH" "16" renamedEnds true)).store.PlacesNone
      laterCommands := by
    refine ⟨id, fun ⟨⟨m, hm, hres⟩, _⟩ => ?_, trivial⟩
    cases hm
    cases hres
  have hconnection : (Request.run nested (.connection "clk" none [.plain 5, .plain 0])).result
      = .ok [7, 8, 9, 10] := rfl
  exact ⟨hreachable, hkeep, hparameter, hnone,
    (repeated_of_run hreachable hparameter hkeep).1 _ _ _ _ rfl hnone, hconnection,
    (repeated_of_run hreachable hconnection hkeep).2 _ _ _ rfl (by simp) (some (.plain 2)) []
      (Or.inl rfl)⟩

end Store

end Interconnect
