import Interconnect.Proofs.Procedure.Aggregation
import Interconnect.Proofs.Procedure.Spanning

/-!
# Requests, step by step

A tree is visited hop by hop, and each hop asks for its object on the store that the hops before it
have left behind.  Only parts are added on the way, and so each hop asks for what was planned.  In
the end the objects are bound together.

On a reachable store a request carried out in this way does what the request is, down to the last
notice.
-/

namespace Interconnect

/-! ## Outcomes one after the other -/

namespace Outcome

variable {ε α β γ : Type}

theorem after_andThen (notices : List Notice) (o : Outcome ε α) (f : Store → α → Outcome ε β) :
    (o.after notices).andThen f = (o.andThen f).after notices := by
  unfold andThen
  rw [result_after]
  cases o.result with
  | ok a => simp [after]
  | error e => rfl

theorem map_andThen (o : Outcome ε α) (g : α → β) (f : Store → β → Outcome ε γ) :
    (o.map g).andThen f = o.andThen fun s a => f s (g a) := by
  unfold andThen map
  cases o.result <;> rfl

theorem map_map (o : Outcome ε α) (f : α → β) (g : β → γ) :
    (o.map f).map g = o.map fun a => g (f a) := by
  unfold map
  cases o.result <;> rfl

theorem andThen_map (o : Outcome ε α) (f : Store → α → Outcome ε β) (g : β → γ) :
    (o.andThen f).map g = o.andThen fun s a => (f s a).map g := by
  unfold andThen
  cases o.result <;> rfl

end Outcome

namespace Store

/-- Steps are carried out part by part. -/
theorem carryOut_append (request : String) (s : Store) (steps steps' : List Step) :
    s.carryOut request (steps ++ steps')
      = (s.carryOut request steps).andThen fun s' own =>
          (s'.carryOut request steps').map (own ++ ·) := by
  induction steps generalizing s with
  | nil =>
    show _ = ((s.carryOut request steps').map id).after []
    simp [Outcome.map, Outcome.after, Except.map_id]
  | cons step rest ih =>
    cases step with
    | report d => simp only [List.cons_append, carryOut, ih, Outcome.after_andThen]
    | stray object => rfl
    | create demand clash =>
      simp only [List.cons_append, carryOut]
      split
      · rename_i s₁ h _
        simp only [ih, Outcome.after_andThen, Outcome.map_andThen, Outcome.andThen_map,
          Outcome.map_map, List.cons_append]
      · simp only [ih, Outcome.after_andThen]
      · rfl
      · rfl

/-! ## The plan stays -/

section Attach

variable {s s' : Store} {owner h : Handle} {name : String} {p : Part}

theorem mem_texts_attach (hok : s.attach owner name p = .ok (s', h)) {text : String}
    (hmem : text ∈ s.strings.texts) : text ∈ s'.strings.texts := by
  obtain ⟨-, o, -, -, -, -, heq⟩ := attach_cases hok
  rw [← show (s.createPart o name p).1 = s' by rw [heq]]
  exact (StringTable.mem_internAll _ _ _).2 (Or.inl hmem)

/-- Adding a part changes nothing that a hop looks at. -/
theorem atHop_attach (hs : s.Coherent) (hok : s.attach owner name p = .ok (s', h)) (t : Task)
    (above : Option String) (hop : Hop) : t.atHop s' above hop = t.atHop s above hop := by
  unfold Task.atHop
  cases ho : s.object? hop.object with
  | some o =>
    obtain ⟨o', ho', -, rfl | rfl⟩ := attach_keeps hs hok ho
    · rw [ho']
    · rw [ho']
      obtain ⟨handle, id, name, attributes, body⟩ := o
      cases body with
      | part owner q => cases q <;> cases p <;> rfl
      | _ => cases p <;> rfl
  | none =>
    cases ho' : s'.object? hop.object with
    | none => rfl
    | some o' =>
      -- The only new object is a part.
      obtain ⟨rfl, hsize, x, hx, -, hbody⟩ := attach_holds hs hok
      have hlt := lt_size_of_outline? (outline?_of_object? ho')
      have hle : ¬ hop.object < s.size := fun hlt => by
        obtain ⟨o, hsome⟩ := Option.isSome_iff_exists.1 (Arena.get?_isSome.2 hlt)
        rw [show s.object? hop.object = some o from hsome] at ho
        cases ho
      rw [hsize] at hlt
      have hnew : hop.object = s.size :=
        Nat.le_antisymm (Nat.lt_succ_iff.1 hlt) (Nat.not_lt.1 hle)
      rw [hnew, hx] at ho'
      cases ho'
      dsimp only
      rw [hbody]

end Attach

/-- So it is after any number of parts. -/
theorem carryOut_keeps {s : Store} (hs : s.Coherent) (request : String) {steps : List Step}
    (hnew : ∀ step ∈ steps, step.IsNew) :
    (∀ t above hop, Task.atHop t (s.carryOut request steps).store above hop
      = Task.atHop t s above hop) ∧
    ∀ text ∈ s.strings.texts, text ∈ (s.carryOut request steps).store.strings.texts := by
  induction steps generalizing s with
  | nil => exact ⟨fun _ _ _ => rfl, fun _ h => h⟩
  | cons step rest ih =>
    have hrest : ∀ step ∈ rest, step.IsNew := fun step h => hnew step (List.mem_cons_of_mem _ h)
    cases step with
    | report d => exact ih hs hrest
    | stray object => exact ⟨fun _ _ _ => rfl, fun _ h => h⟩
    | create demand clash =>
      have hpart : demand.part.IsNew := hnew (.create demand clash) List.mem_cons_self
      unfold carryOut
      split
      · rename_i s₁ h hok
        obtain ⟨hplan, htexts⟩ := ih (Coherent.change (.part hpart hok) hs) hrest
        exact ⟨fun t above hop => (hplan t above hop).trans (atHop_attach hs hok t above hop),
          fun text hmem => htexts text (mem_texts_attach hok hmem)⟩
      · exact ih hs hrest
      · exact ⟨fun _ _ _ => rfl, fun _ h => h⟩
      · exact ⟨fun _ _ _ => rfl, fun _ h => h⟩

end Store

namespace Procedure

variable {ε : Type}

/-! ## Realizing a tree -/

/-- Reports an object where headings clash. -/
def noteClash (request id : String) (clash : Bool) : Procedure ε Unit :=
  if clash then note (.diagnostic (Report.headingClash request id)) else return ()

/-- Carries out steps.  A taken id is reported, and any other refusal is a contradiction. -/
def carryOut (request : String) : List Step → Procedure Inconsistency (List Handle)
  | [] => return []
  | .report d :: rest => do
    note (.diagnostic d)
    carryOut request rest
  | .stray object :: _ => do refuse (.notRealizable request (← describe object))
  | .create demand clash :: rest => do
    match ← attempt (attach demand.owner demand.name demand.part) with
    | .ok h =>
      let id ← describe h
      note (.event (.realized id))
      noteClash request id clash
      return h :: (← carryOut request rest)
    | .error (.idExists id) =>
      note (.diagnostic (Report.idTaken request id))
      carryOut request rest
    | .error (.inconsistent cause) => refuse cause
    | .error e => refuse (.refused request e.message)

/-- What a hop asks for.  Its object is shown and its name is read.  A module that is not on top
takes over a name, which has to be there. -/
def askHop (t : Task) (above : Option String) (onTop : Bool) (hop : Hop) :
    Procedure Inconsistency (List Step × String) := do
  let shown ← describe hop.object
  let _ ← nameOf hop
  let isModule ← read fun s => (s.module? hop.object).isSome
  if isModule && !onTop && above.isNone then
    stop (.internal (t.request ++ ": module hop '" ++ shown ++ "' has no parent"))
  read fun s => t.atHop s above hop

mutual

/-- Creates what a tree asks for, in pre-order. -/
def visit (t : Task) (above : Option String) (onTop : Bool) :
    HopTree → Procedure Inconsistency (List Handle)
  | .node hop branches => do
    let asked ← askHop t above onTop hop
    let own ← carryOut t.request asked.1
    return own ++ (← visitAll t asked.2 branches)

/-- Creates what several trees ask for, one tree after the other. -/
def visitAll (t : Task) (above : String) : List HopTree → Procedure Inconsistency (List Handle)
  | [] => return []
  | tree :: rest => do
    let own ← visit t (some above) false tree
    return own ++ (← visitAll t above rest)

end

section Realizing

theorem carryOut_follows {s : Store} (hs : s.Sound) (request : String) {steps : List Step}
    (hnew : ∀ step ∈ steps, step.IsNew) :
    Follows (carryOut request steps) s (s.carryOut request steps) := by
  induction steps generalizing s with
  | nil => exact .done [] s
  | cons step rest ih =>
    have hrest : ∀ step ∈ rest, step.IsNew := fun step h => hnew step (List.mem_cons_of_mem _ h)
    cases step with
    | report d => exact .noted (ih hs hrest)
    | stray object => exact .step (describe_follows hs object) (.fail _ s)
    | create demand clash =>
      have hpart : demand.part.IsNew := hnew (.create demand clash) List.mem_cons_self
      have hattach : Follows (attempt (attach demand.owner demand.name demand.part) :
          Procedure Inconsistency _) s _ :=
        (attach_follows hs demand.owner demand.name demand.part).attempt
      unfold Store.carryOut
      cases hr : s.attach demand.owner demand.name demand.part with
      | ok created =>
        obtain ⟨s₁, h⟩ := created
        have hsound : s₁.Sound := hs.change (.part hpart hr)
        have hdone : Follows (attempt (attach demand.owner demand.name demand.part) :
            Procedure Inconsistency _) s (.done s₁ (.ok h)) := by
          rw [hr] at hattach
          exact hattach
        refine .step hdone (.step (describe_follows hsound h) (.noted ?_))
        cases clash with
        | true => exact .noted ((ih hsound hrest).map (h :: ·))
        | false => exact .step (.done () s₁) ((ih hsound hrest).map (h :: ·))
      | error e =>
        have hrefused : Follows (attempt (attach demand.owner demand.name demand.part) :
            Procedure Inconsistency _) s (.done s (.error e)) := by
          rw [hr] at hattach
          exact hattach
        cases e with
        | idExists id => exact .step hrefused (.noted (ih hs hrest))
        | _ => exact .step hrefused (.fail _ s)

theorem askHop_follows {s : Store} (hs : s.Sound) (t : Task) (above : Option String) {hop : Hop}
    (hhop : hop.IsRecorded s.strings) :
    Follows (askHop t above above.isNone hop) s (.done s (t.atHop s above hop)) := by
  refine .step (describe_follows hs _) (.step (nameOf_follows hhop) (.step (.read _ s) ?_))
  cases above with
  | none => simpa using Follows.read _ s
  | some name => simpa using Follows.read _ s

mutual

/-- A visit carries out the plan. -/
theorem visit_follows {s : Store} (hs : s.Sound) (t : Task) (above : Option String)
    (tree : HopTree) (hnames : ∀ hop, tree.Passes hop → hop.IsRecorded s.strings) :
    Follows (visit t above above.isNone tree) s (s.carryOut t.request (t.plan s above tree)) := by
  cases tree with
  | node hop branches =>
    have hnew := Store.isNew_atHop t s above hop
    obtain ⟨hplan, htexts⟩ := Store.carryOut_keeps hs.coherent t.request hnew
    unfold visit Task.plan
    rw [Store.carryOut_append]
    refine .step (askHop_follows hs t above (hnames hop .top)) ?_
    refine .andThen (carryOut_follows hs t.request hnew) fun own _ => .map ?_ _
    rw [← Store.planAll_congr fun above hop => hplan t above hop]
    refine visitAll_follows (hs.changes (Store.changes_carryOut s t.request _ hnew)) t _ branches ?_
    exact fun tree htree hop hp n hn => htexts n (hnames hop (.branch htree hp) n hn)

theorem visitAll_follows {s : Store} (hs : s.Sound) (t : Task) (above : String)
    (trees : List HopTree)
    (hnames : ∀ tree ∈ trees, ∀ hop, tree.Passes hop → hop.IsRecorded s.strings) :
    Follows (visitAll t above trees) s (s.carryOut t.request (t.planAll s above trees)) := by
  cases trees with
  | nil => exact .done [] s
  | cons tree rest =>
    have hnew := Store.isNew_plan t s (some above) tree
    obtain ⟨hplan, htexts⟩ := Store.carryOut_keeps hs.coherent t.request hnew
    unfold visitAll Task.planAll
    rw [Store.carryOut_append]
    refine .andThen (visit_follows hs t (some above) tree (hnames tree List.mem_cons_self))
      fun own _ => .map ?_ _
    rw [← Store.planAll_congr fun above hop => hplan t above hop]
    refine visitAll_follows (hs.changes (Store.changes_carryOut s t.request _ hnew)) t above rest ?_
    exact fun tree htree hop hp n hn =>
      htexts n (hnames tree (List.mem_cons_of_mem _ htree) hop hp n hn)

end

end Realizing

/-! ## Binding -/

/-- Joins objects into a net. -/
def joinObjects (request signal : String) (objects : List Handle) :
    Procedure StoreError (List Handle) :=
  if objects.isEmpty then do
    note (.diagnostic (Report.nothingCreated request))
    return []
  else do
    let net ← addNet signal objects
    note (.event (.netCreated signal (Store.distinct objects).length))
    let shown ← describe net
    note (.event (.netAggregated shown objects.length))
    return objects

def tagAll (name : String) : List Handle → Procedure StoreError Unit
  | [] => return ()
  | h :: rest => do
    setAttribute h "parameter" name true
    tagAll name rest

/-- Tags objects with the name of a parameter. -/
def tagObjects (request name : String) (objects : List Handle) :
    Procedure StoreError (List Handle) :=
  if objects.isEmpty then do
    note (.diagnostic (Report.nothingCreated request))
    return []
  else do
    tagAll name objects
    note (.event (.parameterTagged name objects.length))
    return objects

section Binding

variable {s : Store} (hs : s.Sound)

include hs

theorem joinObjects_follows (request signal : String) (objects : List Handle) :
    Follows (joinObjects request signal objects) s (s.joinObjects request signal objects) := by
  unfold joinObjects Store.joinObjects
  split
  · exact .noted (.done [] s)
  · have hnet := addNet_follows hs signal objects
    cases hr : s.addNet signal objects with
    | error e =>
      rw [hr] at hnet
      exact .stopped hnet
    | ok created =>
      obtain ⟨s', net⟩ := created
      rw [hr] at hnet
      have hsound : s'.Sound := hs.change (.net hr)
      exact .step hnet (.noted (.step (describe_follows hsound net) (.noted (.done _ s'))))

omit hs in
theorem tagAll_follows {s : Store} (hs : s.Sound) (name : String) (objects : List Handle) :
    Follows (tagAll name objects) s (Store.tagAll name s objects) := by
  induction objects generalizing s with
  | nil => exact .done () s
  | cons h rest ih =>
    have htag := setAttribute_follows hs h "parameter" name true
    unfold Store.tagAll
    cases hr : s.setAttribute h "parameter" name true with
    | error e =>
      rw [hr] at htag
      exact .stopped htag
    | ok s' =>
      rw [hr] at htag
      exact .step htag (ih (hs.change (.writing hr)))

theorem tagObjects_follows (request name : String) (objects : List Handle) :
    Follows (tagObjects request name objects) s (s.tagObjects request name objects) := by
  unfold tagObjects Store.tagObjects
  split
  · exact .noted (.done [] s)
  · exact .andThen (tagAll_follows hs name objects) fun _ _ => .noted (.done objects _)

end Binding

/-! ## Requests -/

/-- Realizes what is left between some endpoints, and binds it together. -/
def thread (t : Task) (ends : List (Endpoint × Heading))
    (bind : List Handle → Procedure StoreError (List Handle)) :
    Procedure RequestError (List Handle) := do
  match ← spanningTree t.request t.name ends with
  | none => return []
  | some tree =>
    let objects ← mapError .inconsistent (visit t none true tree)
    mapError .store (bind objects)

/-- Connects a signal between endpoints. -/
def connect (signal : String) (source : Option Endpoint) (targets : List Endpoint) :
    Procedure RequestError (List Handle) :=
  let request := "connection " ++ signal
  if signal.isEmpty || (source.isNone && targets.isEmpty) then refuse (.emptyRequest request)
  else do
    match ← find Store.nets signal with
    | some _ => refuse (.netExists signal)
    | none =>
      thread { request, name := signal, mode := .signal } (Store.connectionEnds source targets)
        (joinObjects request signal)

/-- Gives a parameter to every target. -/
def parametrize (name value : String) (targets : List Endpoint) (isLocal : Bool) :
    Procedure RequestError (List Handle) :=
  let request := "parameter " ++ name
  if name.isEmpty || targets.isEmpty then refuse (.emptyRequest request)
  else
    thread { request, name, mode := .parameter value isLocal }
      (targets.map fun t => (t, .unset)) (tagObjects request name)

/-- Carries out a request. -/
def run : Request → Procedure RequestError (List Handle)
  | .connection signal source targets => connect signal source targets
  | .parameter name value targets isLocal => parametrize name value targets isLocal

section Requests

variable {s : Store} (hs : s.Reachable)

include hs

theorem thread_follows (t : Task) (ends : List (Endpoint × Heading))
    {bind : List Handle → Procedure StoreError (List Handle)}
    {bound : Store → List Handle → Outcome StoreError (List Handle)}
    (hbind : ∀ {s : Store}, s.Sound → ∀ objects,
      Follows (bind objects) s (bound s objects)) :
    Follows (thread t ends bind) s (s.thread t ends bound) := by
  have hsound := hs.sound.changes (Store.changes_spanningTree s t.request t.name ends)
  unfold thread Store.thread
  refine .andThen (spanningTree_follows hs t.request t.name ends) fun tree? htree => ?_
  cases tree? with
  | none => exact .done [] _
  | some tree =>
    have hvisit := visit_follows hsound t none tree fun hop hp => recorded_of_passes hs htree hp
    have hrealized := hsound.changes (Store.changes_realize _ t tree)
    exact .andThen (hvisit.mapError _) fun objects _ => (hbind hrealized objects).mapError _

theorem connect_follows (signal : String) (source : Option Endpoint) (targets : List Endpoint) :
    Follows (connect signal source targets) s (s.connect signal source targets) := by
  unfold connect Store.connect
  dsimp only
  split
  · exact .fail _ s
  · refine .step (find_follows hs.sound (Or.inr rfl) hs.sound.coherent.nets signal) ?_
    unfold OrderedMap.contains
    cases s.nets.get? signal with
    | some net => exact .fail _ s
    | none => exact thread_follows hs _ _ fun h objects => joinObjects_follows h _ signal objects

theorem parametrize_follows (name value : String) (targets : List Endpoint) (isLocal : Bool) :
    Follows (parametrize name value targets isLocal) s
      (s.parametrize name value targets isLocal) := by
  unfold parametrize Store.parametrize
  dsimp only
  split
  · exact .fail _ s
  · exact thread_follows hs _ _ fun h objects => tagObjects_follows h _ name objects

/-- A request that is carried out step by step does what the request is. -/
theorem run_follows (r : Request) : Follows (run r) s (r.run s) := by
  cases r with
  | connection signal source targets => exact connect_follows hs signal source targets
  | parameter name value targets isLocal =>
    exact parametrize_follows hs name value targets isLocal

end Requests

end Procedure

end Interconnect
