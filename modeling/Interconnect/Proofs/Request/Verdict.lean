import Interconnect.Proofs.Request.Completion
import Interconnect.Session.Basic

/-!
# Which requests fail

`Refuses` says when a request fails, and with which error, in terms of the request and the store
before it.  A request without a name or an endpoint fails; then a connection whose net exists;
then a request with an endpoint that is neither a module nor an instance; then one whose endpoints
have different roots.  No other request fails, and one that fails has changed nothing but the
texts that the store knows.
-/

namespace Interconnect

namespace Request

/-- The name of the signal or the parameter. -/
def name : Request → String
  | connection signal .. => signal
  | parameter name .. => name

/-- The endpoints, with the source before the targets. -/
def endpoints : Request → List Endpoint
  | connection _ source targets => source.toList ++ targets
  | parameter _ _ targets _ => targets

/-- There is no name or no endpoint. -/
def IsEmpty (r : Request) : Prop :=
  r.name = "" ∨ r.endpoints = []

end Request

namespace Store

/-- The object is neither a module nor an instance. -/
def IsStray (s : Store) (h : Handle) : Prop :=
  s.kind? h ≠ some .module ∧ s.kind? h ≠ some .inst

instance (s : Store) (h : Handle) : Decidable (s.IsStray h) :=
  inferInstanceAs (Decidable (_ ∧ _))

/-- The signal has a net already. -/
def HasNet (s : Store) : Request → Prop
  | .connection signal .. => (s.netByName? signal).isSome
  | .parameter .. => False

/-- Why a request fails. -/
inductive Refuses (s : Store) (r : Request) : RequestError → Prop where
  | emptyRequest : r.IsEmpty → Refuses s r (.emptyRequest r.label)
  | netExists : ¬ r.IsEmpty → s.HasNet r → Refuses s r (.netExists r.name)
  | invalidEndpoint {e : Endpoint} : ¬ r.IsEmpty → ¬ s.HasNet r →
    r.endpoints.find? (fun e => s.IsStray e.object) = some e →
    Refuses s r (.invalidEndpoint r.label (s.describe e.object))
  | noCommonStart {first other : Endpoint} {others : List Endpoint} {root root' : Handle} :
    ¬ r.IsEmpty → ¬ s.HasNet r → (∀ e ∈ r.endpoints, ¬ s.IsStray e.object) →
    r.endpoints = first :: others →
    others.find? (fun e => s.hierarchyRoot e.object ≠ s.hierarchyRoot first.object) = some other →
    s.hierarchyRoot first.object = .ok root → s.hierarchyRoot other.object = .ok root' →
    Refuses s r (.noCommonStart r.label (s.describe root) (s.describe root'))

/-- A request fails for one reason. -/
theorem Refuses.unique {s : Store} {r : Request} {e e' : RequestError} (h : s.Refuses r e)
    (h' : s.Refuses r e') : e = e' := by
  cases h with
  | emptyRequest hempty =>
    cases h' with
    | emptyRequest _ => rfl
    | netExists hgiven | invalidEndpoint hgiven | noCommonStart hgiven => exact absurd hempty hgiven
  | netExists hgiven hnet =>
    cases h' with
    | emptyRequest hempty => exact absurd hempty hgiven
    | netExists _ _ => rfl
    | invalidEndpoint _ hfree | noCommonStart _ hfree => exact absurd hnet hfree
  | invalidEndpoint hgiven hfree hfind =>
    cases h' with
    | emptyRequest hempty => exact absurd hempty hgiven
    | netExists _ hnet => exact absurd hnet hfree
    | invalidEndpoint _ _ hfind' =>
      rw [hfind] at hfind'
      cases hfind'
      rfl
    | noCommonStart _ _ hgood =>
      have hstray := List.find?_some hfind
      exact absurd (of_decide_eq_true hstray) (hgood _ (List.mem_of_find?_eq_some hfind))
  | noCommonStart hgiven hfree hgood hends hfind hroot hroot' =>
    cases h' with
    | emptyRequest hempty => exact absurd hempty hgiven
    | netExists _ hnet => exact absurd hnet hfree
    | invalidEndpoint _ _ hfind' =>
      have hstray := List.find?_some hfind'
      exact absurd (of_decide_eq_true hstray) (hgood _ (List.mem_of_find?_eq_some hfind'))
    | noCommonStart _ _ _ hends' hfind' hr hr' =>
      rw [hends] at hends'
      cases hends'
      rw [hfind] at hfind'
      cases hfind'
      rw [hroot] at hr
      cases hr
      rw [hroot'] at hr'
      cases hr'
      rfl

/-! ## The tree of a request is served -/

theorem isEndpoint_eq_false_iff {s : Store} {h : Handle} :
    (!s.isEndpoint h) = decide (s.IsStray h) := by
  have hiff : s.isEndpoint h = true ↔ ¬ s.IsStray h := by
    unfold isEndpoint IsStray kind?
    cases s.object? h with
    | none => simp
    | some o => simp [Decidable.or_iff_not_not_and_not]
  by_cases hstray : s.IsStray h
  · have hnot : ¬ s.isEndpoint h = true := fun hend => hiff.1 hend hstray
    simp [hstray, hnot]
  · simp [hstray, hiff.2 hstray]

theorem isEndpoint_of_not_isStray {s : Store} {h : Handle} (hh : ¬ s.IsStray h) :
    s.isEndpoint h = true := by
  have heq := isEndpoint_eq_false_iff (s := s) (h := h)
  simpa [hh] using heq

end Store

theorem Endpoint.givenName_ne {e : Endpoint} {n : String} (h : e.givenName = some n) : n ≠ "" := by
  unfold givenName at h
  obtain ⟨-, hgiven⟩ := Option.filter_eq_some_iff.1 h
  simpa using hgiven

/-- The name at a hop is the one that the endpoint supplies. -/
theorem Endpoint.givenName_of_hop {e : Endpoint} {heading : Heading} {h : Handle} {stage : Stage}
    {n : String} (hn : (e.hop heading h stage).name = some n) : e.givenName = some n := by
  unfold hop at hn
  dsimp only at hn
  split at hn
  · exact hn
  · cases hn

namespace Store

variable {s : Store}

/-- Every hop of the tree is in the hierarchy, and its name is that of the request or one that an
endpoint supplies. -/
theorem Reachable.name_of_passes (hs : s.Reachable) {request name : String}
    {ends : List (Endpoint × Heading)} {tree : HopTree}
    (hok : (s.spanningTree request name ends).result = .ok (some tree)) {hop : Hop}
    (hp : tree.Passes hop) :
    (s.above? hop.object).isSome ∧
      ∃ n, hop.name = some n ∧ (n = name ∨ ∃ e ∈ ends, e.1.givenName = some n) := by
  obtain ⟨chains, merged, height, hall, hone, -, hgrow, hreduce⟩ := hs.exists_grow hok
  obtain ⟨first, others, rfl, -, hrest⟩ :=
    HopTree.isJoint_of_passes hone hgrow ((HopTree.within_of_reduce hreduce).passes hp)
  -- Each hop that is joined here is a hop of a walk.
  have hheads : ∀ c ∈ first :: others, (s.above? c.head.object).isSome ∧
      ∀ n, c.head.name = some n → ∃ e ∈ ends, e.1.givenName = some n := by
    intro c hc
    obtain ⟨whole, hwhole, hmem⟩ := (hrest c hc).head_mem
    obtain ⟨e, he, hof⟩ := exists_left_of_mem hall hwhole
    obtain ⟨hplace, stage, heq⟩ := hof.exists_hop_eq hmem
    refine ⟨hplace, fun n hn => ⟨e, he, ?_⟩⟩
    rw [heq] at hn
    exact Endpoint.givenName_of_hop hn
  constructor
  · rw [Chain.object_jointHop]
    exact (hheads first List.mem_cons_self).1
  · rcases Chain.name_jointHop name first others with ⟨-, hnone⟩ | ⟨c, hc, n, hn, heq⟩
    · exact ⟨name, hnone, Or.inl rfl⟩
    · exact ⟨n, heq, Or.inr ((hheads c hc).2 n hn)⟩

/-- Every hop of the tree has a name. -/
theorem Reachable.named_of_passes (hs : s.Reachable) {request name : String}
    (hname : name ≠ "") {ends : List (Endpoint × Heading)} {tree : HopTree}
    (hok : (s.spanningTree request name ends).result = .ok (some tree)) {hop : Hop}
    (hp : tree.Passes hop) : (s.above? hop.object).isSome ∧ ∃ n, hop.name = some n ∧ n ≠ "" := by
  obtain ⟨hplace, n, hn, rfl | ⟨e, -, hgiven⟩⟩ := hs.name_of_passes hok hp
  · exact ⟨hplace, n, hn, hname⟩
  · exact ⟨hplace, n, hn, Endpoint.givenName_ne hgiven⟩

/-- What the objects of a tree are like before they are bound together. -/
structure Realized (s : Store) (t : Task) (s' : Store) (objects : List Handle) : Prop where
  changes : Changes s s'
  nets : s'.nets = s.nets
  nodup : objects.Nodup
  untagged : ∀ c ∈ objects, s'.IsUntagged c
  canJoin : t.mode = .signal → ∀ c ∈ objects, s'.CanJoin c

/-- The steps for the tree of some endpoints can be carried out. -/
theorem Reachable.isSound_of_mem_plan (hs : s.Reachable) {t : Task} (hname : t.name ≠ "")
    {ends : List (Endpoint × Heading)} {tree : HopTree}
    (htree : (s.spanningTree t.request t.name ends).result = .ok (some tree))
    (texts : StringTable) :
    ∀ step ∈ t.plan (s.withTexts texts) none tree, (s.withTexts texts).IsSound step := by
  obtain ⟨hhangs, -⟩ := hs.spanningTree_spec htree
  refine Task.sound_plan (hangs_withTexts hhangs texts) (fun hop hp => ?_) fun _ h => by cases h
  obtain ⟨hplace, n, hn, hne⟩ := hs.named_of_passes hname htree hp
  exact ⟨hplace, by rwa [Task.nameAt, hn, Option.getD_some]⟩

/-- The tree of some endpoints is realized. -/
theorem Reachable.realize_completes (hs : s.Reachable) {t : Task} (hname : t.name ≠ "")
    {ends : List (Endpoint × Heading)} {tree : HopTree}
    (htree : (s.spanningTree t.request t.name ends).result = .ok (some tree)) :
    ∃ objects,
      ((s.spanningTree t.request t.name ends).store.realize t tree).result = .ok objects ∧
      Realized s t ((s.spanningTree t.request t.name ends).store.realize t tree).store objects := by
  have hchanges := changes_spanningTree s t.request t.name ends
  obtain ⟨-, -, texts, htexts⟩ := hs.spanningTree_spec htree
  rw [htexts] at hchanges ⊢
  have hcoherent := hs.coherent.withTexts texts
  have hsound := hs.isSound_of_mem_plan hname htree texts
  obtain ⟨objects, hok, hcompleted⟩ :=
    carryOut_completes hcoherent t.request (isNew_plan t _ none tree) hsound
  refine ⟨objects, hok, ?_⟩
  constructor
  case changes => exact hchanges.trans (changes_realize _ t tree)
  case nets => exact hcompleted.nets
  case nodup => exact hcompleted.nodup
  case untagged => exact hcompleted.untagged
  case canJoin =>
    intro ht
    refine hcompleted.canJoin fun d hd => ?_
    obtain ⟨clash, hstep⟩ := Step.mem_filterMap_demand?.1 hd
    exact (asked_of_mem_plan hstep).joinsNets ht

/-- Where endpoints have a tree, the request succeeds if what it creates can be bound. -/
theorem Reachable.thread_completes (hs : s.Reachable) {t : Task} (hname : t.name ≠ "")
    {ends : List (Endpoint × Heading)} {tree? : Option HopTree}
    (htree : (s.spanningTree t.request t.name ends).result = .ok tree?)
    {bind : Store → List Handle → Outcome StoreError (List Handle)}
    (hbind : ∀ s' objects, Realized s t s' objects →
      ∃ created, (bind s' objects).result = .ok created) :
    ∃ created, (s.thread t ends bind).result = .ok created := by
  unfold thread
  rw [Outcome.andThen_of_ok _ htree]
  cases tree? with
  | none => exact ⟨[], rfl⟩
  | some tree =>
    obtain ⟨objects, hok, hrealized⟩ := hs.realize_completes hname htree
    obtain ⟨created, hcreated⟩ := hbind _ objects hrealized
    dsimp only
    rw [Outcome.andThen_of_ok _ (Outcome.mapError_eq_ok.2 hok)]
    exact ⟨created, Outcome.mapError_eq_ok.2 hcreated⟩

/-- Where endpoints have no tree, the request fails in the same way. -/
theorem Fails.thread {t : Task} {ends : List (Endpoint × Heading)} {e : RequestError}
    (h : s.Fails (s.spanningTree t.request t.name ends) e)
    (bind : Store → List Handle → Outcome StoreError (List Handle)) :
    s.Fails (s.thread t ends bind) e := by
  unfold Store.thread
  rw [Outcome.andThen_of_error _ h.result]
  exact ⟨rfl, h.silent, h.interned⟩

/-- Every module and every instance has a root. -/
theorem Reachable.exists_hierarchyRoot (hs : s.Reachable) {h : Handle} (hh : ¬ s.IsStray h) :
    ∃ root, s.hierarchyRoot h = .ok root := by
  have hkind : s.kind? h = some .module ∨ s.kind? h = some .inst := by
    simpa [IsStray, Decidable.or_iff_not_not_and_not] using hh
  obtain ⟨path, hclimbs⟩ := hs.rooted h (isSome_above?_iff.2 hkind)
  obtain ⟨root, hlast, -⟩ := hclimbs.getLast?_eq
  exact ⟨root, hierarchyRoot_eq_ok hclimbs hlast⟩

/-! ## The verdict -/

/-- The request fails for a reason, or there is none and it succeeds. -/
def Decided (s : Store) (r : Request) (o : Outcome RequestError (List Handle)) : Prop :=
  (∃ e, s.Refuses r e ∧ s.Fails o e) ∨
    (∀ e, ¬ s.Refuses r e) ∧ ∃ created, o.result = .ok created

theorem fails_fail {ε α : Type} (s : Store) (e : ε) : s.Fails (Outcome.fail s e : Outcome ε α) e :=
  ⟨rfl, rfl, s.strings, List.prefix_rfl, rfl⟩

section Thread

variable (hs : s.Reachable) {r : Request} (hgiven : ¬ r.IsEmpty) (hfree : ¬ s.HasNet r)
  {t : Task} (hrequest : t.request = r.label) (hname : t.name = r.name)
  {ends : List (Endpoint × Heading)} (hends : ends.map Prod.fst = r.endpoints)
  {bind : Store → List Handle → Outcome StoreError (List Handle)}
  (hbind : ∀ s' objects, Realized s t s' objects →
    ∃ created, (bind s' objects).result = .ok created)

include hs hgiven hfree hrequest hname hends hbind

/-- Whether modules and instances are served depends on their roots. -/
theorem Reachable.decided_thread_of_good (hgood : ∀ e ∈ r.endpoints, ¬ s.IsStray e.object) :
    s.Decided r (s.thread t ends bind) := by
  have hwalkable : ∀ e ∈ ends, s.isEndpoint e.1.object = true := fun e he => by
    refine isEndpoint_of_not_isStray (hgood e.1 ?_)
    rw [← hends]
    exact List.mem_map_of_mem he
  have hnonempty : ends ≠ [] := fun hnil => hgiven (Or.inr (by rw [← hends, hnil]; rfl))
  obtain ⟨first, others, rfl⟩ := List.exists_cons_of_ne_nil hnonempty
  rw [List.map_cons] at hends
  have hothers : (others.map Prod.fst).find?
        (fun e => s.hierarchyRoot e.object ≠ s.hierarchyRoot first.1.object)
      = (others.find? fun e => s.hierarchyRoot e.1.object ≠ s.hierarchyRoot first.1.object).map
        Prod.fst := by
    rw [List.find?_map]
    rfl
  cases hfindApart : others.find?
      fun e => s.hierarchyRoot e.1.object ≠ s.hierarchyRoot first.1.object with
  | some other =>
    rw [hfindApart] at hothers
    have hmem : other.1 ∈ r.endpoints := by
      rw [← hends]
      exact List.mem_cons_of_mem _ (List.mem_map_of_mem (List.mem_of_find?_eq_some hfindApart))
    obtain ⟨root, hroot⟩ := hs.exists_hierarchyRoot
      (hgood first.1 (hends ▸ List.mem_cons_self))
    obtain ⟨root', hroot'⟩ := hs.exists_hierarchyRoot (hgood other.1 hmem)
    refine Or.inl ⟨_, .noCommonStart hgiven hfree hgood hends.symm hothers hroot hroot', ?_⟩
    rw [← hrequest]
    exact (hs.spanningTree_apart _ _ hwalkable hfindApart hroot hroot').thread bind
  | none =>
    rw [hfindApart] at hothers
    obtain ⟨tree?, htree, -⟩ := hs.spanningTree_together t.request t.name hwalkable hfindApart
    refine Or.inr ⟨fun e he => ?_, hs.thread_completes ?_ htree hbind⟩
    · cases he with
      | emptyRequest hempty => exact hgiven hempty
      | netExists _ hnet => exact hfree hnet
      | invalidEndpoint _ _ hfind =>
        refine hgood _ (List.mem_of_find?_eq_some hfind) ?_
        simpa using List.find?_some hfind
      | noCommonStart _ _ _ hends' hfind _ _ =>
        rw [← hends] at hends'
        cases hends'
        rw [hothers] at hfind
        cases hfind
    · exact fun hempty => hgiven (Or.inl (hname ▸ hempty))

/-- Whether endpoints are served depends on what they are and on their roots. -/
theorem Reachable.decided_thread : s.Decided r (s.thread t ends bind) := by
  have hfind : r.endpoints.find? (fun e => s.IsStray e.object)
      = (ends.find? fun e => !s.isEndpoint e.1.object).map Prod.fst := by
    simp only [← hends, List.find?_map, isEndpoint_eq_false_iff]
    rfl
  cases hstray : ends.find? fun e => !s.isEndpoint e.1.object with
  | some e =>
    rw [hstray] at hfind
    refine Or.inl ⟨_, .invalidEndpoint hgiven hfree hfind, Fails.thread ?_ bind⟩
    unfold spanningTree
    rw [hstray, hrequest]
    exact fails_fail s _
  | none =>
    rw [hstray, Option.map_none] at hfind
    refine hs.decided_thread_of_good hgiven hfree hrequest hname hends hbind fun e he => ?_
    simpa using List.find?_eq_none.1 hfind e he

end Thread

/-- Every request is decided by what it asks for and by the store before it. -/
theorem Reachable.decided_run (hs : s.Reachable) (r : Request) : s.Decided r (r.run s) := by
  cases r with
  | connection signal source targets =>
    have hempty : (signal.isEmpty || (source.isNone && targets.isEmpty)) = true ↔
        Request.IsEmpty (.connection signal source targets) := by
      unfold Request.IsEmpty Request.name Request.endpoints
      cases source <;> simp
    show s.Decided _ (s.connect signal source targets)
    unfold connect
    split
    · rename_i hgiven
      exact Or.inl ⟨_, .emptyRequest (hempty.1 hgiven), fails_fail s _⟩
    · rename_i hgiven
      rw [hempty] at hgiven
      split
      · rename_i hnet
        exact Or.inl ⟨_, .netExists hgiven hnet, fails_fail s _⟩
      · rename_i hnet
        refine hs.decided_thread hgiven hnet rfl rfl ?_ fun s' objects hrealized => ?_
        · exact map_fst_connectionEnds source targets
        · have hfresh : s'.nets.get? signal = none := by
            rw [hrealized.nets]
            simpa [OrderedMap.contains] using hnet
          obtain ⟨hcoherent, hidentified⟩ := hs.identified.changes hrealized.changes hs.coherent
          exact joinObjects_completes _ (fun hnil => hgiven (Or.inl hnil)) hfresh
            (hidentified.free hcoherent.toIndexed (Or.inr (Or.inr rfl)) hcoherent.nets hfresh)
            (hrealized.canJoin rfl)
  | parameter name value targets isLocal =>
    have hempty : (name.isEmpty || targets.isEmpty) = true ↔
        Request.IsEmpty (.parameter name value targets isLocal) := by
      simp [Request.IsEmpty, Request.name, Request.endpoints]
    show s.Decided _ (s.parametrize name value targets isLocal)
    unfold parametrize
    split
    · rename_i hgiven
      exact Or.inl ⟨_, .emptyRequest (hempty.1 hgiven), fails_fail s _⟩
    · rename_i hgiven
      rw [hempty] at hgiven
      refine hs.decided_thread hgiven id rfl rfl ?_ fun s' objects hrealized => ?_
      · simp [Request.endpoints, Function.comp_def]
      · exact tagObjects_completes _ name hrealized.nodup hrealized.untagged

end Store

/-! ## Sessions -/

namespace Session

open Store

theorem absorb_notices (w : Session) (span : Option String) (notices : List Notice) :
    (notices.foldl (notice span) w).store = w.store ∧
      (notices.foldl (notice span) w).sink
        = (Notice.diagnostics notices).foldl Sink.emit w.sink := by
  induction notices generalizing w with
  | nil => exact ⟨rfl, rfl⟩
  | cons n rest ih =>
    rw [List.foldl_cons]
    cases n with
    | event e => exact ih _
    | diagnostic d => exact ih _

/-- An operation hands its store and its diagnostics over. -/
theorem absorb_eq {ε α : Type} (w : Session) (span : Option String) (o : Outcome ε α) :
    (w.absorb span o).1.store = o.store ∧
      (w.absorb span o).1.sink = (Notice.diagnostics o.notices).foldl Sink.emit w.sink :=
  absorb_notices { w with store := o.store } span o.notices

/-- A request that fails hands its error over and leaves the sink alone. -/
theorem exec_of_fails {w : Session} {r : Request} {e : RequestError}
    (h : w.store.Fails (r.run w.store) e) :
    (w.exec (.request r)).2 = .error (.request e) ∧ (w.exec (.request r)).1.sink = w.sink ∧
      w.store.Interned (w.exec (.request r)).1.store := by
  obtain ⟨hstore, hsink⟩ := absorb_eq w (spanOf (.request r)) (w.store.exec (.request r))
  refine ⟨?_, ?_, ?_⟩
  · show (((r.run w.store).map Answer.objects).mapError Failure.request).result = _
    rw [Outcome.mapError, Outcome.map, h.result]
    rfl
  · refine hsink.trans ?_
    show (Notice.diagnostics (r.run w.store).notices).foldl Sink.emit w.sink = w.sink
    rw [h.silent]
    rfl
  · rw [show (w.exec (.request r)).1.store = (r.run w.store).store from hstore]
    exact h.interned

/-- A request fails exactly if it is refused, with that error, and otherwise it succeeds.  It meets
neither a refusal of the store nor an inconsistency.  One that fails leaves everything as it is, but
for texts that the store knows afterwards. -/
theorem exec_request_decided {w : Session} (hw : w.store.Reachable) (r : Request) :
    (∀ e, (w.exec (.request r)).2 = .error (.request e) ↔ w.store.Refuses r e) ∧
    ((∀ e, ¬ w.store.Refuses r e) → ∃ created, (w.exec (.request r)).2 = .ok (.objects created)) ∧
    (∀ e, (w.exec (.request r)).2 ≠ .error (.request (.store e))) ∧
    (∀ cause, (w.exec (.request r)).2 ≠ .error (.request (.inconsistent cause))) ∧
    ∀ failure, (w.exec (.request r)).2 = .error failure →
      (w.exec (.request r)).1.sink = w.sink ∧
      ∃ texts, w.store.strings.texts <+: texts.texts ∧
        (w.exec (.request r)).1.store = w.store.withTexts texts := by
  rcases hw.decided_run r with ⟨e, hrefuses, hfails⟩ | ⟨hnone, created, hok⟩
  · obtain ⟨herror, hsink, hinterned⟩ := exec_of_fails hfails
    rw [herror]
    refine ⟨fun e' => ?_, fun hnot => absurd hrefuses (hnot e), fun e' heq => ?_,
      fun cause heq => ?_, fun _ _ => ⟨hsink, hinterned⟩⟩
    · constructor
      · intro heq
        cases heq
        exact hrefuses
      · intro h
        rw [hrefuses.unique h]
    · cases heq
      cases hrefuses
    · cases heq
      cases hrefuses
  · have hresult : (w.exec (.request r)).2 = .ok (.objects created) := by
      show (((r.run w.store).map Answer.objects).mapError Failure.request).result = _
      rw [Outcome.mapError, Outcome.map, hok]
      rfl
    rw [hresult]
    refine ⟨fun e => ?_, fun _ => ⟨created, rfl⟩, fun e heq => ?_, fun cause heq => ?_,
      fun failure heq => ?_⟩
    · constructor
      · intro heq
        cases heq
      · exact fun h => absurd h (hnone e)
    · cases heq
    · cases heq
    · cases heq

/-- The resource of `nested` is a root of its own, and the instance on top is another one. -/
theorem exec_request_nested :
    nested.Reachable ∧
      (exec { start with store := nested } (.request (.connection "x" none [.plain 4, .plain 0]))).2
        = .error (.request (.noCommonStart "connection x" "module::ram" "instance::top")) ∧
      nested.Refuses (.connection "x" none [.plain 4, .plain 0])
        (.noCommonStart "connection x" "module::ram" "instance::top") := by
  have hreachable : nested.Reachable := reachable_execAll _
  have hfailed : (exec { start with store := nested }
        (.request (.connection "x" none [.plain 4, .plain 0]))).2
      = .error (.request (.noCommonStart "connection x" "module::ram" "instance::top")) := rfl
  obtain ⟨hiff, -⟩ := exec_request_decided (w := { start with store := nested }) hreachable
    (.connection "x" none [.plain 4, .plain 0])
  exact ⟨hreachable, hfailed, (hiff _).1 hfailed⟩

end Session

end Interconnect
