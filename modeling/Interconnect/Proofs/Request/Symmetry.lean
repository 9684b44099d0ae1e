import Interconnect.Proofs.Route.Merging
import Interconnect.Proofs.Route.Walking
import Interconnect.Proofs.Store.Texts

/-!
# The order of endpoints does not matter

Two requests that name the same endpoints, in whatever order and however often, do the same.
The endpoints are walked one by one, but the walks are merged into one tree that does not
depend on their order, and everything that follows depends on the tree.  The order shows in
the order in which the names of endpoints are interned, in the endpoint that a failure names,
and in an event that counts the walks.
-/

namespace Interconnect

/-! ## Outcomes that agree -/

/-- The outcomes leave stores that are alike and give the same diagnostics.  They have the same
result, or they fail with related errors. -/
structure Outcome.Agree {ε α : Type} (R : ε → ε → Prop) (o o' : Outcome ε α) : Prop where
  store : Store.Alike o.store o'.store
  diagnostics : Notice.diagnostics o.notices = Notice.diagnostics o'.notices
  result : (∃ a, o.result = .ok a ∧ o'.result = .ok a) ∨
    ∃ e e', o.result = .error e ∧ o'.result = .error e' ∧ R e e'

namespace Outcome.Agree

variable {ε ε' α β : Type} {R : ε → ε → Prop}

theorem done {s s' : Store} (h : Store.Alike s s') (a : α) :
    Agree R (Outcome.done s a) (Outcome.done s' a) :=
  ⟨h, rfl, Or.inl ⟨a, rfl, rfl⟩⟩

theorem fail {s s' : Store} (h : Store.Alike s s') {e e' : ε} (he : R e e') :
    Agree R (Outcome.fail s e : Outcome ε α) (Outcome.fail s' e') :=
  ⟨h, rfl, Or.inr ⟨e, e', rfl, rfl, he⟩⟩

theorem after {o o' : Outcome ε α} (h : Agree R o o') {notices notices' : List Notice}
    (hn : Notice.diagnostics notices = Notice.diagnostics notices') :
    Agree R (o.after notices) (o'.after notices') := by
  refine ⟨h.store, ?_, h.result⟩
  have hd := h.diagnostics
  unfold Notice.diagnostics at hn hd ⊢
  rw [Outcome.notices_after, Outcome.notices_after, List.filterMap_append, List.filterMap_append,
    hn, hd]

theorem andThen {o o' : Outcome ε α} (h : Agree R o o') {f f' : Store → α → Outcome ε β}
    (hf : ∀ s s' a, Store.Alike s s' → Agree R (f s a) (f' s' a)) :
    Agree R (o.andThen f) (o'.andThen f') := by
  rcases h.result with ⟨a, ho, ho'⟩ | ⟨e, e', ho, ho', he⟩
  · rw [Outcome.andThen_of_ok f ho, Outcome.andThen_of_ok f' ho']
    exact (hf _ _ a h.store).after h.diagnostics
  · rw [Outcome.andThen_of_error f ho, Outcome.andThen_of_error f' ho']
    exact ⟨h.store, h.diagnostics, Or.inr ⟨e, e', rfl, rfl, he⟩⟩

theorem map {o o' : Outcome ε α} (h : Agree R o o') (f : α → β) :
    Agree R (o.map f) (o'.map f) := by
  refine ⟨h.store, h.diagnostics, ?_⟩
  rcases h.result with ⟨a, ho, ho'⟩ | ⟨e, e', ho, ho', he⟩
  · exact Or.inl ⟨f a, by rw [Outcome.map, ho]; rfl, by rw [Outcome.map, ho']; rfl⟩
  · exact Or.inr ⟨e, e', by rw [Outcome.map, ho]; rfl, by rw [Outcome.map, ho']; rfl, he⟩

theorem mapError {o o' : Outcome ε α} (h : Agree R o o') {R' : ε' → ε' → Prop} {f : ε → ε'}
    (hf : ∀ e e', R e e' → R' (f e) (f e')) : Agree R' (o.mapError f) (o'.mapError f) := by
  refine ⟨h.store, h.diagnostics, ?_⟩
  rcases h.result with ⟨a, ho, ho'⟩ | ⟨e, e', ho, ho', he⟩
  · exact Or.inl ⟨a, by rw [Outcome.mapError, ho]; rfl, by rw [Outcome.mapError, ho']; rfl⟩
  · exact Or.inr ⟨f e, f e', by rw [Outcome.mapError, ho]; rfl,
      by rw [Outcome.mapError, ho']; rfl, hf e e' he⟩

end Outcome.Agree

/-- The failures are of one kind and differ at most in the endpoints that they name. -/
inductive RequestError.SameKind : RequestError → RequestError → Prop where
  | refl (e : RequestError) : SameKind e e
  | invalidEndpoint (request endpoint endpoint' : String) :
    SameKind (.invalidEndpoint request endpoint) (.invalidEndpoint request endpoint')
  | noCommonStart (request first other first' other' : String) :
    SameKind (.noCommonStart request first other) (.noCommonStart request first' other')

namespace Store

open Outcome

/-! ## What does not look at texts -/

theorem ascend_withTexts (s : Store) (texts : StringTable) (e : Endpoint) (heading : Heading)
    (fuel : Nat) (stage : Stage) (h : Handle) :
    (s.withTexts texts).ascend e heading fuel stage h = s.ascend e heading fuel stage h := by
  induction fuel generalizing stage h with
  | zero => rfl
  | succ fuel ih =>
    unfold ascend
    simp only [ih]
    rfl

theorem walk_withTexts (s : Store) (texts : StringTable) (e : Endpoint) (heading : Heading) :
    (s.withTexts texts).walk e heading = s.walk e heading := by
  unfold walk
  simp only [ascend_withTexts]
  rfl

mutual

/-- A plan is made of what it asks for at each hop. -/
theorem plan_congr {t : Task} {s s' : Store}
    (h : ∀ above hop, t.atHop s' above hop = t.atHop s above hop) (above : Option String)
    (tree : HopTree) : t.plan s' above tree = t.plan s above tree := by
  cases tree with
  | node hop branches =>
    unfold Task.plan
    rw [h above hop, planAll_congr h _ branches]

theorem planAll_congr {t : Task} {s s' : Store}
    (h : ∀ above hop, t.atHop s' above hop = t.atHop s above hop) (above : String)
    (trees : List HopTree) : t.planAll s' above trees = t.planAll s above trees := by
  cases trees with
  | nil => rfl
  | cons tree rest =>
    unfold Task.planAll
    rw [plan_congr h (some above) tree, planAll_congr h above rest]

end

theorem plan_withTexts (t : Task) (s : Store) (texts : StringTable) (above : Option String)
    (tree : HopTree) : t.plan (s.withTexts texts) above tree = t.plan s above tree := by
  have hhop : ∀ above hop, t.atHop (s.withTexts texts) above hop = t.atHop s above hop :=
    fun _ _ => rfl
  exact plan_congr hhop above tree

/-! ## Carrying out and binding -/

variable {s s' : Store}

theorem carryOut_agree (request : String) (steps : List Step) (h : Alike s s') :
    Agree Eq (s.carryOut request steps) (s'.carryOut request steps) := by
  induction steps generalizing s s' with
  | nil => exact .done h []
  | cons step rest ih =>
    cases step with
    | report d => exact (ih h).after rfl
    | stray object =>
      unfold carryOut
      rw [h.describe_eq]
      exact .fail h rfl
    | create demand clash =>
      have hattach := h.attach demand.owner demand.name demand.part
      unfold carryOut
      generalize s.attach demand.owner demand.name demand.part = r at hattach
      generalize s'.attach demand.owner demand.name demand.part = r' at hattach
      cases hattach with
      | @ok a b hab =>
        obtain ⟨s₁, x⟩ := a
        obtain ⟨s₁', x'⟩ := b
        obtain ⟨h₁, rfl⟩ := hab
        dsimp only at h₁ ⊢
        rw [h₁.describe_eq]
        exact ((ih h₁).map _).after rfl
      | error e =>
        cases e with
        | idExists id => exact (ih h).after rfl
        | _ => exact .fail h rfl

theorem realize_agree (t : Task) (tree : HopTree) (h : Alike s s') :
    Agree Eq (s.realize t tree) (s'.realize t tree) := by
  unfold realize
  have hplan : t.plan s' none tree = t.plan s none tree := by
    obtain ⟨texts, -, rfl⟩ := h.exists_withTexts
    exact plan_withTexts t s texts none tree
  rw [hplan]
  exact carryOut_agree _ _ h

theorem joinObjects_agree (request signal : String) (objects : List Handle) (h : Alike s s') :
    Agree Eq (s.joinObjects request signal objects) (s'.joinObjects request signal objects) := by
  unfold joinObjects
  split
  · exact (Agree.done h []).after rfl
  · have hnet := h.addNet signal objects
    generalize s.addNet signal objects = r at hnet
    generalize s'.addNet signal objects = r' at hnet
    cases hnet with
    | @ok a b hab => exact (Agree.done hab.1 objects).after rfl
    | error e => exact .fail h rfl

theorem tagAll_agree (name : String) (objects : List Handle) (h : Alike s s') :
    Agree Eq (tagAll name s objects) (tagAll name s' objects) := by
  induction objects generalizing s s' with
  | nil => exact .done h ()
  | cons x rest ih =>
    have hset := h.setAttribute x "parameter" name true
    unfold tagAll
    generalize s.setAttribute x "parameter" name true = r at hset
    generalize s'.setAttribute x "parameter" name true = r' at hset
    cases hset with
    | ok hab => exact ih hab
    | error e => exact .fail h rfl

theorem tagObjects_agree (request name : String) (objects : List Handle) (h : Alike s s') :
    Agree Eq (s.tagObjects request name objects) (s'.tagObjects request name objects) := by
  unfold tagObjects
  split
  · exact (Agree.done h []).after rfl
  · exact (tagAll_agree name objects h).andThen fun s s' _ h =>
      (Agree.done h objects).after rfl

/-! ## Finding out what to realize -/

theorem internGivenName_eq (s : Store) (e : Endpoint) :
    s.internGivenName e = s.withTexts (s.strings.internAll e.givenName.toList) := by
  unfold internGivenName
  cases e.givenName with
  | none => rfl
  | some name => rfl

/-- If all walks succeed, what they leave behind is in their names. -/
theorem chains_eq (s : Store) {f : Endpoint × Heading → List Hop}
    {ends : List (Endpoint × Heading)} (hf : ∀ e ∈ ends, s.walk e.1 e.2 = .ok (f e)) :
    s.chains ends
      = (s.withTexts (s.strings.internAll (ends.flatMap fun e => e.1.givenName.toList)),
          .ok (ends.map fun e => (f e).reverse)) := by
  induction ends generalizing s with
  | nil => rfl
  | cons e rest ih =>
    obtain ⟨e, heading⟩ := e
    have hhead : (s.internGivenName e).walk e heading = .ok (f (e, heading)) := by
      rw [internGivenName_eq, walk_withTexts]
      exact hf (e, heading) (by simp)
    have hrest : ∀ e' ∈ rest, (s.internGivenName e).walk e'.1 e'.2 = .ok (f e') := by
      intro e' he'
      rw [internGivenName_eq, walk_withTexts]
      exact hf e' (by simp [he'])
    unfold chains
    dsimp only
    rw [hhead]
    dsimp only
    rw [ih _ hrest, internGivenName_eq, List.flatMap_cons]
    unfold StringTable.internAll
    rw [List.foldl_append]
    rfl

/-- The hops of a walk, if it succeeds. -/
def hopsOf (s : Store) (e : Endpoint × Heading) : List Hop :=
  (s.walk e.1 e.2).toOption.getD []

theorem Reachable.walk_eq_hopsOf {s : Store} (hs : s.Reachable) {e : Endpoint × Heading}
    (hend : s.isEndpoint e.1.object = true) : s.walk e.1 e.2 = .ok (s.hopsOf e) := by
  obtain ⟨hops, -, hok⟩ := hs.exists_walks hend e.2
  rw [hopsOf, hok]
  rfl

theorem spanningTree_agree (hs : s.Reachable) (request name : String)
    {ends ends' : List (Endpoint × Heading)} (h : SameMembers ends ends') :
    Agree RequestError.SameKind (s.spanningTree request name ends)
      (s.spanningTree request name ends') := by
  have hfind := h.find?_isSome fun e => !s.isEndpoint e.1.object
  unfold spanningTree
  cases hbad : ends.find? fun e => !s.isEndpoint e.1.object with
  | some e =>
    rw [hbad, Option.isSome_some] at hfind
    obtain ⟨e', hbad'⟩ := Option.isSome_iff_exists.1 hfind.symm
    rw [hbad']
    exact .fail (.refl s) (.invalidEndpoint _ _ _)
  | none =>
    rw [hbad, Option.isSome_none] at hfind
    rw [Option.isNone_iff_eq_none.1 (Option.isSome_eq_false_iff.1 hfind.symm)]
    have hwalk : ∀ e ∈ ends, s.walk e.1 e.2 = .ok (s.hopsOf e) := fun e he =>
      hs.walk_eq_hopsOf (by simpa using List.find?_eq_none.1 hbad e he)
    have hwalk' : ∀ e ∈ ends', s.walk e.1 e.2 = .ok (s.hopsOf e) := fun e he =>
      hwalk e ((h e).2 he)
    rw [chains_eq s hwalk, chains_eq s hwalk']
    dsimp only
    have hnames : ∀ text, (text ∈ ends.flatMap fun e => e.1.givenName.toList) ↔
        text ∈ ends'.flatMap fun e => e.1.givenName.toList := by
      intro text
      simp only [List.mem_flatMap, h _]
    have halike := (Alike.withTexts s (StringTable.perm_internAll_of_same s.strings hnames)).intern
      name
    rcases HopTree.merge_congr name (h.map fun e => (s.hopsOf e).reverse) with
      ⟨e, e', hmerge, hmerge'⟩ | hmerge
    · rw [hmerge, hmerge']
      exact (Agree.fail halike (.noCommonStart _ _ _ _ _)).after rfl
    · rw [hmerge]
      cases HopTree.merge name (ends'.map fun e => (s.hopsOf e).reverse) with
      | error e => exact (Agree.fail halike (.noCommonStart _ _ _ _ _)).after rfl
      | ok merged =>
        cases merged with
        | none => exact (Agree.fail halike (.refl _)).after rfl
        | some merged =>
          dsimp only
          cases merged.reduce with
          | none => exact (Agree.done halike none).after rfl
          | some tree => exact (Agree.done halike (some tree)).after rfl

theorem thread_agree (hs : s.Reachable) (t : Task) {ends ends' : List (Endpoint × Heading)}
    (h : SameMembers ends ends')
    {bind : Store → List Handle → Outcome StoreError (List Handle)}
    (hbind : ∀ s s' objects, Alike s s' → Agree Eq (bind s objects) (bind s' objects)) :
    Agree RequestError.SameKind (s.thread t ends bind) (s.thread t ends' bind) := by
  unfold thread
  refine (spanningTree_agree hs t.request t.name h).andThen fun s₁ s₁' tree h₁ => ?_
  cases tree with
  | none => exact .done h₁ []
  | some tree =>
    have hrealize : Agree RequestError.SameKind
        ((s₁.realize t tree).mapError RequestError.inconsistent)
        ((s₁'.realize t tree).mapError RequestError.inconsistent) :=
      (realize_agree t tree h₁).mapError fun e e' he => he ▸ .refl _
    exact hrealize.andThen fun s₂ s₂' objects h₂ =>
      (hbind s₂ s₂' objects h₂).mapError fun e e' he => he ▸ .refl _

end Store

namespace Request

/-- The requests are the same, but for the order and the repetition of their targets. -/
inductive Same : Request → Request → Prop where
  | connection (signal : String) (source : Option Endpoint) {targets targets' : List Endpoint} :
    (∀ e, e ∈ targets ↔ e ∈ targets') →
    Same (.connection signal source targets) (.connection signal source targets')
  | parameter (name value : String) {targets targets' : List Endpoint} (isLocal : Bool) :
    (∀ e, e ∈ targets ↔ e ∈ targets') →
    Same (.parameter name value targets isLocal) (.parameter name value targets' isLocal)

end Request

namespace Store

theorem sameMembers_connectionEnds (source : Option Endpoint) {targets targets' : List Endpoint}
    (h : SameMembers targets targets') :
    SameMembers (connectionEnds source targets) (connectionEnds source targets') := by
  rintro ⟨e, heading⟩
  rw [mem_connectionEnds, mem_connectionEnds, h e]

theorem connect_agree {s : Store} (hs : s.Reachable) (signal : String) (source : Option Endpoint)
    {targets targets' : List Endpoint} (h : SameMembers targets targets') :
    Outcome.Agree RequestError.SameKind (s.connect signal source targets)
      (s.connect signal source targets') := by
  have hempty : targets.isEmpty = targets'.isEmpty := by
    rw [Bool.eq_iff_iff, List.isEmpty_iff, List.isEmpty_iff, h.eq_nil_iff]
  unfold connect
  rw [hempty]
  split
  · exact .fail (.refl s) (.refl _)
  · split
    · exact .fail (.refl s) (.refl _)
    · exact thread_agree hs _ (sameMembers_connectionEnds source h) fun _ _ objects h =>
        joinObjects_agree _ signal objects h

theorem parametrize_agree {s : Store} (hs : s.Reachable) (name value : String)
    {targets targets' : List Endpoint} (isLocal : Bool) (h : SameMembers targets targets') :
    Outcome.Agree RequestError.SameKind (s.parametrize name value targets isLocal)
      (s.parametrize name value targets' isLocal) := by
  have hempty : targets.isEmpty = targets'.isEmpty := by
    rw [Bool.eq_iff_iff, List.isEmpty_iff, List.isEmpty_iff, h.eq_nil_iff]
  unfold parametrize
  rw [hempty]
  split
  · exact .fail (.refl s) (.refl _)
  · exact thread_agree hs _ (h.map _) fun _ _ objects h => tagObjects_agree _ name objects h

end Store

/-- On a reachable store the order and the repetition of targets does not matter. -/
theorem run_agree_of_same {s : Store} (hs : s.Reachable) {r r' : Request} (h : r.Same r') :
    (r.run s).Agree RequestError.SameKind (r'.run s) := by
  cases h with
  | connection signal source h => exact Store.connect_agree hs signal source h
  | parameter name value isLocal h => exact Store.parametrize_agree hs name value isLocal h

/-- Two targets on `nested`, the same backwards and one of them twice. -/
theorem run_agree_nested :
    Store.nested.Reachable ∧
      (Request.connection "clk" none [.plain 5, .plain 0]).Same
        (.connection "clk" none [.plain 0, .plain 5, .plain 0]) ∧
      ((Request.connection "clk" none [.plain 5, .plain 0]).run Store.nested).Agree
        RequestError.SameKind
        ((Request.connection "clk" none [.plain 0, .plain 5, .plain 0]).run Store.nested) ∧
      ((Request.connection "clk" none [.plain 5, .plain 0]).run Store.nested).result
        = .ok [7, 8, 9, 10] := by
  have hreachable : Store.nested.Reachable := Store.reachable_execAll _
  have hsame : (Request.connection "clk" none [.plain 5, .plain 0]).Same
      (.connection "clk" none [.plain 0, .plain 5, .plain 0]) := by
    refine .connection "clk" none fun e => ?_
    simp only [List.mem_cons, List.not_mem_nil, or_false]
    constructor
    · rintro (h | h) <;> simp [h]
    · rintro (h | h | h) <;> simp [h]
  exact ⟨hreachable, hsame, run_agree_of_same hreachable hsame, rfl⟩

end Interconnect
