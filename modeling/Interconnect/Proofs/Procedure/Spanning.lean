import Interconnect.Proofs.Procedure.Lookup
import Interconnect.Proofs.Request.Verdict

/-!
# Walks and trees, step by step

An endpoint's name is interned before the walk from it starts, and from there on the hops carry its
number.  Merging compares the names behind the numbers, so it reads every one of them.

On a sound store, the procedures follow the walks and find the tree that there is to find, and the
names at its hops have numbers.
-/

namespace Interconnect

/-- The name at the hop is in the table. -/
def Hop.IsRecorded (t : StringTable) (hop : Hop) : Prop :=
  ∀ n, hop.name = some n → n ∈ t.texts

namespace Procedure

variable {ε : Type}

/-- The name at a hop, read by its number. -/
def nameOf (hop : Hop) : Procedure ε (Option String) :=
  match hop.name with
  | some n => return some (← resolve n)
  | none => return none

/-! ## Walks -/

/-- The hops from `h` up to its root. -/
def ascend (e : Endpoint) (heading : Heading) :
    Nat → Stage → Handle → Procedure Inconsistency (List Hop)
  | 0, _, _ => do refuse (.endlessClimb (← describe e.object))
  | fuel + 1, stage, h => do
    match ← read fun s => (s.object? h).bind Object.above? with
    | none =>
      let shown ← describe h
      refuse (.strayObject shown (← describe e.object))
    | some none => return [e.hop heading h stage]
    | some (some upper) =>
      return e.hop heading h stage :: (← ascend e heading fuel stage.above upper)

/-- The hops from an endpoint up to the root of its hierarchy. -/
def walk (e : Endpoint) (heading : Heading) : Procedure Inconsistency (List Hop) := do
  match ← read fun s => s.object? e.object with
  | none => refuse (.danglingEndpoint e.object)
  | some o =>
    match o.body with
    | .module _ => ascend e heading ((← read Store.size) + 1) .endpoint e.object
    | .inst i =>
      match ← read fun s => s.module? i.module with
      | none => refuse (.notAPlacement (← describe e.object))
      | some m =>
        if m.resource then
          match i.parent with
          | none => return [e.hop heading e.object .endpoint]
          | some parent =>
            let fuel ← read Store.size
            return e.hop heading e.object .endpoint
              :: (← ascend e heading fuel (.beyond true) parent)
        else ascend e heading ((← read Store.size) + 1) .endpoint i.module
    | _ => refuse (.notWalkable o.kind.name (← describe e.object))

/-- Walks from several endpoints, one after the other, and turns each walk round. -/
def chains : List (Endpoint × Heading) → Procedure Inconsistency (List (List Hop))
  | [] => return []
  | (e, heading) :: rest => do
    change fun s => s.internGivenName e
    let hops ← walk e heading
    return hops.reverse :: (← chains rest)

section Walks

variable {s : Store} (hs : s.Sound)

include hs

theorem ascend_follows (e : Endpoint) (heading : Heading) (fuel : Nat) (stage : Stage)
    (h : Handle) :
    Follows (ascend e heading fuel stage h) s (.check s (s.ascend e heading fuel stage h)) := by
  induction fuel generalizing stage h with
  | zero => exact .step (describe_follows hs _) (.fail _ s)
  | succ fuel ih =>
    refine .step (.read _ s) ?_
    unfold Store.ascend
    cases (s.object? h).bind Object.above? with
    | none => exact .step (describe_follows hs h) (.step (describe_follows hs _) (.fail _ s))
    | some above =>
      cases above with
      | none => exact .done _ s
      | some upper => exact .mapCheck (ih stage.above upper) _

theorem walk_follows (e : Endpoint) (heading : Heading) :
    Follows (walk e heading) s (.check s (s.walk e heading)) := by
  refine .step (.read _ s) ?_
  unfold Store.walk
  cases s.object? e.object with
  | none => exact .fail _ s
  | some o =>
    dsimp only
    cases o.body with
    | module m => exact .step (.read _ s) (ascend_follows hs e heading _ _ _)
    | inst i =>
      refine .step (.read _ s) ?_
      dsimp only
      cases s.module? i.module with
      | none => exact .step (describe_follows hs _) (.fail _ s)
      | some m =>
        dsimp only
        split
        · cases i.parent with
          | none => exact .done _ s
          | some parent =>
            exact .step (.read _ s) (.mapCheck (ascend_follows hs e heading _ _ _) _)
        · exact .step (.read _ s) (ascend_follows hs e heading _ _ _)
    | _ => exact .step (describe_follows hs _) (.fail _ s)

omit hs in
/-- Names are interned even if a later walk fails. -/
theorem chains_follows {s : Store} (hs : s.Sound) (ends : List (Endpoint × Heading)) :
    Follows (chains ends) s
      { store := (s.chains ends).1, notices := [], result := (s.chains ends).2 } := by
  induction ends generalizing s with
  | nil => exact .done [] s
  | cons e rest ih =>
    obtain ⟨e, heading⟩ := e
    have hinterned := hs.changes (Store.changes_internGivenName s e)
    refine .step (.change _ s) ?_
    have hwalk := walk_follows hinterned e heading
    unfold Store.chains
    dsimp only
    cases hr : (s.internGivenName e).walk e heading with
    | error cause =>
      rw [hr] at hwalk
      exact .stopped hwalk
    | ok hops =>
      rw [hr] at hwalk
      refine .step hwalk ?_
      have hrest := ih hinterned
      cases hothers : ((s.internGivenName e).chains rest).2 with
      | error cause =>
        rw [hothers] at hrest
        exact .stopped hrest
      | ok others =>
        rw [hothers] at hrest
        exact .step hrest (.done _ _)

end Walks

/-! ## Trees -/

/-- Reads the names at some hops. -/
def readNames : List Hop → Procedure ε Unit
  | [] => return ()
  | hop :: rest => do
    let _ ← nameOf hop
    readNames rest

/-- The tree that is left to realize between some endpoints. -/
def spanningTree (request name : String) (ends : List (Endpoint × Heading)) :
    Procedure RequestError (Option HopTree) := do
  match ← read fun s => ends.find? fun e => !s.isEndpoint e.1.object with
  | some (e, _) => refuse (.invalidEndpoint request (← describe e.object))
  | none =>
    let chains ← mapError .inconsistent (chains ends)
    change fun s => s.intern name
    note (.event (.hierarchyWalked chains.length))
    readNames chains.flatten
    match HopTree.merge name chains with
    | .error e =>
      let first ← describe e.first
      refuse (.noCommonStart request first (← describe e.other))
    | .ok none => refuse (.emptyRequest request)
    | .ok (some merged) =>
      note (.event (.chainsMerged merged.size))
      match merged.reduce with
      | none =>
        note (.diagnostic (Report.nothingLeft request))
        return none
      | some tree =>
        let top ← describe tree.hop.object
        note (.event (.treeReduced top tree.size))
        return some tree

section Trees

variable {s : Store}

theorem nameOf_follows {hop : Hop} (hhop : hop.IsRecorded s.strings) :
    Follows (nameOf hop : Procedure ε _) s (.done s hop.name) := by
  unfold nameOf
  cases hn : hop.name with
  | none => exact .done none s
  | some n => exact .step (.resolve (hhop n hn)) (.done (some n) s)

theorem readNames_follows {hops : List Hop} (hall : ∀ hop ∈ hops, hop.IsRecorded s.strings) :
    Follows (readNames hops : Procedure ε _) s (.done s ()) := by
  induction hops with
  | nil => exact .done () s
  | cons hop rest ih =>
    exact .step (nameOf_follows (hall hop List.mem_cons_self))
      (ih fun hop hhop => hall hop (List.mem_cons_of_mem _ hhop))

/-- Walking from endpoints gives hops with names that were interned for them. -/
theorem exists_chains_recorded (hs : s.Reachable) {ends : List (Endpoint × Heading)}
    (hends : ∀ e ∈ ends, s.isEndpoint e.1.object = true) :
    ∃ texts hops, s.chains ends = (s.withTexts texts, .ok hops) ∧
      ∀ hop ∈ hops.flatten, hop.IsRecorded texts := by
  refine ⟨_, _, Store.chains_eq s fun e he => hs.walk_eq_hopsOf (hends e he), ?_⟩
  intro hop hhop n hn
  obtain ⟨chain, hchain, hmem⟩ := List.mem_flatten.1 hhop
  obtain ⟨e, he, rfl⟩ := List.mem_map.1 hchain
  obtain ⟨hops, hwalks, hok⟩ := hs.exists_walks (hends e he) e.2
  rw [hs.walk_eq_hopsOf (hends e he)] at hok
  cases hok
  obtain ⟨-, stage, heq⟩ := hwalks.exists_hop_eq (List.mem_reverse.1 hmem)
  rw [heq] at hn
  have hgiven := Endpoint.givenName_of_hop hn
  exact (StringTable.mem_internAll _ _ _).2
    (Or.inr (List.mem_flatMap.2 ⟨e, he, by simp [hgiven]⟩))

theorem spanningTree_follows (hs : s.Reachable) (request name : String)
    (ends : List (Endpoint × Heading)) :
    Follows (spanningTree request name ends) s (s.spanningTree request name ends) := by
  refine .step (.read _ s) ?_
  unfold Store.spanningTree
  cases hfind : ends.find? fun e => !s.isEndpoint e.1.object with
  | some e => exact .step (describe_follows hs.sound _) (.fail _ s)
  | none =>
    have hends : ∀ e ∈ ends, s.isEndpoint e.1.object = true := fun e he => by
      simpa using List.find?_eq_none.1 hfind e he
    obtain ⟨texts, hops, hchains, hrecorded⟩ := exists_chains_recorded hs hends
    have hwalked := (chains_follows hs.sound ends).mapError RequestError.inconsistent
    have hsound := hs.sound.changes ((Store.changes_chains s ends).tail (.intern name))
    rw [hchains] at hwalked hsound ⊢
    have hread : Follows (readNames hops.flatten : Procedure RequestError _) _
        (.done ((s.withTexts texts).intern name) ()) :=
      readNames_follows fun hop hhop n hn =>
        (StringTable.mem_intern _ _ _).2 (Or.inl (hrecorded hop hhop n hn))
    refine .step hwalked (.step (.change _ _) ?_)
    dsimp only
    cases HopTree.merge name hops with
    | error e =>
      refine .noted (.step hread ?_)
      exact .step (describe_follows hsound _) (.step (describe_follows hsound _) (.fail _ _))
    | ok merged =>
      cases merged with
      | none => exact .noted (.step hread (.fail _ _))
      | some merged =>
        dsimp only
        cases merged.reduce with
        | none => exact .noted (.step hread (.noted (.noted (.done _ _))))
        | some tree =>
          refine .noted (.step hread (.noted ?_))
          exact .step (describe_follows hsound _) (.noted (.done _ _))

end Trees

/-- The names at the hops of the tree have been interned. -/
theorem recorded_of_passes {s : Store} (hs : s.Reachable) {request name : String}
    {ends : List (Endpoint × Heading)} {tree : HopTree}
    (hok : (s.spanningTree request name ends).result = .ok (some tree)) {hop : Hop}
    (hp : tree.Passes hop) : hop.IsRecorded (s.spanningTree request name ends).store.strings := by
  intro n hn
  obtain ⟨hends, s₁, chains, merged, hchains, -, -, hstore⟩ := Store.spanningTree_cases hok
  rw [Store.chains_eq s fun e he => hs.walk_eq_hopsOf (hends e he)] at hchains
  cases hchains
  rw [hstore]
  refine (StringTable.mem_intern _ _ _).2 ?_
  obtain ⟨-, n', hn', hfrom⟩ := hs.name_of_passes hok hp
  rw [hn] at hn'
  cases hn'
  rcases hfrom with rfl | ⟨e, he, hgiven⟩
  · exact Or.inr rfl
  · exact Or.inl ((StringTable.mem_internAll _ _ _).2
      (Or.inr (List.mem_flatMap.2 ⟨e, he, by simp [hgiven]⟩)))

end Procedure

end Interconnect
