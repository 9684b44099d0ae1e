import Interconnect.Proofs.Procedure.Construction

/-!
# Nets and attributes, step by step

The members of a net are checked before there is a net, and indexed again to be told of it.  An
attribute is written after its texts have been interned.  On a sound store, the procedures follow
the operations.
-/

namespace Interconnect.Procedure

variable {ε α : Type}

/-! ## Nets -/

/-- Refuses an object that is no port, pin or declaration. -/
def notAMember (o : Object) : Procedure StoreError α := do
  refuse (.inconsistent (.notAMember o.kind.name (← resolve o.id)))

def expectJoinable (h : Handle) : Procedure StoreError Unit := do
  let o ← expectObject h
  match o.body with
  | .part _ p =>
    if !p.joinsNets then notAMember o
    match p.net? with
    | some net =>
      let id ← resolve o.id
      refuse (.alreadyInNet id (← describe net))
    | none => return ()
  | _ => notAMember o

/-- Makes an object a member of a net. -/
def enlist (net : Handle) (name id : String) (h : Handle) : Procedure ε Unit := do
  change (Store.stampAll h [("signal", name), ("net", name), ("netid", id)])
  let _ ← item h
  change fun s => s.modify h (Store.joinNet net)

/-- Goes through a list. -/
def forEach (f : Handle → Procedure ε Unit) : List Handle → Procedure ε Unit
  | [] => return ()
  | h :: rest => do
    f h
    forEach f rest

def addNet (name : String) (members : List Handle) : Procedure StoreError Handle := do
  if name.isEmpty then refuse (.emptyName "net")
  if (← find Store.nets name).isSome then refuse (.netExists name)
  let id := Kind.net.objectId name
  expectFree id
  let members := Store.distinct members
  forEach expectJoinable members
  let h ← insert id name (.net members) []
  forEach (enlist h name id) members
  register .net name h
  return h

/-! ## Attributes -/

/-- Refuses to write a constant attribute. -/
def constantAttribute (o : Object) (name : String) : Procedure StoreError α := do
  refuse (.constantAttribute (← resolve o.id) name)

def setAttribute (h : Handle) (name value : String) (constant : Bool) :
    Procedure StoreError Unit := do
  if name.isEmpty then refuse (.emptyName "attribute")
  let o ← expectObject h
  let known ← read fun s => s.strings.contains name
  if known && (o.attributes.get? name).any Attribute.constant then
    constantAttribute o name
  change fun s => { s with strings := s.strings.internAll [name, value] }
  let _ ← item h
  change fun s => s.modify h (Object.write name { value, constant })

/-- Writes several attributes.  Every pair is tried, and the first refusal is given. -/
def setAttributes (h : Handle) : List (String × String) → Procedure StoreError Unit
  | [] => return ()
  | (name, value) :: rest => do
    match ← attempt (setAttribute h name value false) with
    | .ok () => setAttributes h rest
    | .error e =>
      let _ ← (attempt (setAttributes h rest) : Procedure StoreError _)
      refuse e

section Sound

variable {s : Store}

theorem forEach_check {f : Handle → Procedure ε Unit} {g : Handle → Except ε Unit}
    (h : ∀ x, Follows (f x) s (.check s (g x))) (xs : List Handle) :
    Follows (forEach f xs) s (.check s (xs.forM g)) := by
  induction xs with
  | nil => exact .done () s
  | cons x rest ih => exact .bindMap (h x) fun _ _ => ih

theorem exists_object?_of_lt {h : Handle} (hlt : h < s.size) : ∃ o, s.object? h = some o :=
  Option.isSome_iff_exists.1 (Arena.get?_isSome.2 hlt)

theorem enlist_follows {h : Handle} (hlt : h < s.size) (net : Handle) (name id : String) :
    Follows (enlist net name id h : Procedure ε _) s (.done (Store.enlist net name id s h) ()) := by
  have hsize : (s.stampAll h [("signal", name), ("net", name), ("netid", id)]).size = s.size := by
    simp [Store.stampAll]
  obtain ⟨o, ho⟩ := exists_object?_of_lt (hsize ▸ hlt)
  exact .step (.change _ s) (.step (.item ho) (.change _ _))

theorem size_enlist (net : Handle) (name id : String) (s : Store) (h : Handle) :
    (Store.enlist net name id s h).size = s.size := by
  simp [Store.enlist]

theorem forEach_enlist {members : List Handle} (hall : ∀ c ∈ members, c < s.size) (net : Handle)
    (name id : String) :
    Follows (forEach (enlist net name id) members : Procedure ε _) s
      (.done (members.foldl (Store.enlist net name id) s) ()) := by
  induction members generalizing s with
  | nil => exact .done () s
  | cons c rest ih =>
    refine .step (enlist_follows (hall c List.mem_cons_self) net name id) (ih fun x hx => ?_)
    rw [size_enlist]
    exact hall x (List.mem_cons_of_mem c hx)

/-- An object keeps its id when objects are made members of a net. -/
theorem object?_enlistAll {h : Handle} {o : Object} (ho : s.object? h = some o) (net : Handle)
    (name id : String) (members : List Handle) :
    ∃ o', (members.foldl (Store.enlist net name id) s).object? h = some o' ∧ o'.id = o.id := by
  have hlabel := Store.label?_congr (Store.outline?_enlistAll net name id s members)
  have hv : (members.foldl (Store.enlist net name id) s).label? h = some o.outline.toLabel := by
    rw [hlabel, Store.label?_of_object? ho]
  obtain ⟨o', ho', heq⟩ := Store.label?_eq_some_iff.1 hv
  exact ⟨o', ho', congrArg Label.id heq⟩

variable (hs : s.Sound)

include hs

theorem notAMember_follows {h : Handle} {o : Object} (ho : s.object? h = some o) :
    Follows (notAMember o : Procedure _ α) s
      (.fail s (.inconsistent (.notAMember o.kind.name o.id))) :=
  .step (.resolve (hs.id_mem_texts ho)) (.fail _ s)

theorem expectJoinable_follows (h : Handle) :
    Follows (expectJoinable h) s (.check s (s.expectJoinable h)) := by
  refine .bindMap (expectObject_follows h) fun o ho => ?_
  have hobject := Store.expectObject_eq_ok.1 ho
  cases o.body with
  | part owner p =>
    dsimp only
    refine .guardMap (fun _ => notAMember_follows hs hobject) fun _ => ?_
    cases p.net? with
    | none => exact .done () s
    | some net =>
      refine .step (.resolve (hs.id_mem_texts hobject)) ?_
      exact .step (describe_follows hs net) (.fail _ s)
  | _ => exact notAMember_follows hs hobject

theorem addNet_follows (name : String) (members : List Handle) :
    Follows (addNet name members) s (.ofExcept s (s.addNet name members)) := by
  unfold addNet Store.addNet
  refine .guard (fun _ => .fail _ s) fun _ => ?_
  refine .step (find_follows hs (Or.inr rfl) hs.coherent.nets name) ?_
  refine .guard (fun _ => .fail _ s) fun _ => ?_
  refine .bind (expectFree_follows hs _) fun _ _ => ?_
  refine .bind (forEach_check (expectJoinable_follows hs) _) fun _ hjoin => ?_
  have hall : ∀ c ∈ Store.distinct members, c < s.size := fun c hc => by
    obtain ⟨o, -, -, ho, -⟩ := Store.expectJoinable_eq_ok.1 (Store.forM_eq_ok.1 hjoin c hc)
    exact Store.lt_size_of_outline? (Store.outline?_of_object? ho)
  obtain ⟨x, hx, hid, -⟩ := object?_inserted_self s (Kind.net.objectId name) name
    (.net (Store.distinct members)) []
  have hsize : ∀ c ∈ Store.distinct members, c < (inserted s (Kind.net.objectId name) name
      (.net (Store.distinct members)) []).size := fun c hc =>
    Nat.lt_trans (hall c hc) (Store.lt_size_of_outline? (Store.outline?_of_object? hx))
  -- The net keeps its id while its members are told of it.
  obtain ⟨x', hx', hid'⟩ := object?_enlistAll hx s.size name (Kind.net.objectId name)
    (Store.distinct members)
  refine .step (insert_follows s _ name _ _) (.step (forEach_enlist hsize s.size name _) ?_)
  refine .step (register_follows hx' .net name) ?_
  rw [hid', hid, ← Store.register_enlistAll]
  have hkeys : ("type" :: "id" :: "name" :: ([] : List (String × String)).map Prod.fst).Nodup := by
    simp
  have hstore : (s.create name name (.net (Store.distinct members)) []).1
      = (inserted s (Kind.net.objectId name) name (.net (Store.distinct members)) []).register .net
          name (Kind.net.objectId name) s.size :=
    Store.create_eq s name name (.net (Store.distinct members)) [] hkeys
  rw [← hstore]
  exact .done _ _

theorem setAttribute_follows (h : Handle) (name value : String) (constant : Bool) :
    Follows (setAttribute h name value constant) s
      (.ofExcept s ((s.setAttribute h name value constant).map fun s => (s, ()))) := by
  unfold setAttribute Store.setAttribute
  refine .guardMap (fun _ => .fail _ s) fun _ => ?_
  refine .bindMap (expectObject_follows h) fun o ho => ?_
  have hobject := Store.expectObject_eq_ok.1 ho
  refine .step (.read _ s) ?_
  have hknown : (s.strings.contains name && (o.attributes.get? name).any Attribute.constant)
      = (o.attributes.get? name).any Attribute.constant := by
    cases hget : o.attributes.get? name with
    | none => simp
    | some a =>
      have hmem := ((hs.recorded h o hobject).entry _ (OrderedMap.mem_entries_of_get? hget)).1
      rw [show s.strings.contains name = true from List.contains_iff_mem.2 hmem, Bool.true_and]
  dsimp only
  rw [hknown]
  refine .guardMap (fun _ => .step (.resolve (hs.id_mem_texts hobject)) (.fail _ s)) fun _ => ?_
  exact .step (.change _ s) (.step (.item hobject) (.change _ _))

omit hs in
theorem setAttributes_follows {s : Store} (hs : s.Sound) (h : Handle)
    (pairs : List (String × String)) :
    Follows (setAttributes h pairs) s
      { store := (s.setAttributes h pairs).1
        notices := []
        result := (s.setAttributes h pairs).2 } := by
  induction pairs generalizing s with
  | nil => exact .done () s
  | cons pair rest ih =>
    obtain ⟨name, value⟩ := pair
    have hfirst :
        Follows (attempt (setAttribute h name value false) : Procedure StoreError _) s _ :=
      (setAttribute_follows hs h name value false).attempt
    unfold Store.setAttributes
    cases hr : s.setAttribute h name value false with
    | ok s' =>
      rw [hr] at hfirst
      have hdone : Follows (attempt (setAttribute h name value false) : Procedure StoreError _) s
        (.done s' (.ok ())) := hfirst
      exact .step hdone (ih (hs.change (.writing hr)))
    | error e =>
      rw [hr] at hfirst
      have hrefused : Follows (attempt (setAttribute h name value false) : Procedure StoreError _)
        s (.done s (.error e)) := hfirst
      have hrest : Follows (attempt (setAttributes h rest) : Procedure StoreError _) s
        (.done (s.setAttributes h rest).1 (s.setAttributes h rest).2) := (ih hs).attempt
      exact .step hrefused (.step hrest (.fail e _))

end Sound

end Interconnect.Procedure
