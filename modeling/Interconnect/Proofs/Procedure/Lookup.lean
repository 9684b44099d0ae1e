import Interconnect.Proofs.Procedure.Basic
import Interconnect.Proofs.Store.Recording

/-!
# Looking things up, step by step

The questions that a store answers, as procedures.  Each text that an answer or a refusal shows is
read by its number, and an index is asked for a text only if the text has a number.  On a sound
store, each procedure follows its question: it answers the same, and never meets a text without a
number.
-/

namespace Interconnect.Procedure

variable {ε α : Type}

/-! ## Looking objects up -/

/-- Looks a text up in an index, if the text has a number at all. -/
def find (index : Store → OrderedMap String Handle) (key : String) :
    Procedure ε (Option Handle) :=
  read fun s => if s.strings.contains key then (index s).get? key else none

/-- The id of an object. -/
def idOf (h : Handle) : Procedure ε (Option String) := do
  match ← read fun s => s.object? h with
  | some o => return some (← resolve o.id)
  | none => return none

/-- The object as messages show it. -/
def describe (h : Handle) : Procedure ε String :=
  return (← idOf h).getD h.text

def expectObject (h : Handle) : Procedure StoreError Object := do
  match ← read fun s => s.object? h with
  | some o => return o
  | none => refuse (.unknownObject h.text)

/-- Refuses an object that is not what it has to be. -/
def wrongType (o : Object) (expected : String) : Procedure StoreError α := do
  refuse (.wrongType (← resolve o.id) expected o.kind.name)

def expectKind (k : Kind) (h : Handle) : Procedure StoreError Object := do
  let o ← expectObject h
  if o.kind = k then return o else wrongType o k.name

def expectModule (h : Handle) : Procedure StoreError (Object × Module) := do
  let o ← expectObject h
  match o.module? with
  | some m => return (o, m)
  | none => wrongType o Kind.module.name

def expectInstance (h : Handle) : Procedure StoreError (Object × Instance) := do
  let o ← expectObject h
  match o.instance? with
  | some i => return (o, i)
  | none => wrongType o Kind.inst.name

def expectFree (id : String) : Procedure StoreError Unit := do
  match ← find Store.ids id with
  | some _ => refuse (.idExists id)
  | none => return ()

def expectOwner (owner : Handle) (p : Part) : Procedure StoreError Object := do
  let o ← expectKind p.ownerKind owner
  match p.innerContent?, o.module? with
  | some what, some m =>
    if m.resource then refuse (.resourceModule what (← resolve o.name)) else return o
  | _, _ => return o

section Sound

variable {s : Store} (hs : s.Sound)

include hs

theorem find_follows {index : Store → OrderedMap String Handle} {keep : Label → Prop}
    {key : Label → String} (hkey : key = Label.id ∨ key = Label.name)
    (hi : Indexes s.label? keep key (index s)) (text : String) :
    Follows (find index text : Procedure ε _) s (.done s ((index s).get? text)) := by
  have hfound : (if s.strings.contains text then (index s).get? text else none)
      = (index s).get? text := by
    split
    · rfl
    · rename_i hnot
      cases hget : (index s).get? text with
      | none => rfl
      | some h => exact absurd (List.contains_iff_mem.2 (hs.mem_texts_of_get? hkey hi hget)) hnot
  unfold find
  rw [← hfound]
  exact .read _ s

theorem idOf_follows (h : Handle) :
    Follows (idOf h : Procedure ε _) s (.done s (s.idOf? h)) := by
  refine .step (.read _ s) ?_
  unfold Store.idOf?
  cases ho : s.object? h with
  | none => exact .done _ s
  | some o => exact .step (.resolve (hs.id_mem_texts ho)) (.done _ s)

theorem describe_follows (h : Handle) :
    Follows (describe h : Procedure ε _) s (.done s (s.describe h)) :=
  .step (idOf_follows hs h) (.done _ s)

omit hs in
/-- An object is shown by its id. -/
theorem describe_follows_of_object? {h : Handle} {o : Object} (ho : s.object? h = some o)
    (hid : o.id ∈ s.strings.texts) :
    Follows (describe h : Procedure ε _) s (.done s o.id) := by
  have hidOf : Follows (idOf h : Procedure ε _) s (.done s (some o.id)) := by
    refine .step (.read _ s) ?_
    rw [ho]
    exact .step (.resolve hid) (.done _ s)
  exact .step hidOf (.done o.id s)

omit hs in
theorem expectObject_follows (h : Handle) :
    Follows (expectObject h) s (.check s (s.expectObject h)) := by
  refine .step (.read _ s) ?_
  unfold Store.expectObject
  cases s.object? h with
  | none => exact .fail _ s
  | some o => exact .done o s

theorem wrongType_follows {h : Handle} {o : Object} (ho : s.object? h = some o)
    (expected : String) :
    Follows (wrongType o expected : Procedure _ α) s
      (.fail s (.wrongType o.id expected o.kind.name)) :=
  .step (.resolve (hs.id_mem_texts ho)) (.fail _ s)

theorem expectKind_follows (k : Kind) (h : Handle) :
    Follows (expectKind k h) s (.check s (s.expectKind k h)) := by
  refine .bindMap (expectObject_follows h) fun o ho => ?_
  split
  · exact .done o s
  · exact wrongType_follows hs (Store.expectObject_eq_ok.1 ho) _

theorem expectModule_follows (h : Handle) :
    Follows (expectModule h) s (.check s (s.expectModule h)) := by
  refine .bindMap (expectObject_follows h) fun o ho => ?_
  cases o.module? with
  | some m => exact .done (o, m) s
  | none => exact wrongType_follows hs (Store.expectObject_eq_ok.1 ho) _

theorem expectInstance_follows (h : Handle) :
    Follows (expectInstance h) s (.check s (s.expectInstance h)) := by
  refine .bindMap (expectObject_follows h) fun o ho => ?_
  cases o.instance? with
  | some i => exact .done (o, i) s
  | none => exact wrongType_follows hs (Store.expectObject_eq_ok.1 ho) _

theorem expectFree_follows (id : String) :
    Follows (expectFree id) s (.check s (s.expectFree id)) := by
  refine .step (find_follows hs (Or.inl rfl) hs.coherent.ids id) ?_
  unfold Store.expectFree OrderedMap.contains
  cases s.ids.get? id with
  | none => exact .done () s
  | some h => exact .fail _ s

theorem expectOwner_follows (owner : Handle) (p : Part) :
    Follows (expectOwner owner p) s (.check s (s.expectOwner owner p)) := by
  refine .bindMap (expectKind_follows hs _ owner) fun o ho => ?_
  cases p.innerContent? with
  | none => exact .done o s
  | some what =>
    cases o.module? with
    | none => exact .done o s
    | some m =>
      cases hres : m.resource with
      | true =>
        have hname := hs.name_mem_texts (Store.expectKind_eq_ok.1 ho).1
        simp only [hres, if_true]
        exact .step (.resolve hname) (.fail _ s)
      | false =>
        simp only [hres, Bool.false_eq_true, if_false]
        exact .done o s

end Sound

/-! ## The hierarchy -/

/-- The objects from `h` up to its root. -/
def climb (start : Handle) : Nat → Handle → Procedure StoreError (List Handle)
  | 0, _ => do refuse (.inconsistent (.endlessClimb (← describe start)))
  | fuel + 1, h => do
    match ← read fun s => (s.object? h).bind Object.above? with
    | none =>
      let shown ← describe h
      refuse (.inconsistent (.strayObject shown (← describe start)))
    | some none => return [h]
    | some (some upper) => return h :: (← climb start fuel upper)

def hierarchyPath (start : Handle) : Procedure StoreError (List Handle) := do
  let o ← expectObject start
  if o.above?.isNone then wrongType o "module or instance"
  climb start ((← read Store.size) + 1) start

/-- The end of the path, which has to be there. -/
def hierarchyRoot (start : Handle) : Procedure StoreError Handle := do
  match (← hierarchyPath start).getLast? with
  | some root => return root
  | none => stop (.internal "empty hierarchy path")

def wouldCreateCycle (module parent : Handle) : Procedure StoreError Bool :=
  return (← hierarchyPath parent).contains module

section Sound

variable {s : Store} (hs : s.Sound)

include hs

theorem climb_follows (start : Handle) (fuel : Nat) (h : Handle) :
    Follows (climb start fuel h) s (.check s ((s.climb start fuel h).mapError .inconsistent)) := by
  induction fuel generalizing h with
  | zero => exact .step (describe_follows hs start) (.fail _ s)
  | succ fuel ih =>
    refine .step (.read _ s) ?_
    unfold Store.climb
    match (s.object? h).bind Object.above? with
    | none => exact .step (describe_follows hs h) (.step (describe_follows hs start) (.fail _ s))
    | some none => exact .done [h] s
    | some (some upper) =>
      have hrest := (ih upper).mapCheck (h :: ·)
      dsimp only
      cases hr : s.climb start fuel upper <;> rw [hr] at hrest <;> exact hrest

theorem hierarchyPath_follows (start : Handle) :
    Follows (hierarchyPath start) s (.check s (s.hierarchyPath start)) := by
  refine .bindMap (expectObject_follows start) fun o ho => ?_
  refine .guardMap (fun _ => wrongType_follows hs (Store.expectObject_eq_ok.1 ho) _) fun _ => ?_
  exact .step (.read _ s) (climb_follows hs start _ start)

omit hs in
/-- A path starts where the climb does. -/
theorem climb_ne_nil (s : Store) (start : Handle) (fuel : Nat) (h : Handle) :
    s.climb start fuel h ≠ .ok [] := by
  cases fuel with
  | zero => simp [Store.climb]
  | succ fuel =>
    unfold Store.climb
    match (s.object? h).bind Object.above? with
    | none => simp
    | some none => simp
    | some (some upper) =>
      dsimp only
      cases s.climb start fuel upper with
      | error cause => simp [Except.map]
      | ok path => simp [Except.map]

theorem hierarchyRoot_follows (start : Handle) :
    Follows (hierarchyRoot start) s (.check s (s.hierarchyRoot start)) := by
  refine .bindMap (hierarchyPath_follows hs start) fun path hpath => ?_
  have hne : path ≠ [] := by
    rintro rfl
    unfold Store.hierarchyPath at hpath
    obtain ⟨o, -, hpath⟩ := bind_eq_ok.1 hpath
    obtain ⟨-, hpath⟩ := guard_eq_ok.1 hpath
    cases hr : s.climb start (s.size + 1) start with
    | error cause => rw [hr] at hpath; cases hpath
    | ok found => rw [hr] at hpath; cases hpath; exact climb_ne_nil s start _ start hr
  rw [List.getLastD_eq_getLast?, List.getLast?_eq_getLast_of_ne_nil hne]
  exact .done _ s

theorem wouldCreateCycle_follows (module parent : Handle) :
    Follows (wouldCreateCycle module parent) s (.check s (s.wouldCreateCycle module parent)) :=
  .bindMap (hierarchyPath_follows hs parent) fun path _ => .done (path.contains module) s

end Sound

/-! ## Attributes -/

def attributeOf (h : Handle) (name : String) : Procedure ε (Option Attribute) := do
  match ← read fun s => if s.strings.contains name then s.attribute? h name else none with
  | some a => return some { a with value := ← resolve a.value }
  | none => return none

/-- Reads the names and the values of attributes. -/
def entries : List (String × Attribute) → Procedure ε (List (String × Attribute))
  | [] => return []
  | (name, a) :: rest => do
    let name ← resolve name
    let value ← resolve a.value
    return (name, { a with value }) :: (← entries rest)

def attributesOf (h : Handle) : Procedure StoreError (List (String × Attribute)) := do
  entries (← expectObject h).attributes.entries

section Sound

variable {s : Store} (hs : s.Sound)

include hs

theorem attributeOf_follows (h : Handle) (name : String) :
    Follows (attributeOf h name : Procedure ε _) s (.done s (s.attribute? h name)) := by
  have hfound : (if s.strings.contains name then s.attribute? h name else none)
      = s.attribute? h name := by
    split
    · rfl
    · rename_i hnot
      cases hget : s.attribute? h name with
      | none => rfl
      | some a =>
        obtain ⟨o, ho, hentry⟩ := Option.bind_eq_some_iff.1 hget
        have hmem := ((hs.recorded h o ho).entry _ (OrderedMap.mem_entries_of_get? hentry)).1
        exact absurd (List.contains_iff_mem.2 hmem) hnot
  refine .step (.read _ s) ?_
  rw [hfound]
  cases hget : s.attribute? h name with
  | none => exact .done none s
  | some a =>
    obtain ⟨o, ho, hentry⟩ := Option.bind_eq_some_iff.1 hget
    have hmem := ((hs.recorded h o ho).entry _ (OrderedMap.mem_entries_of_get? hentry)).2
    exact .step (.resolve hmem) (.done (some a) s)

omit hs in
theorem entries_follows {entries : List (String × Attribute)}
    (hall : ∀ e ∈ entries, e.1 ∈ s.strings.texts ∧ e.2.value ∈ s.strings.texts) :
    Follows (Procedure.entries entries : Procedure ε _) s (.done s entries) := by
  induction entries with
  | nil => exact .done [] s
  | cons e rest ih =>
    obtain ⟨hname, hvalue⟩ := hall e List.mem_cons_self
    refine .step (.resolve hname) (.step (.resolve hvalue) ?_)
    exact .step (ih fun e he => hall e (List.mem_cons_of_mem _ he)) (.done (e :: rest) s)

theorem attributesOf_follows (h : Handle) :
    Follows (attributesOf h) s (.check s (s.attributes h)) := by
  refine .bindMap (expectObject_follows h) fun o ho => ?_
  exact entries_follows (hs.recorded h o (Store.expectObject_eq_ok.1 ho)).entry

end Sound

end Interconnect.Procedure
