import Interconnect.Proofs.Store.Recording

/-!
# How an object comes into being

`create` adds an object with all its attributes and enters it into every index at once.  Step by
step, an object is allocated with its id and its type, then its other attributes are written one
after the other, and in the end it is entered into the indices of its kind.  The two ways lead to
the same store (`create_eq`), and what an operation writes afterwards may as well be written in
between (`create_modify`, `register_modify`).
-/

namespace Interconnect

/-! ## Arenas and maps -/

namespace Arena

variable {α : Type}

/-- The item that was added last is changed. -/
theorem modify_push_self (a : Arena α) (x : α) (f : α → α) :
    (a.push x).modify a.fresh f = a.push (f x) := by
  obtain ⟨items⟩ := a
  unfold push modify fresh
  congr 1
  apply Array.ext_getElem?
  intro i
  rw [Array.getElem?_modify, Array.getElem?_push, Array.getElem?_push]
  by_cases hi : i = items.size
  · simp [hi]
  · simp [hi, Ne.symm hi]

/-- An item that was there before is changed before or after another one is added. -/
theorem modify_push_of_lt {a : Arena α} {h : Handle} (hlt : h < a.size) (x : α) (f : α → α) :
    (a.push x).modify h f = (a.modify h f).push x := by
  obtain ⟨items⟩ := a
  have hne : items.size ≠ h := Nat.ne_of_gt hlt
  unfold push modify
  congr 1
  apply Array.ext_getElem?
  intro i
  rw [Array.getElem?_modify, Array.getElem?_push, Array.getElem?_push, Array.getElem?_modify,
    Array.size_modify]
  by_cases hi : i = items.size
  · simp [hi, Ne.symm hne]
  · simp [hi]

end Arena

/-- Distinct new keys go to the end, in order. -/
theorem OrderedMap.entries_insertMany {κ α : Type} [DecidableEq κ] {entries : List (κ × α)}
    (hkeys : (entries.map Prod.fst).Nodup) {m : OrderedMap κ α}
    (hnew : ∀ k ∈ entries.map Prod.fst, m.get? k = none) :
    (m.insertMany entries).entries = m.entries ++ entries := by
  induction entries generalizing m with
  | nil => simp [insertMany]
  | cons e rest ih =>
    rw [List.map_cons, List.nodup_cons] at hkeys
    have hrest : ∀ k ∈ rest.map Prod.fst, (m.insert e.1 e.2).get? k = none := fun k hk => by
      have hne : k ≠ e.1 := fun heq => hkeys.1 (heq ▸ hk)
      rw [get?_insert_of_ne m e.2 hne, hnew k (List.mem_cons_of_mem _ hk)]
    show ((m.insert e.1 e.2).insertMany rest).entries = _
    rw [ih hkeys.2 hrest, entries_insert e.2 (hnew e.1 List.mem_cons_self)]
    simp

theorem StringTable.internAll_append (t : StringTable) (ss ss' : List String) :
    t.internAll (ss ++ ss') = (t.internAll ss).internAll ss' :=
  List.foldl_append

namespace Store

/-! ## The steps -/

/-- Allocates an object and enters its id. -/
def allocate (s : Store) (id name : String) (body : Body) : Store :=
  { s.intern id with
    objects := s.objects.push { handle := s.objects.fresh, id, name, attributes := .empty, body }
    ids := s.ids.insert id s.objects.fresh }

/-- Writes built-in attributes one after the other. -/
def stampAll (h : Handle) (entries : List (String × String)) (s : Store) : Store :=
  entries.foldl (fun s e => s.stamp h e.1 e.2) s

/-- Enters an object into the index of its kind by name. -/
def registerName (k : Kind) (name : String) (h : Handle) (s : Store) : Store :=
  { s with
    modules := enter k .module s.modules name h
    instances := enter k .inst s.instances name h
    nets := enter k .net s.nets name h }

/-- Enters an object into the index of its kind by id. -/
def registerId (k : Kind) (id : String) (h : Handle) (s : Store) : Store :=
  { s with
    moduleIds := enter k .module s.moduleIds id h
    instanceIds := enter k .inst s.instanceIds id h
    netIds := enter k .net s.netIds id h }

/-- Enters an object into the indices of its kind. -/
def register (k : Kind) (name id : String) (h : Handle) (s : Store) : Store :=
  (s.registerName k name h).registerId k id h

/-- The object of a new id with the attributes that it has so far. -/
def allocated (s : Store) (id name : String) (body : Body) (written : List (String × String)) :
    Store :=
  { s with
    objects := s.objects.push
      { handle := s.objects.fresh
        id
        name
        attributes := OrderedMap.empty.insertMany (written.map fun (key, value) =>
          (key, { value, constant := true }))
        body }
    ids := s.ids.insert id s.objects.fresh
    strings := s.strings.internAll (id :: written.flatMap fun e => [e.1, e.2]) }

theorem allocated_nil (s : Store) (id name : String) (body : Body) :
    s.allocated id name body [] = s.allocate id name body :=
  rfl

/-- Another attribute is written. -/
theorem stamp_allocated (s : Store) (id name : String) (body : Body)
    (written : List (String × String)) (key value : String) :
    (s.allocated id name body written).stamp s.size key value
      = s.allocated id name body (written ++ [(key, value)]) := by
  have hfresh : s.size = s.objects.fresh := rfl
  unfold stamp write modify allocated
  dsimp only
  rw [hfresh, Arena.modify_push_self, List.flatMap_append, ← List.cons_append,
    StringTable.internAll_append]
  unfold Object.write OrderedMap.insertMany
  rw [List.map_append, List.foldl_append]
  rfl

theorem stampAll_allocated (s : Store) (id name : String) (body : Body)
    (written entries : List (String × String)) :
    (s.allocated id name body written).stampAll s.size entries
      = s.allocated id name body (written ++ entries) := by
  induction entries generalizing written with
  | nil => rw [List.append_nil]; rfl
  | cons e rest ih =>
    show ((s.allocated id name body written).stamp s.size e.1 e.2).stampAll s.size rest = _
    rw [stamp_allocated, ih, List.append_assoc]
    rfl

section Create

variable (s : Store) (scope name : String) (body : Body) (details : List (String × String))

/-- An object with attributes of different names comes into being step by step. -/
theorem create_eq (hkeys : ("type" :: "id" :: "name" :: details.map Prod.fst).Nodup) :
    (s.create scope name body details).1
      = ((s.allocate (body.kind.objectId scope) name body).stampAll s.size
          (("type", body.kind.name) :: ("id", body.kind.objectId scope) :: ("name", name)
            :: details)).register body.kind name (body.kind.objectId scope) s.size := by
  rw [← allocated_nil, stampAll_allocated, List.nil_append]
  unfold create register registerName registerId allocated
  -- The attributes are listed as they were written, and so their texts are interned in that order.
  have hentries : (builtins body.kind (body.kind.objectId scope) name details).entries
      = (("type", body.kind.name) :: ("id", body.kind.objectId scope) :: ("name", name)
          :: details).map fun (key, value) => (key, { value, constant := true }) := by
    unfold builtins
    rw [OrderedMap.entries_insertMany (by rw [List.map_map]; exact hkeys) fun _ _ => rfl]
    rfl
  dsimp only
  rw [hentries, List.flatMap_map]
  rfl

/-- An older object is changed before or after a new one comes into being. -/
theorem create_modify {h : Handle} (hlt : h < s.size) (f : Object → Object) :
    (s.create scope name body details).1.modify h f
      = ((s.modify h f).create scope name body details).1 := by
  have hfresh : (s.modify h f).objects.fresh = s.objects.fresh := Arena.size_modify s.objects h f
  unfold create
  rw [hfresh]
  unfold modify
  dsimp only
  rw [Arena.modify_push_of_lt hlt]

/-- The body of a new object is changed before or after it comes into being. -/
theorem create_modify_self {f : Object → Object} (body' : Body) (hk : body'.kind = body.kind)
    (hf : f (s.created scope name body details) = { s.created scope name body details with
      body := body' }) :
    (s.create scope name body details).1.modify s.size f
      = (s.create scope name body' details).1 := by
  unfold create modify
  unfold created at hf
  dsimp only
  rw [show s.size = s.objects.fresh from rfl] at hf ⊢
  rw [Arena.modify_push_self, hk, hf]

end Create

/-- Objects are changed before or after another one is entered. -/
theorem register_modify (s : Store) (k : Kind) (name id : String) (h x : Handle)
    (f : Object → Object) :
    (s.register k name id h).modify x f = (s.modify x f).register k name id h :=
  rfl

theorem register_stamp (s : Store) (k : Kind) (name id : String) (h x : Handle)
    (key value : String) :
    (s.register k name id h).stamp x key value = (s.stamp x key value).register k name id h :=
  rfl

theorem register_enlistAll (s : Store) (k : Kind) (name id : String) (h net : Handle)
    (netName netId : String) (members : List Handle) :
    members.foldl (enlist net netName netId) (s.register k name id h)
      = (members.foldl (enlist net netName netId) s).register k name id h := by
  induction members generalizing s with
  | nil => rfl
  | cons c rest ih =>
    rw [List.foldl_cons, List.foldl_cons, ← ih]
    unfold enlist
    rw [register_stamp, register_stamp, register_stamp, register_modify]

/-- A part is in no index but that of all objects. -/
theorem register_part (s : Store) (p : Part) (name id : String) (h : Handle) :
    s.register p.kind name id h = s := by
  cases p <;> rfl

end Store

end Interconnect
