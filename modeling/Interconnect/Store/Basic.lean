import Interconnect.Collection.StringTable
import Interconnect.Object.Basic
import Interconnect.Store.Error

/-!
# The store

A store owns all objects, in creation order, and finds them by id.  It finds modules,
instances and nets by name, too, and by an id of their own kind.  It also knows every text
it has ever held.

`create` is the only way an object comes into being.  It writes the built-in attributes,
enters the object into the indices, and interns the texts.
-/

namespace Interconnect

/-- All objects with their indices. -/
structure Store where
  objects : Arena Object
  /-- Every object, by its id. -/
  ids : OrderedMap String Handle
  /-- The modules, by name. -/
  modules : OrderedMap String Handle
  /-- The instances, by name. -/
  instances : OrderedMap String Handle
  /-- The nets, by name. -/
  nets : OrderedMap String Handle
  /-- The modules, by id. -/
  moduleIds : OrderedMap String Handle
  /-- The instances, by id. -/
  instanceIds : OrderedMap String Handle
  /-- The nets, by id. -/
  netIds : OrderedMap String Handle
  /-- The texts that were used so far. -/
  strings : StringTable
  deriving DecidableEq

namespace Store

/-- The store without objects and texts. -/
def empty : Store :=
  { objects := .empty
    ids := .empty
    modules := .empty
    instances := .empty
    nets := .empty
    moduleIds := .empty
    instanceIds := .empty
    netIds := .empty
    strings := .empty }

/-- The number of objects. -/
def size (s : Store) : Nat :=
  s.objects.size

/-- The one-line summary of a store. -/
def summary (s : Store) : String :=
  "Database \x7b objects: " ++ toString s.size ++ ", modules: " ++ toString s.modules.size
    ++ ", instances: " ++ toString s.instances.size ++ ", nets: " ++ toString s.nets.size
    ++ " \x7d"

/-! ## Looking objects up -/

/-- The object under a handle. -/
def object? (s : Store) (h : Handle) : Option Object :=
  s.objects.get? h

/-- The object with an id. -/
def objectById? (s : Store) (id : String) : Option Handle :=
  s.ids.get? id

/-- The module with a name. -/
def moduleByName? (s : Store) (name : String) : Option Handle :=
  s.modules.get? name

/-- The module with an id. -/
def moduleById? (s : Store) (id : String) : Option Handle :=
  s.moduleIds.get? id

/-- The instance with a name. -/
def instanceByName? (s : Store) (name : String) : Option Handle :=
  s.instances.get? name

/-- The instance with an id. -/
def instanceById? (s : Store) (id : String) : Option Handle :=
  s.instanceIds.get? id

/-- The net with a name. -/
def netByName? (s : Store) (name : String) : Option Handle :=
  s.nets.get? name

/-- The net with an id. -/
def netById? (s : Store) (id : String) : Option Handle :=
  s.netIds.get? id

/-- The module under a handle. -/
def module? (s : Store) (h : Handle) : Option Module :=
  (s.object? h).bind Object.module?

/-- The instance under a handle. -/
def instance? (s : Store) (h : Handle) : Option Instance :=
  (s.object? h).bind Object.instance?

/-- The id of the object under a handle. -/
def idOf? (s : Store) (h : Handle) : Option String :=
  (s.object? h).map Object.id

/-- The object as messages show it: by its id, or by the handle if there is no object. -/
def describe (s : Store) (h : Handle) : String :=
  (s.idOf? h).getD h.text

/-! ## Demanding that an object is there -/

/-- The object under a handle, or the refusal that there is none. -/
def expectObject (s : Store) (h : Handle) : Except StoreError Object :=
  match s.object? h with
  | some o => .ok o
  | none => .error (.unknownObject h.text)

/-- The object under a handle, if it is of a kind. -/
def expectKind (s : Store) (k : Kind) (h : Handle) : Except StoreError Object := do
  let o ← s.expectObject h
  if o.kind = k then .ok o else .error (.wrongType o.id k.name o.kind.name)

/-- The object under a handle and the module that it is. -/
def expectModule (s : Store) (h : Handle) : Except StoreError (Object × Module) := do
  let o ← s.expectObject h
  match o.module? with
  | some m => .ok (o, m)
  | none => .error (.wrongType o.id Kind.module.name o.kind.name)

/-- The object under a handle and the instance that it is. -/
def expectInstance (s : Store) (h : Handle) : Except StoreError (Object × Instance) := do
  let o ← s.expectObject h
  match o.instance? with
  | some i => .ok (o, i)
  | none => .error (.wrongType o.id Kind.inst.name o.kind.name)

/-- Refuses an id that is taken. -/
def expectFree (s : Store) (id : String) : Except StoreError Unit :=
  if s.ids.contains id then .error (.idExists id) else .ok ()

/-! ## Changing the store -/

/-- Remembers a text. -/
def intern (s : Store) (text : String) : Store :=
  { s with strings := s.strings.intern text }

/-- Changes the object under a handle. -/
def modify (s : Store) (h : Handle) (f : Object → Object) : Store :=
  { s with objects := s.objects.modify h f }

/-- Sets an attribute, whatever stood under its name. -/
def write (s : Store) (h : Handle) (name : String) (a : Attribute) : Store :=
  { s.modify h (Object.write name a) with strings := s.strings.internAll [name, a.value] }

/-- Sets a built-in attribute, for good. -/
def stamp (s : Store) (h : Handle) (name value : String) : Store :=
  s.write h name { value, constant := true }

/-- The built-in attributes of a new object: its type, id and name, then the details. -/
def builtins (kind : Kind) (id name : String) (details : List (String × String)) :
    Attributes :=
  OrderedMap.empty.insertMany
    (([("type", kind.name), ("id", id), ("name", name)] ++ details).map
      fun (key, value) => (key, { value, constant := true }))

/-- Enters a handle into an index if the new object is of the kind that is indexed. -/
def enter (kind indexed : Kind) (index : OrderedMap String Handle) (key : String)
    (h : Handle) : OrderedMap String Handle :=
  if kind = indexed then index.insert key h else index

/-- Adds an object under the fresh handle.  Its id is made of its kind and its scope. -/
def create (s : Store) (scope name : String) (body : Body)
    (details : List (String × String)) : Store × Handle :=
  let h := s.objects.fresh
  let kind := body.kind
  let id := kind.objectId scope
  let attributes := builtins kind id name details
  ({ objects := s.objects.push { handle := h, id, name, attributes, body }
     ids := s.ids.insert id h
     modules := enter kind .module s.modules name h
     instances := enter kind .inst s.instances name h
     nets := enter kind .net s.nets name h
     moduleIds := enter kind .module s.moduleIds id h
     instanceIds := enter kind .inst s.instanceIds id h
     netIds := enter kind .net s.netIds id h
     strings := s.strings.internAll
      (id :: attributes.entries.flatMap fun (key, a) => [key, a.value]) },
   h)

/-! ## What a change shows -/

@[simp] theorem size_modify (s : Store) (h : Handle) (f : Object → Object) :
    (s.modify h f).size = s.size := by
  simp [modify, size]

@[simp] theorem size_write (s : Store) (h : Handle) (name : String) (a : Attribute) :
    (s.write h name a).size = s.size := by
  simp [write, size, modify]

@[simp] theorem size_stamp (s : Store) (h : Handle) (name value : String) :
    (s.stamp h name value).size = s.size :=
  size_write s h name _

@[simp] theorem size_create (s : Store) (scope name : String) (body : Body)
    (details : List (String × String)) :
    (s.create scope name body details).1.size = s.size + 1 := by
  simp [create, size]

theorem object?_modify (s : Store) (h h' : Handle) (f : Object → Object) :
    (s.modify h f).object? h' = if h = h' then (s.object? h').map f else s.object? h' :=
  Arena.get?_modify s.objects h h' f

theorem object?_write (s : Store) (h h' : Handle) (name : String) (a : Attribute) :
    (s.write h name a).object? h'
      = if h = h' then (s.object? h').map (Object.write name a) else s.object? h' :=
  Arena.get?_modify s.objects h h' (Object.write name a)

theorem object?_stamp (s : Store) (h h' : Handle) (name value : String) :
    (s.stamp h name value).object? h'
      = if h = h' then (s.object? h').map (Object.write name { value, constant := true })
        else s.object? h' :=
  object?_write s h h' name _

/-- The other objects stay as they are. -/
theorem object?_create_of_ne (s : Store) (scope name : String) (body : Body)
    (details : List (String × String)) {h : Handle} (hne : h ≠ s.size) :
    (s.create scope name body details).1.object? h = s.object? h := by
  have hfresh : h ≠ s.objects.fresh := hne
  simp [create, object?, Arena.get?_push, hfresh]

/-- The new object lies under its handle, with its built-in attributes. -/
theorem object?_create_self (s : Store) (scope name : String) (body : Body)
    (details : List (String × String)) :
    (s.create scope name body details).1.object? s.size
      = some
        { handle := s.size
          id := body.kind.objectId scope
          name
          attributes := builtins body.kind (body.kind.objectId scope) name details
          body } := by
  unfold create object?
  rw [Arena.get?_push]
  exact if_pos rfl

end Store

end Interconnect
