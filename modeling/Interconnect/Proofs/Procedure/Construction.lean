import Interconnect.Proofs.Procedure.Creation
import Interconnect.Proofs.Procedure.Lookup

/-!
# Parts, modules and instances, step by step

Each operation checks its arguments one after the other, and then writes piece by piece.  Some
pieces can fail once more, when the first ones have been written: an owner is looked up again to
list its part, and a new object is indexed to be entered under its id.

On a sound store, each procedure follows its operation.  So none of the late failures ever comes
up, and whatever stops a procedure stops it before it writes.
-/

namespace Interconnect.Procedure

variable {ε α : Type}

/-! ## Adding objects -/

/-- Adds an object with its built-in attributes: its type and id, its name, and then the ones that
repeat its body. -/
def insert (id name : String) (body : Body) (details : List (String × String)) :
    Procedure ε Handle := do
  let h ← read fun s => s.objects.fresh
  change fun s => s.allocate id name body
  change (Store.stampAll h (("type", body.kind.name) :: ("id", id) :: ("name", name) :: details))
  return h

/-- The store after an object was added and before it is entered. -/
def inserted (s : Store) (id name : String) (body : Body) (details : List (String × String)) :
    Store :=
  (s.allocate id name body).stampAll s.size
    (("type", body.kind.name) :: ("id", id) :: ("name", name) :: details)

/-- Enters an object into the indices of its kind, under its name and under the id that it has. -/
def register (k : Kind) (name : String) (h : Handle) : Procedure ε Unit := do
  change (Store.registerName k name h)
  let o ← item h
  change (Store.registerId k o.id h)

/-- Adds an object and enters it. -/
def create (scope name : String) (body : Body) (details : List (String × String)) :
    Procedure ε Handle := do
  let h ← insert (body.kind.objectId scope) name body details
  register body.kind name h
  return h

/-- Adds a part to its owner. -/
def attach (owner : Handle) (name : String) (p : Part) : Procedure StoreError Handle := do
  if name.isEmpty then refuse (.emptyName p.label)
  let o ← expectOwner owner p
  let ownerName ← resolve o.name
  expectFree (Store.partId p ownerName name)
  let ownerId ← describe owner
  let h ← insert (Store.partId p ownerName name) name (.part owner p)
    (p.details ++ [("parent", ownerId)])
  amend p.ownerKind owner (Object.adopt p h)
  return h

def addCode (module : Handle) (name : Option String) (text : String) :
    Procedure StoreError Handle := do
  let o ← expectOwner module (.code text)
  attach module (name.getD (Store.codeName o)) (.code text)

/-- The module with its default instance. -/
def setDefault (inst : Handle) (o : Object) : Object :=
  match o.body with
  | .module m =>
    { o with
      body := .module
        { m with placements := m.placements ++ [inst], defaultInstance := some inst } }
  | _ => o

/-- Adds a module; one that is no resource gets its default instance when it is entered. -/
def addModule (name : String) (ilm resource : Bool) : Procedure StoreError Handle := do
  if name.isEmpty then refuse (.emptyName "module")
  if (← find Store.modules name).isSome then refuse (.nameExists "module" name)
  expectFree (Kind.module.objectId name)
  if resource then
    return ← create name name (.module { ilm, resource }) (Store.moduleDetails ilm resource)
  if (← find Store.instances name).isSome then refuse (.nameExists "instance" name)
  expectFree (Kind.inst.objectId name)
  let h ← create name name (.module { ilm, resource }) (Store.moduleDetails ilm resource)
  let inst ← create name name (.inst { module := h, parent := none })
    [("module", Kind.module.objectId name)]
  amend .module h (setDefault inst)
  return h

/-- Adds an instance of a resource and lists it twice. -/
def insertPlacement (name : String) (module parent : Handle) : Procedure StoreError Handle := do
  let moduleId ← describe module
  let parentId ← describe parent
  let h ← create name name (.inst { module, parent := some parent })
    [("module", moduleId), ("parent", parentId)]
  amend .module parent (Store.addChild h)
  amend .module module (Store.addPlacement h)
  return h

/-- Places an instance that is there. -/
def place (inst parent : Handle) : Procedure StoreError Handle := do
  amend .inst inst (Store.setParent parent)
  let parentId ← describe parent
  change fun s => s.stamp inst "parent" parentId
  amend .module parent (Store.addChild inst)
  return inst

def addInstance (name : String) (module parent : Handle) : Procedure StoreError Handle := do
  if name.isEmpty then refuse (.emptyName "instance")
  let (o, m) ← expectModule module
  let (p, container) ← expectModule parent
  let parentName ← resolve p.name
  if container.resource then refuse (.parentIsResource name parentName)
  if m.resource then
    if (← find Store.instances name).isSome then refuse (.nameExists "instance" name)
    expectFree (Kind.inst.objectId name)
    if ← wouldCreateCycle module parent then refuse (.wouldCreateCycle name parentName)
    insertPlacement name module parent
  else
    let moduleName ← resolve o.name
    if name ≠ moduleName then refuse (.nameMismatch name moduleName)
    let some inst := m.defaultInstance | refuse (.inconsistent (.noDefaultInstance name))
    let (_, i) ← expectInstance inst
    if let some placed := i.parent then refuse (.alreadyPlaced name (← describe placed))
    if ← wouldCreateCycle module parent then refuse (.wouldCreateCycle name parentName)
    place inst parent

section Sound

variable {s : Store} (hs : s.Sound)

theorem insert_follows (s : Store) (id name : String) (body : Body)
    (details : List (String × String)) :
    Follows (insert id name body details : Procedure ε _) s
      (.done (inserted s id name body details) s.size) :=
  .step (.read _ s) (.step (.change _ s) (.step (.change _ _) (.done _ _)))

theorem object?_inserted_self (s : Store) (id name : String) (body : Body)
    (details : List (String × String)) :
    ∃ o, (inserted s id name body details).object? s.size = some o ∧ o.id = id ∧
      o.body = body := by
  unfold inserted
  rw [← Store.allocated_nil, Store.stampAll_allocated]
  unfold Store.allocated Store.object?
  rw [Arena.get?_push]
  exact ⟨_, if_pos rfl, rfl, rfl⟩

theorem object?_inserted_of_lt {s : Store} {h : Handle} {o : Object} (ho : s.object? h = some o)
    (id name : String) (body : Body) (details : List (String × String)) :
    (inserted s id name body details).object? h = some o := by
  have hne : h ≠ s.objects.fresh :=
    Nat.ne_of_lt (Store.lt_size_of_outline? (Store.outline?_of_object? ho))
  unfold inserted
  rw [← Store.allocated_nil, Store.stampAll_allocated]
  unfold Store.allocated Store.object?
  rw [Arena.get?_push, if_neg hne]
  exact ho

theorem register_follows {s : Store} {h : Handle} {o : Object} (ho : s.object? h = some o)
    (k : Kind) (name : String) :
    Follows (register k name h : Procedure ε _) s (.done (s.register k name o.id h) ()) :=
  .step (.change _ s) (.step (.item ho) (.change _ _))

/-- To add an object and to enter it is to create it. -/
theorem create_follows (s : Store) (scope name : String) (body : Body)
    {details : List (String × String)}
    (hkeys : ("type" :: "id" :: "name" :: details.map Prod.fst).Nodup) :
    Follows (create scope name body details : Procedure ε _) s
      (.done (s.create scope name body details).1 s.size) := by
  obtain ⟨x, hx, hid, -⟩ := object?_inserted_self s (body.kind.objectId scope) name body details
  refine .step (insert_follows s _ name body details) (.step (register_follows hx _ name) ?_)
  rw [hid, Store.create_eq s scope name body details hkeys]
  exact .done _ _

include hs

theorem attach_follows (owner : Handle) (name : String) (p : Part) :
    Follows (attach owner name p) s (.ofExcept s (s.attach owner name p)) := by
  unfold attach Store.attach
  refine .guard (fun _ => .fail _ s) fun _ => ?_
  refine .bind (expectOwner_follows hs owner p) fun o ho => ?_
  obtain ⟨hobject, hk, -⟩ := Store.expectOwner_eq_ok.1 ho
  refine .step (.resolve (hs.name_mem_texts hobject)) ?_
  refine .bind (expectFree_follows hs _) fun _ _ => ?_
  refine .step (describe_follows hs owner) (.step (insert_follows s _ name _ _) ?_)
  refine .step (.amend (object?_inserted_of_lt hobject _ _ _ _) hk _) ?_
  have hdescribe : s.describe owner = o.id := by rw [Store.describe, Store.idOf?, hobject]; rfl
  have hcreate := Store.create_eq s (o.name ++ "." ++ name) name (.part owner p)
    (p.details ++ [("parent", o.id)]) (nodup_details p o.id)
  have hpart : (s.createPart o name p).1 = (inserted s (Store.partId p o.name name) name
      (.part owner p) (p.details ++ [("parent", s.describe owner)])).modify owner
        (Object.adopt p s.size) := by
    rw [Store.createPart_eq name (hs.coherent.handle_eq_of_object? hobject), hcreate, hdescribe]
    exact congrArg (fun s' : Store => s'.modify owner (Object.adopt p s.size))
      (Store.register_part _ p _ _ _)
  rw [← hpart]
  exact .done _ _

theorem addCode_follows (module : Handle) (name : Option String) (text : String) :
    Follows (addCode module name text) s (.ofExcept s (s.addCode module name text)) :=
  .bind (expectOwner_follows hs module _) fun _ _ => attach_follows hs module _ _

omit hs in
/-- A module and its default instance come into being one after the other. -/
theorem createWithInstance_follows (s : Store) (name : String) (ilm : Bool) :
    Follows (do
      let h ← create name name (.module { ilm, resource := false }) (Store.moduleDetails ilm false)
      let inst ← create name name (.inst { module := h, parent := none })
        [("module", Kind.module.objectId name)]
      amend .module h (setDefault inst)
      return h : Procedure ε Handle) s
      (.done (s.createWithInstance name ilm).1 (s.createWithInstance name ilm).2) := by
  refine .step (create_follows s name name _ (by simp [Store.moduleDetails])) ?_
  refine .step (create_follows _ name name _ (by simp)) ?_
  rw [Store.size_create]
  have hmodule := Store.object?_create_self s name name (.module { ilm, resource := false })
    (Store.moduleDetails ilm false)
  have hlt : s.size < (s.create name name (.module { ilm, resource := false })
      (Store.moduleDetails ilm false)).1.size := by
    rw [Store.size_create]
    exact Nat.lt_succ_self _
  refine .step (.amend (Store.object?_create_owner name hmodule _ _ _) rfl _) ?_
  -- The module might as well have come into being with its instance.
  have hstore : (s.createWithInstance name ilm).1
      = ((s.create name name (.module { ilm, resource := false })
          (Store.moduleDetails ilm false)).1.create name name
          (.inst { module := s.size, parent := none })
          [("module", Kind.module.objectId name)]).1.modify s.size (setDefault (s.size + 1)) := by
    rw [Store.createWithInstance_eq, Store.create_modify _ _ _ _ _ hlt,
      Store.create_modify_self s name name (.module { ilm, resource := false }) _
        (.module (s.ordinaryModule ilm)) rfl rfl]
    rfl
  rw [hstore]
  exact .done _ _

theorem addModule_follows (name : String) (ilm resource : Bool) :
    Follows (addModule name ilm resource) s (.ofExcept s (s.addModule name ilm resource)) := by
  unfold addModule Store.addModule
  refine .guard (fun _ => .fail _ s) fun _ => ?_
  refine .step (find_follows hs (Or.inr rfl) hs.coherent.modules name) ?_
  refine .guard (fun _ => .fail _ s) fun _ => ?_
  refine .bind (expectFree_follows hs _) fun _ _ => ?_
  cases resource with
  | true =>
    simp only [if_true]
    exact create_follows s name name _ (by simp [Store.moduleDetails])
  | false =>
    simp only [Bool.false_eq_true, if_false]
    refine .step (find_follows hs (Or.inr rfl) hs.coherent.instances name) ?_
    refine .guard (fun _ => .fail _ s) fun _ => ?_
    refine .bind (expectFree_follows hs _) fun _ _ => ?_
    exact createWithInstance_follows s name ilm

theorem insertPlacement_follows {name : String} {module parent : Handle} {o p : Object}
    {m c : Module} (ho : s.object? module = some o) (hm : o.body = .module m)
    (hp : s.object? parent = some p) (hc : p.body = .module c) (hne : module ≠ parent) :
    Follows (insertPlacement name module parent) s
      (.done (s.createPlacement name module parent).1 s.size) := by
  refine .step (describe_follows hs module) (.step (describe_follows hs parent) ?_)
  refine .step (create_follows s name name _ (by simp)) ?_
  refine .step (.amend (Store.object?_create_owner name hp _ _ _) (Object.kind_of_module hc) _) ?_
  refine .step (.amend (Store.object?_addChild name ho hne _ _ _) (Object.kind_of_module hm) _) ?_
  exact .done _ _

theorem place_follows {inst parent : Handle} {d p : Object} {i : Instance} {c : Module}
    (hd : s.object? inst = some d) (hi : d.body = .inst i) (hp : s.object? parent = some p)
    (hc : p.body = .module c) :
    Follows (place inst parent) s (.done (s.place inst parent) inst) := by
  have hne : inst ≠ parent := by
    rintro rfl
    rw [hd] at hp
    cases hp
    rw [hi] at hc
    cases hc
  have hmoved : (s.modify inst (Store.setParent parent)).object? parent = some p := by
    rw [Store.object?_modify, if_neg hne, hp]
  refine .step (.amend hd (Object.kind_of_inst hi) _) ?_
  refine .step (describe_follows_of_object? hmoved (hs.id_mem_texts hp)) (.step (.change _ _) ?_)
  have hdescribe : s.describe parent = p.id := by rw [Store.describe, Store.idOf?, hp]; rfl
  rw [← hdescribe]
  refine .step (.amend (Store.object?_setParent hd hi hp hc _) (Object.kind_of_module hc) _) ?_
  exact .done _ _

theorem addInstance_follows (name : String) (module parent : Handle) :
    Follows (addInstance name module parent) s
      (.ofExcept s (s.addInstance name module parent)) := by
  unfold addInstance Store.addInstance
  refine .guard (fun _ => .fail _ s) fun _ => ?_
  refine .bind (expectModule_follows hs module) fun ⟨o, m⟩ hmodule => ?_
  refine .bind (expectModule_follows hs parent) fun ⟨p, container⟩ hparent => ?_
  obtain ⟨ho, hm⟩ := Store.expectModule_eq_ok.1 hmodule
  obtain ⟨hp, hc⟩ := Store.expectModule_eq_ok.1 hparent
  dsimp only
  refine .step (.resolve (hs.name_mem_texts hp)) ?_
  refine .guard (fun _ => .fail _ s) fun hcontainer => ?_
  cases hres : m.resource with
  | true =>
    simp only [if_true]
    refine .step (find_follows hs (Or.inr rfl) hs.coherent.instances name) ?_
    refine .guard (fun _ => .fail _ s) fun _ => ?_
    refine .bind (expectFree_follows hs _) fun _ _ => ?_
    refine .bind (wouldCreateCycle_follows hs module parent) fun cycle _ => ?_
    refine .guard (fun _ => .fail _ s) fun _ => ?_
    have hne := Store.ne_of_resource ho hm hp hc hres (Bool.eq_false_of_not_eq_true hcontainer)
    exact insertPlacement_follows hs ho hm hp hc hne
  | false =>
    simp only [Bool.false_eq_true, if_false]
    refine .step (.resolve (hs.name_mem_texts ho)) ?_
    refine .guard (fun _ => .fail _ s) fun _ => ?_
    cases m.defaultInstance with
    | none => exact .fail _ s
    | some inst =>
      refine .bind (expectInstance_follows hs inst) fun ⟨d, i⟩ hdefault => ?_
      obtain ⟨hd, hi⟩ := Store.expectInstance_eq_ok.1 hdefault
      dsimp only
      cases i.parent with
      | some placed => exact .step (describe_follows hs placed) rfl
      | none =>
        refine .bind (wouldCreateCycle_follows hs module parent) fun cycle _ => ?_
        refine .guard (fun _ => .fail _ s) fun _ => ?_
        exact place_follows hs hd hi hp hc

end Sound

end Interconnect.Procedure
