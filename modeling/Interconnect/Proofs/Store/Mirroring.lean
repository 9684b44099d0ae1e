import Interconnect.Proofs.Store.Constancy
import Interconnect.Proofs.Store.Preservation

/-!
# Built-in attributes

An object says what it is in its body, and says it again in its built-in attributes.  `mirror`
lists what is said again: a text of the object's own, or the id or the name of an object of a
kind that it refers to.  The list is read off the object as it is, whoever wrote the attributes
and whenever.  The words for kinds, flags and directions are spelled out in it, as a reader of the
attributes looks for these words.

A reachable store says the same thing both times (`Reachable.shows_mirror`).

* `Shows.insertMany` is the step for one object: what is written under other names does not
  matter, and what is written for good is shown from then on.
* A caller never writes over what is shown, because it is constant.
* `parent` is written when an instance is placed, and `signal`, `net` and `netid` when a part
  joins a net, which is when the body comes to refer to another object.
* Ids, names and kinds stay as they are, and so an object may repeat those of another one.
-/

namespace Interconnect

/-! ## What is repeated -/

/-- What an attribute repeats. -/
inductive Repeated where
  /-- A text of the object's own. -/
  | own (text : String)
  /-- The id of another object, which is of a kind. -/
  | idOf (k : Kind) (h : Handle)
  /-- The name of another object, which is of a kind. -/
  | nameOf (k : Kind) (h : Handle)
  deriving DecidableEq

/-- The text that is repeated.  There is none if no object of the kind lies under the handle. -/
def Repeated.text? (view : Handle → Option Label) : Repeated → Option String
  | own text => some text
  | idOf k h => (view h).bind fun v => if v.kind = k then some v.id else none
  | nameOf k h => (view h).bind fun v => if v.kind = k then some v.name else none

/-- The word for a kind. -/
def Repeated.kind : Kind → Repeated
  | .port => own "port"
  | .pin => own "pin"
  | .parameter => own "parameter"
  | .adjustment => own "adjustment"
  | .declaration => own "declaration"
  | .code => own "codesection"
  | .module => own "module"
  | .inst => own "instance"
  | .net => own "net"
  | .regfile => own "regfile"
  | .entry => own "regfile-entry"
  | .register => own "regfile-reg"

/-- The word for a flag. -/
def Repeated.flag (b : Bool) : Repeated :=
  own (if b then "true" else "false")

/-- The word for a direction. -/
def Repeated.direction : PortDirection → Repeated
  | .input => own "input"
  | .output => own "output"
  | .bidirectional => own "bidirectional"

/-- What a member of a net repeats about the net. -/
def mirrorNet : Option Handle → List (String × Repeated)
  | none => []
  | some net => [("signal", .nameOf .net net), ("net", .nameOf .net net), ("netid", .idOf .net net)]

/-- What a part repeats of its own data, and about its net. -/
def Part.mirror : Part → List (String × Repeated)
  | port direction net => ("direction", .direction direction) :: mirrorNet net
  | pin connection inverted net =>
    ("connection", .own connection) :: ("invert", .flag inverted) :: mirrorNet net
  | parameter value isLocal => [("value", .own value), ("local", .flag isLocal)]
  | adjustment value => [("value", .own value)]
  | declaration defaultType assigned net =>
    ("default_type", .flag defaultType)
      :: assigned.toList.map (fun value => ("assign", .own value)) ++ mirrorNet net
  | code text => [("code", .own text)]
  | regfile _ | entry _ | register => []

/-- What a body repeats of its own data, and about the objects that it refers to. -/
def Body.mirror : Body → List (String × Repeated)
  | module m => [("ilm", .flag m.ilm), ("resource", .flag m.resource)]
  | inst i =>
    ("module", .idOf .module i.module)
      :: i.parent.toList.map fun parent => ("parent", .idOf .module parent)
  | net _ => []
  | part owner p => ("parent", .idOf p.ownerKind owner) :: p.mirror

/-- What the attributes of an object repeat. -/
def Object.mirror (o : Object) : List (String × Repeated) :=
  ("type", .kind o.kind) :: ("id", .own o.id) :: ("name", .own o.name) :: o.body.mirror

/-- The attributes are there, are constant, and say what they repeat. -/
def Shows (view : Handle → Option Label) (attributes : Attributes)
    (mirror : List (String × Repeated)) : Prop :=
  ∀ name repeated, (name, repeated) ∈ mirror → ∃ value, repeated.text? view = some value ∧
    attributes.get? name = some { value, constant := true }

/-! ## One object -/

/-- The word for a kind opens the ids of its objects, too. -/
theorem Repeated.kind_eq (k : Kind) : kind k = own k.name := by
  cases k <;> rfl

theorem Repeated.text?_mono {view view' : Handle → Option Label}
    (h : ∀ x v, view x = some v → view' x = some v) {r : Repeated} {text : String}
    (hr : r.text? view = some text) : r.text? view' = some text := by
  cases r with
  | own own => exact hr
  | idOf k x | nameOf k x =>
    obtain ⟨v, hv, hk⟩ := Option.bind_eq_some_iff.1 hr
    exact Option.bind_eq_some_iff.2 ⟨v, h x v hv, hk⟩

theorem Repeated.text?_idOf {view : Handle → Option Label} {h : Handle} {v : Label} {k : Kind}
    (hv : view h = some v) (hk : v.kind = k) : (idOf k h).text? view = some v.id := by
  rw [text?, hv, Option.bind_some, if_pos hk]

theorem Repeated.text?_nameOf {view : Handle → Option Label} {h : Handle} {v : Label} {k : Kind}
    (hv : view h = some v) (hk : v.kind = k) : (nameOf k h).text? view = some v.name := by
  rw [text?, hv, Option.bind_some, if_pos hk]

namespace Shows

variable {view : Handle → Option Label} {attributes : Attributes}
  {mirror : List (String × Repeated)}

/-- Ids, names and kinds that come to be known later do not matter. -/
theorem mono (hshows : Shows view attributes mirror) {view' : Handle → Option Label}
    (h : ∀ x v, view x = some v → view' x = some v) : Shows view' attributes mirror := by
  intro name r hmem
  obtain ⟨value, htext, hget⟩ := hshows name r hmem
  exact ⟨value, Repeated.text?_mono h htext, hget⟩

/-- Several attributes are written under names that show nothing yet.  What they say for good is
shown from then on. -/
theorem insertMany (hshows : Shows view attributes mirror) (entries : List (String × Attribute))
    (more : List (String × Repeated)) (hkeys : (entries.map Prod.fst).Nodup)
    (hother : ∀ name r, (name, r) ∈ mirror → name ∉ entries.map Prod.fst)
    (hmore : ∀ name r, (name, r) ∈ more → ∃ value, r.text? view = some value ∧
      (name, { value, constant := true }) ∈ entries) :
    Shows view (attributes.insertMany entries) (mirror ++ more) := by
  intro name r hmem
  rcases List.mem_append.1 hmem with hmem | hmem
  · obtain ⟨value, htext, hget⟩ := hshows name r hmem
    refine ⟨value, htext, ?_⟩
    rw [OrderedMap.get?_insertMany_of_notMem (hother name r hmem), hget]
  · obtain ⟨value, htext, hentry⟩ := hmore name r hmem
    exact ⟨value, htext, OrderedMap.get?_insertMany_of_mem hkeys hentry _⟩

/-- An attribute that is not constant shows nothing. -/
theorem write (hshows : Shows view attributes mirror) {name : String}
    (hfree : ∀ a, attributes.get? name = some a → a.constant = false) (a : Attribute) :
    Shows view (attributes.insert name a) mirror := by
  have hother : ∀ other r, (other, r) ∈ mirror → other ∉ [name] := by
    intro other r hmem hname
    obtain ⟨value, -, hget⟩ := hshows other r hmem
    rw [List.mem_singleton.1 hname] at hget
    cases hfree _ hget
  have hwritten := hshows.insertMany [(name, a)] [] (by simp) hother fun _ _ h => by cases h
  rw [List.append_nil] at hwritten
  exact hwritten

end Shows

/-- What the object repeats is in its attributes. -/
def Object.IsMirrored (view : Handle → Option Label) (o : Object) : Prop :=
  Shows view o.attributes o.mirror

section Mirror

variable (o : Object) (c : Handle)

@[simp] theorem mirror_adopt (p : Part) : (o.adopt p c).mirror = o.mirror := by
  obtain ⟨handle, id, name, attributes, body⟩ := o
  cases body with
  | part owner q => cases q <;> cases p <;> rfl
  | _ => cases p <;> rfl

@[simp] theorem mirror_addChild : (Store.addChild c o).mirror = o.mirror := by
  obtain ⟨handle, id, name, attributes, body⟩ := o
  cases body <;> rfl

@[simp] theorem mirror_addPlacement : (Store.addPlacement c o).mirror = o.mirror := by
  obtain ⟨handle, id, name, attributes, body⟩ := o
  cases body <;> rfl

theorem attributes_addChild : (Store.addChild c o).attributes = o.attributes := by
  obtain ⟨handle, id, name, attributes, body⟩ := o
  cases body <;> rfl

theorem attributes_addPlacement : (Store.addPlacement c o).attributes = o.attributes := by
  obtain ⟨handle, id, name, attributes, body⟩ := o
  cases body <;> rfl

end Mirror

section Joined

variable {p : Part} {net : Handle}

theorem kind_joined : (p.joined net).kind = p.kind := by
  cases p <;> rfl

theorem ownerKind_joined : (p.joined net).ownerKind = p.ownerKind := by
  cases p <;> rfl

theorem mirror_joined (hjoins : p.joinsNets = true) (hnone : p.net? = none) :
    (p.joined net).mirror = p.mirror ++ mirrorNet (some net) := by
  cases p with
  | port direction n | pin connection inverted n =>
    cases hnone
    rfl
  | declaration defaultType assigned n =>
    cases hnone
    cases assigned <;> rfl
  | _ => cases hjoins

/-- A part in no net repeats nothing about one. -/
theorem notMem_mirror_of_net? (hnone : p.net? = none) (owner : Handle) {key : String}
    (hkey : key ∈ ["signal", "net", "netid"]) {handle : Handle} {id name : String}
    {attributes : Attributes} :
    key ∉ (Object.mirror ⟨handle, id, name, attributes, .part owner p⟩).map Prod.fst := by
  have hnames : (Object.mirror ⟨handle, id, name, attributes, .part owner p⟩).map Prod.fst
      = "type" :: "id" :: "name" :: "parent" :: p.mirror.map Prod.fst := rfl
  rw [hnames]
  simp only [List.mem_cons, List.not_mem_nil, or_false] at hkey
  cases p with
  | port direction n | pin connection inverted n =>
    cases hnone
    rcases hkey with rfl | rfl | rfl <;> simp [Part.mirror, mirrorNet]
  | declaration defaultType assigned n =>
    cases hnone
    cases assigned <;> rcases hkey with rfl | rfl | rfl <;> simp [Part.mirror, mirrorNet]
  | _ => rcases hkey with rfl | rfl | rfl <;> simp [Part.mirror]

end Joined

/-- The built-in attributes of a part have different names. -/
theorem nodup_details (p : Part) (id : String) :
    ("type" :: "id" :: "name" :: (p.details ++ [("parent", id)]).map Prod.fst).Nodup := by
  cases p with
  | declaration defaultType assigned net => cases assigned <;> simp [Part.details]
  | _ => simp [Part.details]

/-- A part that is in no net repeats the data that it comes with. -/
theorem mirror_of_net? {p : Part} (hnone : p.net? = none) :
    p.mirror = p.details.map fun (name, value) => (name, .own value) := by
  cases p with
  | port direction net =>
    cases hnone
    cases direction <;> rfl
  | pin connection inverted net =>
    cases hnone
    rfl
  | declaration defaultType assigned net =>
    cases hnone
    cases assigned <;> rfl
  | _ => rfl

/-- An object that waits for the attributes of a net is a part that can join one. -/
theorem part_of_pending {o : Object} (h : o.pending = ["signal", "net", "netid"]) :
    ∃ owner p, o.body = .part owner p ∧ p.joinsNets = true ∧ p.net? = none := by
  unfold Object.pending at h
  split at h
  · split at h <;> simp at h
  · rename_i owner p hp
    split at h
    · rename_i hjoins
      exact ⟨owner, p, hp, hjoins⟩
    · cases h
  · cases h

namespace Object.IsMirrored

variable {view : Handle → Option Label} {o : Object}

/-- Another body may list more, as long as the same is to be repeated. -/
theorem of_eq (ho : o.IsMirrored view) {o' : Object} (hattributes : o'.attributes = o.attributes)
    (hmirror : o'.mirror = o.mirror) : o'.IsMirrored view := by
  unfold IsMirrored
  rw [hattributes, hmirror]
  exact ho

theorem write (ho : o.IsMirrored view) {name : String}
    (hfree : ∀ a, o.attributes.get? name = some a → a.constant = false) (a : Attribute) :
    (o.write name a).IsMirrored view :=
  Shows.write ho hfree a

/-- An instance that is placed repeats the id of the module that it is placed in. -/
theorem place (ho : o.IsMirrored view) {i : Instance} (hi : o.body = .inst i)
    (hfree : i.parent = none) {parent : Handle} {v : Label} (hv : view parent = some v)
    (hk : v.kind = .module) :
    ((Store.setParent parent o).write "parent" { value := v.id, constant := true }).IsMirrored
      view := by
  obtain ⟨handle, id, name, attributes, body⟩ := o
  obtain ⟨module, _, adjustments, pins⟩ := i
  cases hi
  cases hfree
  refine Shows.insertMany ho [("parent", { value := v.id, constant := true })]
    [("parent", .idOf .module parent)] (by simp) ?_ ?_
  · intro key r hmem hnew
    have hkey : key ∈ ["type", "id", "name", "module"] := List.mem_map_of_mem (f := Prod.fst) hmem
    rw [List.mem_singleton.1 hnew] at hkey
    simp at hkey
  · intro key r hmem
    cases List.mem_singleton.1 hmem
    exact ⟨v.id, Repeated.text?_idOf hv hk, List.mem_singleton.2 rfl⟩

/-- A part that joins a net repeats its name and id. -/
theorem enlist (ho : o.IsMirrored view) {owner : Handle} {p : Part} (hp : o.body = .part owner p)
    (hjoins : p.joinsNets = true) (hnone : p.net? = none) {net : Handle} {v : Label}
    (hv : view net = some v) (hk : v.kind = .net) :
    (Store.joinNet net (((o.write "signal" { value := v.name, constant := true }).write "net"
      { value := v.name, constant := true }).write "netid"
      { value := v.id, constant := true })).IsMirrored view := by
  obtain ⟨handle, id, name, attributes, body⟩ := o
  cases hp
  have hmirror : Object.mirror ⟨handle, id, name, attributes, .part owner (p.joined net)⟩
      = Object.mirror ⟨handle, id, name, attributes, .part owner p⟩ ++ mirrorNet (some net) := by
    simp only [Object.mirror, Object.kind, Body.kind, kind_joined, Body.mirror, ownerKind_joined,
      mirror_joined hjoins hnone, List.cons_append]
  show Shows view _ (Object.mirror ⟨handle, id, name, attributes, .part owner (p.joined net)⟩)
  rw [hmirror]
  refine Shows.insertMany ho [("signal", { value := v.name, constant := true }),
    ("net", { value := v.name, constant := true }), ("netid", { value := v.id, constant := true })]
    (mirrorNet (some net)) (by simp) ?_ ?_
  · intro key r hmem hnew
    exact notMem_mirror_of_net? hnone owner hnew (List.mem_map_of_mem (f := Prod.fst) hmem)
  · intro key r hmem
    simp only [mirrorNet, List.mem_cons, Prod.mk.injEq, List.not_mem_nil, or_false] at hmem
    rcases hmem with ⟨rfl, rfl⟩ | ⟨rfl, rfl⟩ | ⟨rfl, rfl⟩
    · exact ⟨v.name, Repeated.text?_nameOf hv hk, by simp⟩
    · exact ⟨v.name, Repeated.text?_nameOf hv hk, by simp⟩
    · exact ⟨v.id, Repeated.text?_idOf hv hk, by simp⟩

end Object.IsMirrored

namespace Store

/-! ## A whole store -/

/-- Every object says the same in its attributes as in its body. -/
def Mirrored (s : Store) : Prop :=
  ∀ h o, s.object? h = some o → o.IsMirrored s.label?

theorem label?_of_object? {s : Store} {h : Handle} {o : Object} (ho : s.object? h = some o) :
    s.label? h = some o.outline.toLabel := by
  rw [label?, outline?_of_object? ho, Option.map_some]

/-- A new object leaves the others known as they are. -/
theorem label?_create_of_some {s : Store} {scope name : String} {body : Body}
    {details : List (String × String)} {h : Handle} {v : Label} (hv : s.label? h = some v) :
    (s.create scope name body details).1.label? h = some v := by
  rw [label?_of_update (outline?_create_eq s scope name body details),
    Function.update_of_ne (Nat.ne_of_lt (lt_size_of_label? hv)), hv]

theorem label?_create_self (s : Store) (scope name : String) (body : Body)
    (details : List (String × String)) :
    (s.create scope name body details).1.label? s.size
      = some (s.created scope name body details).outline.toLabel := by
  rw [label?_of_update (outline?_create_eq s scope name body details), Function.update_self]

namespace Mirrored

variable {s s' : Store}

/-- One object changes, but not in what others repeat about it. -/
theorem update (hs : s.Mirrored) (hlabel : s'.label? = s.label?) (h : Handle)
    (hself : ∀ o, s'.object? h = some o → o.IsMirrored s.label?)
    (hother : ∀ x, h ≠ x → s'.object? x = s.object? x) : s'.Mirrored := by
  intro x o ho
  rw [hlabel]
  by_cases hx : h = x
  · subst hx
    exact hself o ho
  · rw [hother x hx] at ho
    exact hs x o ho

/-- An object lists more. -/
theorem modify (hs : s.Mirrored) {h : Handle} {f : Object → Object}
    (hlabel : (s.modify h f).label? = s.label?)
    (hattributes : ∀ o, (f o).attributes = o.attributes)
    (hmirror : ∀ o, (f o).mirror = o.mirror) : (s.modify h f).Mirrored := by
  refine hs.update hlabel h (fun o ho => ?_) fun x hx => by rw [object?_modify, if_neg hx]
  rw [object?_modify, if_pos rfl] at ho
  obtain ⟨o', ho', rfl⟩ := Option.map_eq_some_iff.1 ho
  exact (hs h o' ho').of_eq (hattributes o') (hmirror o')

/-- A new object comes with its built-in attributes. -/
theorem create (hs : s.Mirrored) {scope name : String} {body : Body}
    {details : List (String × String)}
    (hkeys : ("type" :: "id" :: "name" :: details.map Prod.fst).Nodup)
    (hbody : ∀ key r, (key, r) ∈ body.mirror → ∃ value,
      r.text? (s.create scope name body details).1.label? = some value ∧ (key, value) ∈ details) :
    (s.create scope name body details).1.Mirrored := by
  intro h o ho
  by_cases hh : h = s.size
  · subst hh
    rw [object?_create_self] at ho
    cases ho
    have hnothing : Shows (s.create scope name body details).1.label? .empty [] :=
      fun _ _ h => by cases h
    refine hnothing.insertMany _ (s.created scope name body details).mirror ?_
      (fun _ _ h => by cases h) fun key r hmem => ?_
    · rw [List.map_map]
      exact hkeys
    · -- Each entry is written as it is repeated.
      have hentry : ∀ value, (key, value) ∈ ("type", body.kind.name)
          :: ("id", body.kind.objectId scope) :: ("name", name) :: details →
          (key, { value, constant := true }) ∈ ([("type", body.kind.name),
            ("id", body.kind.objectId scope), ("name", name)] ++ details).map
              fun (key, value) => (key, ({ value, constant := true } : Attribute)) :=
        fun value h => List.mem_map_of_mem (f := fun e => (e.1, Attribute.mk e.2 true)) h
      simp only [Object.mirror, List.mem_cons, Prod.mk.injEq] at hmem
      rcases hmem with ⟨rfl, rfl⟩ | ⟨rfl, rfl⟩ | ⟨rfl, rfl⟩ | hmem
      · exact ⟨_, congrArg _ (Repeated.kind_eq _), hentry _ (by simp [created, Object.kind])⟩
      · exact ⟨_, rfl, hentry _ (by simp [created])⟩
      · exact ⟨_, rfl, hentry _ (by simp [created])⟩
      · obtain ⟨value, htext, hdetail⟩ := hbody key r hmem
        exact ⟨value, htext, hentry value (by simp [hdetail])⟩
  · rw [object?_create_of_ne s scope name body details hh] at ho
    exact Shows.mono (hs h o ho) fun _ _ => label?_create_of_some

/-- What is new about a module is its flags. -/
theorem createModule (hs : s.Mirrored) (name : String) (m : Module) :
    (s.create name name (.module m) (moduleDetails m.ilm m.resource)).1.Mirrored := by
  refine hs.create (by simp [moduleDetails]) fun key r hmem => ?_
  simp only [Body.mirror, List.mem_cons, Prod.mk.injEq, List.not_mem_nil, or_false] at hmem
  rcases hmem with ⟨rfl, rfl⟩ | ⟨rfl, rfl⟩
  · exact ⟨_, rfl, by simp [moduleDetails, flagText]⟩
  · exact ⟨_, rfl, by simp [moduleDetails, flagText]⟩

theorem createWithInstance (hs : s.Mirrored) (name : String) (ilm : Bool) :
    (s.createWithInstance name ilm).1.Mirrored := by
  rw [createWithInstance_eq]
  refine (hs.createModule name (s.ordinaryModule ilm)).create (by simp) fun key r hmem => ?_
  cases List.mem_singleton.1 hmem
  have hmodule := label?_create_self s name name (.module (s.ordinaryModule ilm))
    (moduleDetails ilm false)
  exact ⟨_, Repeated.text?_idOf (label?_create_of_some hmodule) rfl, List.mem_singleton.2 rfl⟩

theorem createPlacement (hs : s.Mirrored) {module parent : Handle} {o p : Object} {m c : Module}
    (name : String) (ho : s.object? module = some o) (hm : o.body = .module m)
    (hp : s.object? parent = some p) (hc : p.body = .module c) (hne : module ≠ parent) :
    (s.createPlacement name module parent).1.Mirrored := by
  have hok : o.kind = .module := Object.kind_of_module hm
  have hpk : p.kind = .module := Object.kind_of_module hc
  have hcreate : (s.create name name (.inst (placedInstance module parent))
      [("module", s.describe module), ("parent", s.describe parent)]).1.Mirrored := by
    refine hs.create (by simp) fun key r hmem => ?_
    simp only [Body.mirror, placedInstance, Option.toList_some, List.map_singleton, List.mem_cons,
      Prod.mk.injEq, List.not_mem_nil, or_false] at hmem
    rcases hmem with ⟨rfl, rfl⟩ | ⟨rfl, rfl⟩
    · exact ⟨o.id, Repeated.text?_idOf (label?_create_of_some (label?_of_object? ho)) hok,
        by simp [describe, idOf?, ho]⟩
    · exact ⟨p.id, Repeated.text?_idOf (label?_create_of_some (label?_of_object? hp)) hpk,
        by simp [describe, idOf?, hp]⟩
  rw [createPlacement_eq]
  refine (hcreate.modify ?_ (attributes_addChild · _) (mirror_addChild · _)).modify ?_
    (attributes_addPlacement · _) (mirror_addPlacement · _)
  · exact label?_modify_listing (object?_create_owner name hp _ _ _) (outline_addChild s.size hc)
  · exact label?_modify_listing (object?_addChild name ho hne _ _ _)
      (outline_addPlacement s.size hm)

theorem place (hs : s.Mirrored) {inst parent : Handle} {d p : Object} {i : Instance} {c : Module}
    (hd : s.object? inst = some d) (hi : d.body = .inst i) (hfree : i.parent = none)
    (hp : s.object? parent = some p) (hc : p.body = .module c) :
    (s.place inst parent).Mirrored := by
  have hmoved : ((s.modify inst (setParent parent)).stamp inst "parent"
      (s.describe parent)).label? = s.label? := by
    rw [label?_congr (outline?_stamp _ _ _ _),
      label?_modify_pointing hd (outline_setParent parent hi)]
  have hplaced : ((s.modify inst (setParent parent)).stamp inst "parent"
      (s.describe parent)).Mirrored := by
    refine hs.update hmoved inst (fun o ho => ?_) fun x hx => ?_
    · rw [object?_stamp, if_pos rfl, object?_modify, if_pos rfl, hd] at ho
      cases ho
      rw [describe, idOf?, hp]
      exact (hs inst d hd).place hi hfree (label?_of_object? hp) (Object.kind_of_module hc)
    · rw [object?_stamp, if_neg hx, object?_modify, if_neg hx]
  exact hplaced.modify (label?_modify_listing (object?_setParent hd hi hp hc _)
    (outline_addChild inst hc)) (attributes_addChild · _) (mirror_addChild · _)

/-- A part that is added repeats its own data and the id of its owner. -/
theorem createPart (hs : s.Mirrored) {owner : Handle} {o : Object} {p : Part} (name : String)
    (hnew : p.IsNew) (hhandle : o.handle = owner) (ho : s.object? owner = some o)
    (hk : o.kind = p.ownerKind) : (s.createPart o name p).1.Mirrored := by
  have hcreate : (s.create (o.name ++ "." ++ name) name (.part owner p)
      (p.details ++ [("parent", o.id)])).1.Mirrored := by
    refine hs.create (nodup_details p o.id) fun key r hmem => ?_
    rcases List.mem_cons.1 hmem with hmem | hmem
    · cases hmem
      exact ⟨o.id, Repeated.text?_idOf (label?_create_of_some (label?_of_object? ho)) hk, by simp⟩
    · rw [mirror_of_net? hnew.1] at hmem
      obtain ⟨detail, hdetail, heq⟩ := List.mem_map.1 hmem
      cases heq
      exact ⟨detail.2, rfl, List.mem_append_left _ hdetail⟩
  rw [createPart_eq name hhandle]
  exact hcreate.modify (label?_modify_listing (object?_create_owner name ho _ _ _)
    (outline_adopt o p s.size hk)) (fun _ => rfl) (mirror_adopt · _ p)

/-- A part that joins a net repeats its name and id. -/
theorem enlist (hs : s.Mirrored) {net c : Handle} {v : Label} (hv : s.label? net = some v)
    (hk : v.kind = .net) (hc : s.Joinable c) : (enlist net v.name v.id s c).Mirrored := by
  obtain ⟨o, ho, hpending⟩ := hc
  obtain ⟨owner, p, hp, hjoins, hnone⟩ := part_of_pending hpending
  refine hs.update (label?_congr (outline?_enlist _ _ _ _ _)) c (fun o' ho' => ?_) fun x hx => ?_
  · unfold Store.enlist at ho'
    rw [object?_modify, if_pos rfl, object?_stamp, if_pos rfl, object?_stamp, if_pos rfl,
      object?_stamp, if_pos rfl, ho] at ho'
    cases ho'
    exact (hs c o ho).enlist hp hjoins hnone hv hk
  · unfold Store.enlist
    rw [object?_modify, if_neg hx, object?_stamp, if_neg hx, object?_stamp, if_neg hx,
      object?_stamp, if_neg hx]

end Mirrored

/-! ## Changes and runs -/

/-- Every elementary operation keeps body and attributes of one mind. -/
theorem Mirrored.change {s s' : Store} (h : Change s s') (hcoherent : s.Coherent)
    (hs : s.Mirrored) : s'.Mirrored := by
  cases h with
  | intern text => exact hs
  | @module _ name ilm resource h hok =>
    obtain ⟨-, -, -, ⟨-, heq⟩ | ⟨-, -, -, heq⟩⟩ := addModule_cases hok
    · rw [← show (s.createResource name ilm).1 = s' by rw [heq]]
      exact hs.createModule name { ilm, resource := true }
    · rw [← show (s.createWithInstance name ilm).1 = s' by rw [heq]]
      exact hs.createWithInstance name ilm
  | @placement _ name module parent h hok =>
    obtain ⟨-, o, m, p, c, ho, hm, hp, hc, hcontainer, -, hcase⟩ := addInstance_cases hok
    rcases hcase with ⟨hres, -, -, heq⟩ | ⟨-, -, -, ⟨d, i, hd, hi, hfree⟩, rfl⟩
    · have hne := ne_of_resource ho hm hp hc hres hcontainer
      rw [← show (s.createPlacement name module parent).1 = s' by rw [heq]]
      exact hs.createPlacement name ho hm hp hc hne
    · exact hs.place hd hi hfree hp hc
  | @part _ owner h name p hnew hok =>
    obtain ⟨-, o, ho, hk, -, -, heq⟩ := attach_cases hok
    rw [← show (s.createPart o name p).1 = s' by rw [heq]]
    exact hs.createPart name hnew (hcoherent.handle_eq_of_object? ho) ho hk
  | @net _ name members h hok =>
    obtain ⟨-, -, -, hjoin, -, rfl⟩ := addNet_cases hok
    -- The net stays known as it was created, while its members join it.
    let v := (s.created name name (.net (distinct members)) []).outline.toLabel
    have hcreate : (s.create name name (.net (distinct members)) []).1.Mirrored :=
      hs.create (by simp) fun _ _ h => by cases h
    exact (enlistAll_induction (P := fun s' => s'.Mirrored ∧ s'.label? s.size = some v)
      (fun hc h => ⟨h.1.enlist h.2 rfl hc, by rw [label?_congr (outline?_enlist _ _ _ _ _), h.2]⟩)
      (nodup_distinct members) (fun c hc => joinable_create (hjoin c hc))
      ⟨hcreate, label?_create_self s _ _ _ _⟩).1
  | @writing _ h name value constant hok =>
    obtain ⟨-, o, ho, hfree, rfl⟩ := setAttribute_cases hok
    refine hs.update (label?_congr (outline?_write _ _ _ _)) h (fun o' ho' => ?_) fun x hx => ?_
    · rw [object?_write, if_pos rfl, ho] at ho'
      cases ho'
      exact (hs h o ho).write hfree _
    · rw [object?_write, if_neg hx]

theorem Reachable.mirrored {s : Store} (hs : s.Reachable) : s.Mirrored := by
  have hempty : Store.empty.Mirrored := fun h o ho => by cases ho
  have hboth : s.Coherent ∧ s.Mirrored :=
    hs.induction (P := fun s => s.Coherent ∧ s.Mirrored) ⟨coherent_empty, hempty⟩
      fun hchange h => ⟨Coherent.change hchange h.1, h.2.change hchange h.1⟩
  exact hboth.2

/-- In a reachable store, whatever an object's attributes are to repeat is there, and each of
these attributes is constant and has the text that it repeats. -/
theorem Reachable.shows_mirror {s : Store} (hs : s.Reachable) {h : Handle} {o : Object}
    (ho : s.object? h = some o) {name : String} {repeated : Repeated}
    (hmem : (name, repeated) ∈ o.mirror) :
    ∃ value, repeated.text? s.label? = some value ∧
      s.attribute? h name = some { value, constant := true } := by
  obtain ⟨value, htext, hget⟩ := hs.mirrored h o ho name repeated hmem
  exact ⟨value, htext, by rw [attribute?, ho, Option.bind_some, hget]⟩

/-- A caller writes `parent` on an instance and `signal` on a port before the instance is placed
and the port joins a net. -/
def presetMember : Store :=
  execAll
    [.addModule "top" false false, .addModule "leaf" true false, .addPort 2 "p" .input,
      .setAttribute 3 "parent" "mine" true, .setAttribute 4 "signal" "mine" false,
      .addInstance "leaf" 2 0, .addNet "n" [4], .setAttribute 4 "netid" "mine" false]

theorem shows_mirror_presetMember :
    presetMember.Reachable ∧
      (∃ o, presetMember.object? 2 = some o ∧ ("ilm", .own "true") ∈ o.mirror ∧
        presetMember.attribute? 2 "ilm" = some ⟨"true", true⟩) ∧
      (∃ o, presetMember.object? 3 = some o ∧ ("parent", .idOf .module 0) ∈ o.mirror ∧
        presetMember.attribute? 3 "parent" = some ⟨"module::top", true⟩) ∧
      ∃ o, presetMember.object? 4 = some o ∧ ("direction", .own "input") ∈ o.mirror ∧
        presetMember.attribute? 4 "direction" = some ⟨"input", true⟩ ∧
        ("signal", .nameOf .net 5) ∈ o.mirror ∧
        presetMember.attribute? 4 "signal" = some ⟨"n", true⟩ := by
  have hs : presetMember.Reachable := reachable_execAll _
  have hilm : ("ilm", .own "true") ∈ Object.mirror ((presetMember.object? 2).get rfl) := by decide
  have hparent : ("parent", .idOf .module 0)
      ∈ Object.mirror ((presetMember.object? 3).get rfl) := by decide
  have hdirection : ("direction", .own "input")
      ∈ Object.mirror ((presetMember.object? 4).get rfl) := by decide
  have hsignal : ("signal", .nameOf .net 5)
      ∈ Object.mirror ((presetMember.object? 4).get rfl) := by decide
  obtain ⟨ilm, hilmText, hilmShown⟩ := hs.shows_mirror (h := 2) rfl hilm
  obtain ⟨parent, hparentText, hparentShown⟩ := hs.shows_mirror (h := 3) rfl hparent
  obtain ⟨direction, hdirectionText, hdirectionShown⟩ := hs.shows_mirror (h := 4) rfl hdirection
  obtain ⟨signal, hsignalText, hsignalShown⟩ := hs.shows_mirror (h := 4) rfl hsignal
  cases hilmText
  cases hparentText
  cases hdirectionText
  cases hsignalText
  exact ⟨hs, ⟨_, rfl, hilm, hilmShown⟩, ⟨_, rfl, hparent, hparentShown⟩,
    ⟨_, rfl, hdirection, hdirectionShown, hsignal, hsignalShown⟩⟩

end Store

end Interconnect
