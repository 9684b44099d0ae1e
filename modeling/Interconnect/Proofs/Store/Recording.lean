import Interconnect.Proofs.Store.Mirroring
import Interconnect.Proofs.Store.Representation

/-!
# What a store holds on to

Objects name each other by handles, and everything that is text lies in one table.  A handle is
good if an object was allocated under it, and a text is good if it is in the table; `Valid` says
that a store holds on to good handles and texts only, in its objects and in its indices.

Most of that is known.  Handles that are listed or refer to an owner, a module or a net lead to
objects, indices hold objects, and each text of an object is repeated by an attribute.  What is
left is `Recorded`: the names and values of attributes are in the table, and the members of a net
are there.  It is kept by every change, because a text is interned when it is written and nothing
is ever taken away.
-/

namespace Interconnect

/-! ## What an object holds -/

/-- The texts of a part's own. -/
def Part.texts : Part → List String
  | pin connection .. => [connection]
  | parameter value _ | adjustment value => [value]
  | declaration _ assigned _ => assigned.toList
  | code text => [text]
  | port .. | regfile _ | entry _ | register => []

/-- The texts in a body. -/
def Body.texts : Body → List String
  | part _ p => p.texts
  | module _ | inst _ | net _ => []

/-- All texts of an object. -/
def Object.texts (o : Object) : List String :=
  o.id :: o.name :: o.body.texts ++ o.attributes.entries.flatMap fun e => [e.1, e.2.value]

/-- The handles in a body. -/
def Body.handles : Body → List Handle
  | module m =>
    m.params ++ m.ports ++ m.decls ++ m.code ++ m.regfiles ++ m.children ++ m.placements
      ++ m.defaultInstance.toList
  | inst i => i.module :: i.parent.toList ++ i.adjustments ++ i.pins
  | net members => members
  | part owner p => owner :: p.net?.toList ++ p.parts

/-- The members of the net that the object is. -/
def Object.members (o : Object) : List Handle :=
  match o.body with
  | .net members => members
  | _ => []

/-- The attributes are in the table, and the members of a net are among the first objects. -/
structure Object.IsRecorded (t : StringTable) (size : Nat) (o : Object) : Prop where
  entry : ∀ e ∈ o.attributes.entries, e.1 ∈ t.texts ∧ e.2.value ∈ t.texts
  member : ∀ c ∈ o.members, c < size

namespace Object.IsRecorded

variable {t t' : StringTable} {size size' : Nat} {o : Object}

/-- A table and a store only grow. -/
theorem mono (ho : o.IsRecorded t size) (ht : ∀ text ∈ t.texts, text ∈ t'.texts)
    (hsize : size ≤ size') : o.IsRecorded t' size' :=
  ⟨fun e he => ⟨ht _ (ho.entry e he).1, ht _ (ho.entry e he).2⟩,
    fun c hc => Nat.lt_of_lt_of_le (ho.member c hc) hsize⟩

/-- Another body matters only if it has other members. -/
theorem of_eq (ho : o.IsRecorded t size) {o' : Object} (hattributes : o'.attributes = o.attributes)
    (hmembers : o'.members = o.members) : o'.IsRecorded t size :=
  ⟨by rw [hattributes]; exact ho.entry, by rw [hmembers]; exact ho.member⟩

/-- What is written is interned. -/
theorem write (ho : o.IsRecorded t size) (name : String) (a : Attribute) :
    (o.write name a).IsRecorded (t.internAll [name, a.value]) size := by
  have hgrown : o.IsRecorded (t.internAll [name, a.value]) size :=
    ho.mono (fun text h => (StringTable.mem_internAll _ _ _).2 (Or.inl h)) (Nat.le_refl size)
  refine ⟨fun e he => ?_, hgrown.member⟩
  rcases OrderedMap.mem_entries_insert he with rfl | he
  · exact ⟨(StringTable.mem_internAll _ _ _).2 (Or.inr (by simp)),
      (StringTable.mem_internAll _ _ _).2 (Or.inr (by simp))⟩
  · exact hgrown.entry e he

end Object.IsRecorded

section Members

variable (o : Object) (c : Handle)

theorem members_adopt (p : Part) : (o.adopt p c).members = o.members := by
  obtain ⟨handle, id, name, attributes, body⟩ := o
  cases body with
  | part owner q => cases q <;> cases p <;> rfl
  | _ => cases p <;> rfl

theorem members_addChild : (Store.addChild c o).members = o.members := by
  obtain ⟨handle, id, name, attributes, body⟩ := o
  cases body <;> rfl

theorem members_addPlacement : (Store.addPlacement c o).members = o.members := by
  obtain ⟨handle, id, name, attributes, body⟩ := o
  cases body <;> rfl

theorem members_setParent : (Store.setParent c o).members = o.members := by
  obtain ⟨handle, id, name, attributes, body⟩ := o
  cases body <;> rfl

theorem members_joinNet : (Store.joinNet c o).members = o.members := by
  obtain ⟨handle, id, name, attributes, body⟩ := o
  cases body <;> rfl

theorem attributes_setParent : (Store.setParent c o).attributes = o.attributes := by
  obtain ⟨handle, id, name, attributes, body⟩ := o
  cases body <;> rfl

theorem attributes_joinNet : (Store.joinNet c o).attributes = o.attributes := by
  obtain ⟨handle, id, name, attributes, body⟩ := o
  cases body <;> rfl

end Members

namespace Store

/-! ## A whole store -/

/-- Every object is recorded. -/
def Recorded (s : Store) : Prop :=
  ∀ h o, s.object? h = some o → o.IsRecorded s.strings s.size

namespace Recorded

variable {s : Store}

theorem intern (hs : s.Recorded) (text : String) : (s.intern text).Recorded := fun h o ho =>
  (hs h o ho).mono (fun _ hmem => (StringTable.mem_intern _ _ _).2 (Or.inl hmem)) (Nat.le_refl _)

theorem modify (hs : s.Recorded) {h : Handle} {f : Object → Object}
    (hattributes : ∀ o, (f o).attributes = o.attributes)
    (hmembers : ∀ o, (f o).members = o.members) : (s.modify h f).Recorded := by
  intro x o ho
  rw [size_modify]
  rw [object?_modify] at ho
  split at ho
  · obtain ⟨o', ho', rfl⟩ := Option.map_eq_some_iff.1 ho
    exact (hs x o' ho').of_eq (hattributes o') (hmembers o')
  · exact hs x o ho

theorem write (hs : s.Recorded) (h : Handle) (name : String) (a : Attribute) :
    (s.write h name a).Recorded := by
  intro x o ho
  rw [size_write]
  rw [object?_write] at ho
  split at ho
  · obtain ⟨o', ho', rfl⟩ := Option.map_eq_some_iff.1 ho
    exact (hs x o' ho').write name a
  · exact (hs x o ho).mono (fun _ hmem => (StringTable.mem_internAll _ _ _).2 (Or.inl hmem))
      (Nat.le_refl _)

theorem stamp (hs : s.Recorded) (h : Handle) (name value : String) :
    (s.stamp h name value).Recorded :=
  hs.write h name _

/-- A new object comes with its attributes interned; a new net has members that are there. -/
theorem create (hs : s.Recorded) (scope name : String) {body : Body}
    (details : List (String × String)) (hbody : ∀ members, body = .net members →
      ∀ c ∈ members, c < s.size) :
    (s.create scope name body details).1.Recorded := by
  intro h o ho
  rw [size_create]
  by_cases hh : h = s.size
  · subst hh
    rw [object?_create_self] at ho
    cases ho
    refine ⟨fun e he => ⟨?_, ?_⟩, fun c hc => ?_⟩
    · exact (StringTable.mem_internAll _ _ _).2
        (Or.inr (List.mem_cons_of_mem _ (List.mem_flatMap.2 ⟨e, he, by simp⟩)))
    · exact (StringTable.mem_internAll _ _ _).2
        (Or.inr (List.mem_cons_of_mem _ (List.mem_flatMap.2 ⟨e, he, by simp⟩)))
    · cases body with
      | net members => exact Nat.lt_succ_of_lt (hbody members rfl c hc)
      | _ => cases hc
  · rw [object?_create_of_ne s scope name body details hh] at ho
    exact (hs h o ho).mono (fun _ hmem => (StringTable.mem_internAll _ _ _).2 (Or.inl hmem))
      (Nat.le_succ _)

theorem enlist (hs : s.Recorded) (net : Handle) (name id : String) (c : Handle) :
    (enlist net name id s c).Recorded :=
  (((hs.stamp c _ _).stamp c _ _).stamp c _ _).modify (attributes_joinNet · _) (members_joinNet · _)

theorem enlistAll (hs : s.Recorded) (net : Handle) (name id : String) (members : List Handle) :
    (members.foldl (Store.enlist net name id) s).Recorded := by
  induction members generalizing s with
  | nil => exact hs
  | cons c rest ih => exact ih (hs.enlist net name id c)

/-- Every elementary operation records what it writes. -/
theorem change {s' : Store} (h : Change s s') (hs : s.Recorded) : s'.Recorded := by
  cases h with
  | intern text => exact hs.intern text
  | @module _ name ilm resource h hok =>
    obtain ⟨-, -, -, ⟨-, heq⟩ | ⟨-, -, -, heq⟩⟩ := addModule_cases hok
    · rw [← show (s.createResource name ilm).1 = s' by rw [heq]]
      exact hs.create _ _ _ fun _ h => by cases h
    · rw [← show (s.createWithInstance name ilm).1 = s' by rw [heq]]
      exact (hs.create _ _ _ fun _ h => by cases h).create _ _ _ fun _ h => by cases h
  | @placement _ name module parent h hok =>
    obtain ⟨-, o, m, p, c, -, -, -, -, -, -, hcase⟩ := addInstance_cases hok
    rcases hcase with ⟨-, -, -, heq⟩ | ⟨-, -, -, -, rfl⟩
    · rw [← show (s.createPlacement name module parent).1 = s' by rw [heq]]
      exact ((hs.create _ _ _ fun _ h => by cases h).modify (attributes_addChild · _)
        (members_addChild · _)).modify (attributes_addPlacement · _) (members_addPlacement · _)
    · exact ((hs.modify (attributes_setParent · _) (members_setParent · _)).stamp _ _ _).modify
        (attributes_addChild · _) (members_addChild · _)
  | @part _ owner h name p _ hok =>
    obtain ⟨-, o, -, -, -, -, heq⟩ := attach_cases hok
    rw [← show (s.createPart o name p).1 = s' by rw [heq]]
    exact (hs.create _ _ _ fun _ h => by cases h).modify (fun _ => rfl) (members_adopt · _ p)
  | @net _ name members h hok =>
    obtain ⟨-, -, -, hjoin, -, rfl⟩ := addNet_cases hok
    refine (hs.create _ _ _ fun listed hlisted c hc => ?_).enlistAll _ _ _ _
    cases hlisted
    obtain ⟨o, -, -, ho, -⟩ := hjoin c hc
    exact lt_size_of_outline? (outline?_of_object? ho)
  | writing hok =>
    obtain ⟨-, o, -, -, rfl⟩ := setAttribute_cases hok
    exact hs.write _ _ _

end Recorded

/-- The store is coherent, repeats what it should, and records what it writes. -/
structure Sound (s : Store) : Prop where
  coherent : s.Coherent
  mirrored : s.Mirrored
  recorded : s.Recorded

theorem Sound.change {s s' : Store} (h : Change s s') (hs : s.Sound) : s'.Sound where
  coherent := Coherent.change h hs.coherent
  mirrored := hs.mirrored.change h hs.coherent
  recorded := hs.recorded.change h

theorem Sound.changes {s s' : Store} (h : Changes s s') (hs : s.Sound) : s'.Sound := by
  induction h with
  | refl => exact hs
  | tail _ hchange ih => exact ih.change hchange

theorem Reachable.sound {s : Store} (hs : s.Reachable) : s.Sound :=
  hs.induction ⟨coherent_empty, fun _ _ h => (by cases h), fun _ _ h => (by cases h)⟩ Sound.change

/-! ## Good texts and handles -/

/-- All indices. -/
def indices (s : Store) : List (OrderedMap String Handle) :=
  [s.ids, s.modules, s.instances, s.nets, s.moduleIds, s.instanceIds, s.netIds]

/-- Whatever the store holds on to is good. -/
structure Valid (s : Store) : Prop where
  text : ∀ {h : Handle} {o : Object}, s.object? h = some o → ∀ text ∈ o.texts,
    text ∈ s.strings.texts
  handle : ∀ {h : Handle} {o : Object}, s.object? h = some o → ∀ x ∈ o.body.handles, x < s.size
  index : ∀ index ∈ s.indices, ∀ e ∈ index.entries, e.1 ∈ s.strings.texts ∧ e.2 < s.size

/-- A part repeats all its texts. -/
theorem exists_mirror_of_mem_texts {p : Part} {text : String} (h : text ∈ p.texts) :
    ∃ name, (name, .own text) ∈ p.mirror := by
  cases p with
  | port direction net => cases h
  | pin connection inverted net | parameter value isLocal | adjustment value | code code =>
    cases List.mem_singleton.1 h
    exact ⟨_, List.mem_cons_self⟩
  | declaration defaultType assigned net =>
    cases assigned with
    | none => cases h
    | some value =>
      cases List.mem_singleton.1 h
      exact ⟨"assign", by simp [Part.mirror]⟩
  | regfile entries | entry registers | register => cases h

namespace Sound

variable {s : Store} (hs : s.Sound)

include hs

/-- What an attribute repeats is in the table. -/
theorem mem_texts_of_mirror {h : Handle} {o : Object} (ho : s.object? h = some o) (name : String)
    {text : String} (hmem : (name, .own text) ∈ o.mirror) : text ∈ s.strings.texts := by
  obtain ⟨value, htext, hget⟩ := hs.mirrored h o ho name _ hmem
  cases htext
  exact ((hs.recorded h o ho).entry _ (OrderedMap.mem_entries_of_get? hget)).2

theorem id_mem_texts {h : Handle} {o : Object} (ho : s.object? h = some o) :
    o.id ∈ s.strings.texts :=
  hs.mem_texts_of_mirror ho "id" (by simp [Object.mirror])

theorem name_mem_texts {h : Handle} {o : Object} (ho : s.object? h = some o) :
    o.name ∈ s.strings.texts :=
  hs.mem_texts_of_mirror ho "name" (by simp [Object.mirror])

theorem mem_texts {h : Handle} {o : Object} (ho : s.object? h = some o) {text : String}
    (hmem : text ∈ o.texts) : text ∈ s.strings.texts := by
  rcases List.mem_append.1 hmem with hmem | hmem
  · rcases List.mem_cons.1 hmem with rfl | hmem
    · exact hs.id_mem_texts ho
    · rcases List.mem_cons.1 hmem with rfl | hmem
      · exact hs.name_mem_texts ho
      · cases hbody : o.body with
        | part owner p =>
          rw [hbody] at hmem
          obtain ⟨name, hmirror⟩ := exists_mirror_of_mem_texts hmem
          exact hs.mem_texts_of_mirror ho name
            (by simp [Object.mirror, hbody, Body.mirror, hmirror])
        | _ => rw [hbody] at hmem; cases hmem
  · obtain ⟨e, he, hmem⟩ := List.mem_flatMap.1 hmem
    obtain ⟨hname, hvalue⟩ := (hs.recorded h o ho).entry e he
    simp only [List.mem_cons, List.not_mem_nil, or_false] at hmem
    rcases hmem with rfl | rfl
    · exact hname
    · exact hvalue

/-- What is listed under some key in an index is an object, and the key is its id or its name. -/
theorem mem_index {keep : Label → Prop} {key : Label → String} {index : OrderedMap String Handle}
    (hkey : key = Label.id ∨ key = Label.name) (hi : Indexes s.label? keep key index)
    {e : String × Handle} (he : e ∈ index.entries) : e.1 ∈ s.strings.texts ∧ e.2 < s.size := by
  obtain ⟨v, hv, -, heq⟩ := hi.mem_entries.1 he
  refine ⟨?_, lt_size_of_label? hv⟩
  obtain ⟨o, ho, rfl⟩ := label?_eq_some_iff.1 hv
  rw [← heq]
  rcases hkey with rfl | rfl
  · exact hs.id_mem_texts ho
  · exact hs.name_mem_texts ho

/-- A key under which something is found is in the table. -/
theorem mem_texts_of_get? {keep : Label → Prop} {key : Label → String}
    {index : OrderedMap String Handle} (hkey : key = Label.id ∨ key = Label.name)
    (hi : Indexes s.label? keep key index) {text : String} {h : Handle}
    (hget : index.get? text = some h) : text ∈ s.strings.texts :=
  (hs.mem_index hkey hi (OrderedMap.mem_entries_of_get? hget)).1

theorem lt_size_of_mem_parts {h c : Handle} {o : Object} (ho : s.object? h = some o) {k : Kind}
    (hc : c ∈ o.listed k) : c < s.size := by
  obtain ⟨x, p, hx, -⟩ := ((hs.coherent.wellFormed.parts ho k).2 c).1 hc
  exact lt_size_of_outline? (outline?_of_object? hx)

theorem lt_size_of_mem_module {h c : Handle} {o : Object} {m : Module} (ho : s.object? h = some o)
    (hm : o.body = .module m) (hc : c ∈ (Body.module m).handles) : c < s.size := by
  obtain ⟨handle, id, name, attributes, body⟩ := o
  cases hm
  have hplaced : c ∈ m.placements → c < s.size := fun hc => by
    obtain ⟨x, i, hx, -⟩ := ((hs.coherent.wellFormed.placements ho rfl).2 c).1 hc
    exact lt_size_of_outline? (outline?_of_object? hx)
  simp only [Body.handles, List.mem_append, Option.mem_toList] at hc
  rcases hc with ((((((hc | hc) | hc) | hc) | hc) | hc) | hc) | hc
  · exact hs.lt_size_of_mem_parts ho (k := .parameter) hc
  · exact hs.lt_size_of_mem_parts ho (k := .port) hc
  · exact hs.lt_size_of_mem_parts ho (k := .declaration) hc
  · exact hs.lt_size_of_mem_parts ho (k := .code) hc
  · exact hs.lt_size_of_mem_parts ho (k := .regfile) hc
  · obtain ⟨x, i, hx, -⟩ := ((hs.coherent.wellFormed.children ho rfl).2 c).1 hc
    exact lt_size_of_outline? (outline?_of_object? hx)
  · exact hplaced hc
  · -- A default instance is a placement, and a resource has none.
    cases hres : m.resource with
    | true =>
      rw [(hs.coherent.wellFormed.resource ho rfl hres).1] at hc
      cases hc
    | false =>
      obtain ⟨d, -, -, hd, hplacements, -⟩ := hs.coherent.wellFormed.ordinary ho rfl hres
      rw [hd] at hc
      cases hc
      exact hplaced (by rw [hplacements]; exact List.mem_singleton.2 rfl)

theorem lt_size_of_mem_instance {h c : Handle} {o : Object} {i : Instance}
    (ho : s.object? h = some o) (hi : o.body = .inst i) (hc : c ∈ (Body.inst i).handles) :
    c < s.size := by
  obtain ⟨handle, id, name, attributes, body⟩ := o
  cases hi
  simp only [Body.handles, List.cons_append, List.mem_cons, List.mem_append,
    Option.mem_toList] at hc
  rcases hc with rfl | (hc | hc) | hc
  · obtain ⟨x, m, hx, -⟩ := hs.coherent.wellFormed.module ho rfl
    exact lt_size_of_outline? (outline?_of_object? hx)
  · obtain ⟨x, m, hx, -⟩ := hs.coherent.wellFormed.parent ho rfl hc
    exact lt_size_of_outline? (outline?_of_object? hx)
  · exact hs.lt_size_of_mem_parts ho (k := .adjustment) hc
  · exact hs.lt_size_of_mem_parts ho (k := .pin) hc

/-- The net of a member is there. -/
theorem lt_size_of_net? {h net owner : Handle} {o : Object} {p : Part} (ho : s.object? h = some o)
    (hp : o.body = .part owner p) (hnet : p.net? = some net) : net < s.size := by
  have hmem : ("netid", .idOf .net net) ∈ o.mirror := by
    have hmirror : ("netid", .idOf .net net) ∈ p.mirror := by
      cases p with
      | port direction n | pin connection inverted n | declaration defaultType assigned n =>
        cases hnet
        simp [Part.mirror, mirrorNet]
      | _ => cases hnet
    simp [Object.mirror, hp, Body.mirror, hmirror]
  obtain ⟨value, htext, -⟩ := hs.mirrored h o ho _ _ hmem
  obtain ⟨v, hv, -⟩ := Option.bind_eq_some_iff.1 htext
  exact lt_size_of_label? hv

theorem lt_size_of_mem_part {h c owner : Handle} {o : Object} {p : Part}
    (ho : s.object? h = some o) (hp : o.body = .part owner p)
    (hc : c ∈ (Body.part owner p).handles) : c < s.size := by
  obtain ⟨handle, id, name, attributes, body⟩ := o
  cases hp
  simp only [Body.handles, List.cons_append, List.mem_cons, List.mem_append,
    Option.mem_toList] at hc
  rcases hc with rfl | hc | hc
  · obtain ⟨x, hx, -⟩ := hs.coherent.wellFormed.owner ho rfl
    exact lt_size_of_outline? (outline?_of_object? hx)
  · exact hs.lt_size_of_net? ho rfl hc
  · cases p with
    | regfile entries => exact hs.lt_size_of_mem_parts ho (k := .entry) hc
    | entry registers => exact hs.lt_size_of_mem_parts ho (k := .register) hc
    | _ => cases hc

/-- What a sound store holds on to is good. -/
theorem valid : s.Valid := by
  constructor
  case text =>
    intro h o ho text hmem
    exact hs.mem_texts ho hmem
  case handle =>
    intro h o ho c hc
    cases hbody : o.body with
    | module m => exact hs.lt_size_of_mem_module ho hbody (hbody ▸ hc)
    | inst i => exact hs.lt_size_of_mem_instance ho hbody (hbody ▸ hc)
    | net members =>
      refine (hs.recorded h o ho).member c ?_
      rw [Object.members, hbody]
      rwa [hbody] at hc
    | part owner p => exact hs.lt_size_of_mem_part ho hbody (hbody ▸ hc)
  case index =>
    intro index hindex e he
    simp only [indices, List.mem_cons, List.not_mem_nil, or_false] at hindex
    rcases hindex with rfl | rfl | rfl | rfl | rfl | rfl | rfl
    · exact hs.mem_index (Or.inl rfl) hs.coherent.ids he
    · exact hs.mem_index (Or.inr rfl) hs.coherent.modules he
    · exact hs.mem_index (Or.inr rfl) hs.coherent.instances he
    · exact hs.mem_index (Or.inr rfl) hs.coherent.nets he
    · exact hs.mem_index (Or.inl rfl) hs.coherent.moduleIds he
    · exact hs.mem_index (Or.inl rfl) hs.coherent.instanceIds he
    · exact hs.mem_index (Or.inl rfl) hs.coherent.netIds he

end Sound

end Store

end Interconnect
