import Interconnect.Proofs.Request.Parametrization
import Interconnect.Proofs.Request.Verdict

/-!
# What a request leaves alone

A request that succeeds numbers the objects that it creates one after the other, from the first
free handle on, and a connection puts its net right after them.  Whatever was there before keeps
its id, its attributes and what it consists of, except that a module or an instance lists the parts
that it got, in the order of their creation, after those that it had.

`Framed` states this of the store before a request and the store in which the plan has been carried
out.  Binding the objects together then touches none but the new ones (`SameBelow`).
-/

namespace Interconnect

/-! ## Lists that get new entries -/

/-- The list has got some of the new handles, at its end and in their order. -/
def Appends (created l l' : List Handle) : Prop :=
  ∃ new, new.Sublist created ∧ l' = l ++ new

namespace Appends

theorem refl (created l : List Handle) : Appends created l l :=
  ⟨[], List.nil_sublist _, (List.append_nil l).symm⟩

theorem single (h : Handle) (l : List Handle) : Appends [h] l (l ++ [h]) :=
  ⟨[h], List.Sublist.refl _, rfl⟩

theorem trans {created created' l l' l'' : List Handle} (h : Appends created l l')
    (h' : Appends created' l' l'') : Appends (created ++ created') l l'' := by
  obtain ⟨new, hnew, rfl⟩ := h
  obtain ⟨new', hnew', rfl⟩ := h'
  exact ⟨new ++ new', hnew.append hnew', List.append_assoc l new new'⟩

end Appends

/-- What a module gains from a request. -/
structure Module.Gains (created : List Handle) (m m' : Module) : Prop where
  ilm : m'.ilm = m.ilm
  resource : m'.resource = m.resource
  params : Appends created m.params m'.params
  ports : Appends created m.ports m'.ports
  decls : Appends created m.decls m'.decls
  code : m'.code = m.code
  regfiles : m'.regfiles = m.regfiles
  children : m'.children = m.children
  placements : m'.placements = m.placements
  defaultInstance : m'.defaultInstance = m.defaultInstance

/-- What an instance gains from a request. -/
structure Instance.Gains (created : List Handle) (i i' : Instance) : Prop where
  module : i'.module = i.module
  parent : i'.parent = i.parent
  adjustments : Appends created i.adjustments i'.adjustments
  pins : Appends created i.pins i'.pins

/-- What a body gains from a request.  Nets and parts gain nothing. -/
inductive Body.Gains (created : List Handle) : Body → Body → Prop where
  | module {m m' : Module} : m.Gains created m' → Gains created (.module m) (.module m')
  | inst {i i' : Instance} : i.Gains created i' → Gains created (.inst i) (.inst i')
  | net (members : List Handle) : Gains created (.net members) (.net members)
  | part (owner : Handle) (p : Part) : Gains created (.part owner p) (.part owner p)

section Gains

variable {created created' : List Handle}

theorem Module.Gains.refl (m : Module) : m.Gains created m :=
  ⟨rfl, rfl, .refl _ _, .refl _ _, .refl _ _, rfl, rfl, rfl, rfl, rfl⟩

theorem Module.Gains.trans {m m' m'' : Module} (h : m.Gains created m')
    (h' : m'.Gains created' m'') : m.Gains (created ++ created') m'' where
  ilm := h'.ilm.trans h.ilm
  resource := h'.resource.trans h.resource
  params := h.params.trans h'.params
  ports := h.ports.trans h'.ports
  decls := h.decls.trans h'.decls
  code := h'.code.trans h.code
  regfiles := h'.regfiles.trans h.regfiles
  children := h'.children.trans h.children
  placements := h'.placements.trans h.placements
  defaultInstance := h'.defaultInstance.trans h.defaultInstance

theorem Instance.Gains.refl (i : Instance) : i.Gains created i :=
  ⟨rfl, rfl, .refl _ _, .refl _ _⟩

theorem Instance.Gains.trans {i i' i'' : Instance} (h : i.Gains created i')
    (h' : i'.Gains created' i'') : i.Gains (created ++ created') i'' where
  module := h'.module.trans h.module
  parent := h'.parent.trans h.parent
  adjustments := h.adjustments.trans h'.adjustments
  pins := h.pins.trans h'.pins

theorem Body.Gains.refl (b : Body) : b.Gains created b := by
  cases b with
  | module m => exact .module (.refl m)
  | inst i => exact .inst (.refl i)
  | net members => exact .net members
  | part owner p => exact .part owner p

theorem Body.Gains.trans {b b' b'' : Body} (h : b.Gains created b') (h' : b'.Gains created' b'') :
    b.Gains (created ++ created') b'' := by
  cases h with
  | module hm => cases h' with | module hm' => exact .module (hm.trans hm')
  | inst hi => cases h' with | inst hi' => exact .inst (hi.trans hi')
  | net members => cases h' with | net => exact .net members
  | part owner p => cases h' with | part => exact .part owner p

end Gains

/-! ## What requests ask for -/

/-- Requests ask for such parts only. -/
def Part.isRequested : Part → Bool
  | .port .. | .pin .. | .parameter .. | .adjustment .. | .declaration .. => true
  | _ => false

theorem Part.isLeaf_of_isRequested {p : Part} (hp : p.isRequested = true) : p.isLeaf = true := by
  cases p <;> first | rfl | cases hp

/-- An owner gains the part. -/
theorem Body.gains_adopt {p : Part} (hp : p.isRequested = true) (h : Handle) (b : Body) :
    b.Gains [h] (b.adopt p h) := by
  cases b with
  | module m =>
    cases p
    case port => exact .module { Module.Gains.refl m with ports := .single h m.ports }
    case parameter => exact .module { Module.Gains.refl m with params := .single h m.params }
    case declaration => exact .module { Module.Gains.refl m with decls := .single h m.decls }
    all_goals first | exact .refl _ | cases hp
  | inst i =>
    cases p
    case pin => exact .inst { Instance.Gains.refl i with pins := .single h i.pins }
    case adjustment =>
      exact .inst { Instance.Gains.refl i with adjustments := .single h i.adjustments }
    all_goals exact .refl _
  | net members => exact .refl _
  | part owner q =>
    cases q
    case regfile | entry => cases p <;> first | exact .refl _ | cases hp
    all_goals exact .refl _

theorem Task.Asked.isRequested {t : Task} {p : Part} (h : t.Asked p) : p.isRequested = true := by
  cases h <;> rfl

namespace Store

/-! ## Carrying out a plan -/

/-- Modules and instances are found as before. -/
structure SamePlaces (s s' : Store) : Prop where
  modules : s'.modules = s.modules
  instances : s'.instances = s.instances
  moduleIds : s'.moduleIds = s.moduleIds
  instanceIds : s'.instanceIds = s.instanceIds

theorem SamePlaces.trans {s s' s'' : Store} (h : SamePlaces s s') (h' : SamePlaces s' s'') :
    SamePlaces s s'' :=
  ⟨h'.modules.trans h.modules, h'.instances.trans h.instances, h'.moduleIds.trans h.moduleIds,
    h'.instanceIds.trans h.instanceIds⟩

/-- The store has got the objects, numbered from its first free handle on, and their owners list
them.  Other than that, what was there is as it was, and modules and instances are found as
before. -/
structure Framed (s s' : Store) (created : List Handle) : Prop where
  numbered : created = List.range' s.size created.length
  places : SamePlaces s s'
  kept : ∀ h o, s.object? h = some o →
    ∃ b, s'.object? h = some { o with body := b } ∧ o.body.Gains created b

namespace Framed

variable {s s' s'' : Store} {created : List Handle}

theorem refl (s : Store) : Framed s s [] :=
  ⟨rfl, ⟨rfl, rfl, rfl, rfl⟩, fun _ o ho => ⟨o.body, ho, .refl o.body⟩⟩

/-- An owner gets a part. -/
theorem attach (hs : s.Coherent) {owner h : Handle} {name : String} {p : Part}
    (hp : p.isRequested = true) (hok : s.attach owner name p = .ok (s', h)) :
    s'.size = s.size + 1 ∧ Framed s s' [h] := by
  obtain ⟨hh, hsize, -⟩ := attach_holds hs hok
  refine ⟨hsize, ?_⟩
  constructor
  case numbered => rw [hh]; rfl
  case places =>
    obtain ⟨-, o, -, -, -, -, heq⟩ := attach_cases hok
    rw [show s' = (s.createPart o name p).1 by rw [heq]]
    cases p <;> exact ⟨rfl, rfl, rfl, rfl⟩
  case kept =>
    intro x y hy
    obtain ⟨y', hy', -, rfl | rfl⟩ := attach_keeps hs hok hy
    · exact ⟨y'.body, hy', .refl _⟩
    · exact ⟨y.body.adopt p s.size, hy', hh ▸ Body.gains_adopt hp s.size y.body⟩

/-- More parts follow. -/
theorem cons {h : Handle} (hsize : s'.size = s.size + 1) (hfirst : Framed s s' [h])
    (hrest : Framed s' s'' created) : Framed s s'' (h :: created) := by
  constructor
  case numbered =>
    have hh : h = s.size := List.singleton_injective hfirst.numbered
    rw [List.length_cons, List.range'_succ, ← hsize, ← hrest.numbered, hh]
  case places => exact hfirst.places.trans hrest.places
  case kept =>
    intro x o ho
    obtain ⟨b, hb, hgains⟩ := hfirst.kept x o ho
    obtain ⟨b', hb', hgains'⟩ := hrest.kept x _ hb
    exact ⟨b', hb', hgains.trans hgains'⟩

/-- No handle of an object that was there is among the new ones. -/
theorem size_le (h : Framed s s' created) : ∀ c ∈ created, s.size ≤ c := by
  intro c hc
  rw [h.numbered] at hc
  exact (List.mem_range'_1.1 hc).1

theorem nodup (h : Framed s s' created) : created.Nodup := by
  rw [h.numbered]
  exact List.nodup_range'

end Framed

/-- What carrying out steps creates is numbered, and its owners list it. -/
theorem framed_carryOut {s : Store} (hs : s.Coherent) {request : String} {steps : List Step}
    {created : List Handle} (hok : (s.carryOut request steps).result = .ok created)
    (hnew : ∀ step ∈ steps, step.IsNew)
    (hrequested : ∀ d ∈ steps.filterMap Step.demand?, d.part.isRequested = true) :
    (s.carryOut request steps).store.size = s.size + created.length ∧
      Framed s (s.carryOut request steps).store created := by
  induction steps generalizing s created with
  | nil =>
    cases hok
    exact ⟨rfl, .refl s⟩
  | cons step rest ih =>
    have hnew' : ∀ step ∈ rest, step.IsNew := fun step hstep => hnew step (by simp [hstep])
    rcases carryOut_cases hok with ⟨d', rfl, heq⟩ |
      ⟨demand, clash, s₁, h, created', notices, rfl, hattach, hrest, rfl, heq⟩ |
      ⟨demand, clash, id, rfl, -, heq⟩
    · rw [heq] at hok ⊢
      exact ih hs hok hnew' hrequested
    · have hcoherent : s₁.Coherent :=
        Coherent.change (.part (hnew (.create demand clash) (by simp)) hattach) hs
      obtain ⟨hsize, hframed⟩ :=
        Framed.attach hs (hrequested demand (by simp [Step.demand?])) hattach
      obtain ⟨hsize', hframed'⟩ := ih hcoherent hrest hnew' fun d hd =>
        hrequested d (by simp [Step.demand?, hd])
      rw [heq]
      refine ⟨?_, hframed.cons hsize hframed'⟩
      rw [Outcome.store_after, Outcome.store_map, hsize', hsize, List.length_cons]
      omega
    · rw [heq] at hok ⊢
      exact ih hs hok hnew' fun d hd => hrequested d (by simp [Step.demand?, hd])

/-! ## Binding what was created -/

/-- Nothing has happened to the objects below a handle, and modules and instances are found as
before. -/
structure SameBelow (n : Nat) (s s' : Store) : Prop where
  places : SamePlaces s s'
  object : ∀ h < n, s'.object? h = s.object? h

theorem Framed.sameBelow {s s' s'' : Store} {created : List Handle} (h : Framed s s' created)
    (h' : SameBelow s.size s' s'') : Framed s s'' created := by
  refine ⟨h.numbered, h.places.trans h'.places, fun x o ho => ?_⟩
  obtain ⟨b, hb, hgains⟩ := h.kept x o ho
  have hlt : x < s.size := lt_size_of_outline? (outline?_of_object? ho)
  exact ⟨b, (h'.object x hlt).trans hb, hgains⟩

namespace SameBelow

variable {n : Nat} {s s' s'' : Store}

theorem refl (n : Nat) (s : Store) : SameBelow n s s :=
  ⟨⟨rfl, rfl, rfl, rfl⟩, fun _ _ => rfl⟩

theorem trans (h : SameBelow n s s') (h' : SameBelow n s' s'') : SameBelow n s s'' :=
  ⟨h.places.trans h'.places, fun x hx => (h'.object x hx).trans (h.object x hx)⟩

theorem modify {c : Handle} (hc : n ≤ c) (s : Store) (f : Object → Object) :
    SameBelow n s (s.modify c f) :=
  ⟨⟨rfl, rfl, rfl, rfl⟩, fun x hx =>
    (object?_modify s c x f).trans (if_neg (Nat.ne_of_gt (Nat.lt_of_lt_of_le hx hc)))⟩

theorem write {c : Handle} (hc : n ≤ c) (s : Store) (name : String) (a : Attribute) :
    SameBelow n s (s.write c name a) :=
  ⟨⟨rfl, rfl, rfl, rfl⟩, (modify hc s (Object.write name a)).object⟩

theorem enlistAll {members : List Handle} (hall : ∀ c ∈ members, n ≤ c) (net : Handle)
    (name id : String) (s : Store) :
    SameBelow n s (members.foldl (enlist net name id) s) := by
  induction members generalizing s with
  | nil => exact .refl n s
  | cons c rest ih =>
    have hc : n ≤ c := hall c List.mem_cons_self
    have hfirst : SameBelow n s (enlist net name id s c) :=
      (((write hc s _ _).trans (write hc _ _ _)).trans (write hc _ _ _)).trans (modify hc _ _)
    exact hfirst.trans (ih (fun x hx => hall x (List.mem_cons_of_mem c hx)) _)

/-- A new net and its members change nothing below them. -/
theorem addNet {name : String} {members : List Handle} {net : Handle} (hn : n ≤ s.size)
    (hall : ∀ c ∈ members, n ≤ c) (hok : s.addNet name members = .ok (s', net)) :
    SameBelow n s s' := by
  obtain ⟨-, -, -, -, -, rfl⟩ := addNet_cases hok
  have hcreate : SameBelow n s (s.create name name (.net (distinct members)) []).1 :=
    ⟨⟨rfl, rfl, rfl, rfl⟩, fun x hx =>
      object?_create_of_ne s _ _ _ _ (Nat.ne_of_lt (Nat.lt_of_lt_of_le hx hn))⟩
  exact hcreate.trans (enlistAll (fun c hc => hall c (mem_distinct.1 hc)) _ _ _ _)

end SameBelow

theorem size_enlistAll (net : Handle) (name id : String) (s : Store) (members : List Handle) :
    (members.foldl (enlist net name id) s).size = s.size := by
  induction members generalizing s with
  | nil => rfl
  | cons c rest ih =>
    rw [List.foldl_cons, ih, enlist, size_modify, size_stamp, size_stamp, size_stamp]

/-- A net is one more object. -/
theorem size_addNet {s s' : Store} {name : String} {members : List Handle} {net : Handle}
    (hok : s.addNet name members = .ok (s', net)) : net = s.size ∧ s'.size = s.size + 1 := by
  obtain ⟨-, -, -, -, rfl, rfl⟩ := addNet_cases hok
  exact ⟨rfl, by rw [size_enlistAll, size_create]⟩

/-- Tags change nothing below what is tagged. -/
theorem sameBelow_tagAll {n : Nat} {s : Store} {name : String} {objects : List Handle}
    (hall : ∀ c ∈ objects, n ≤ c) (hok : (tagAll name s objects).result = .ok ()) :
    (tagAll name s objects).store.size = s.size ∧
      SameBelow n s (tagAll name s objects).store := by
  induction objects generalizing s with
  | nil => exact ⟨rfl, .refl n s⟩
  | cons c rest ih =>
    unfold tagAll at hok ⊢
    split at hok
    · rename_i s₁ hset
      obtain ⟨-, -, -, -, rfl⟩ := setAttribute_cases hset
      obtain ⟨hsize, hsame⟩ := ih (fun x hx => hall x (List.mem_cons_of_mem c hx)) hok
      exact ⟨hsize.trans (size_write _ _ _ _),
        (SameBelow.write (hall c List.mem_cons_self) s _ _).trans hsame⟩
    · cases hok

/-! ## The request -/

theorem interned_internGivenName {s s' : Store} (h : Interned s s') (e : Endpoint) :
    Interned s (s'.internGivenName e) := by
  unfold internGivenName
  cases e.givenName with
  | none => exact h
  | some name => exact h.intern name

theorem interned_chains {s s' : Store} (h : Interned s s') (ends : List (Endpoint × Heading)) :
    Interned s (s'.chains ends).1 := by
  induction ends generalizing s' with
  | nil => exact h
  | cons e rest ih =>
    obtain ⟨e, heading⟩ := e
    have hname : Interned s (s'.internGivenName e) := interned_internGivenName h e
    unfold chains
    dsimp only
    split
    · exact hname
    · exact ih hname

/-- Finding out what to realize only interns texts. -/
theorem interned_spanningTree (s : Store) (request name : String)
    (ends : List (Endpoint × Heading)) :
    Interned s (s.spanningTree request name ends).store := by
  have hself : Interned s s := ⟨s.strings, List.prefix_rfl, rfl⟩
  unfold spanningTree
  split
  · exact hself
  · have hchains : Interned s (s.chains ends).1 := interned_chains hself ends
    split
    · rename_i h
      rw [h] at hchains
      exact hchains
    · rename_i s' chains h
      rw [h] at hchains
      dsimp only
      split
      · exact hchains.intern name
      · exact hchains.intern name
      · split <;> exact hchains.intern name

/-- A thread that succeeds ends with the binding of objects that its plan created, or, without a
tree, with nothing. -/
theorem framed_thread {s : Store} (hs : s.Reachable) {t : Task} {ends : List (Endpoint × Heading)}
    {bind : Store → List Handle → Outcome StoreError (List Handle)} {created : List Handle}
    (hok : (s.thread t ends bind).result = .ok created) :
    ∃ s' objects, Framed s s' objects ∧ s'.size = s.size + objects.length ∧
      (objects = [] ∧ created = [] ∧ (s.thread t ends bind).store = s' ∨
        (bind s' objects).result = .ok created ∧
          (s.thread t ends bind).store = (bind s' objects).store) := by
  obtain ⟨texts, -, htexts⟩ := interned_spanningTree s t.request t.name ends
  have hframe : ∀ {s' : Store} {objects : List Handle},
      Framed (s.withTexts texts) s' objects → Framed s s' objects := fun h =>
    ⟨h.numbered, ⟨h.places.1, h.places.2, h.places.3, h.places.4⟩, h.kept⟩
  unfold thread at hok ⊢
  obtain ⟨tree?, -, hstages, heq⟩ := Outcome.andThen_eq_ok hok
  rw [heq, htexts] at *
  cases tree? with
  | none =>
    cases hstages
    exact ⟨_, [], hframe (.refl _), rfl, Or.inl ⟨rfl, rfl, rfl⟩⟩
  | some tree =>
    dsimp only at hstages ⊢
    obtain ⟨objects, hrealize, hbind, heq'⟩ := Outcome.andThen_eq_ok hstages
    rw [Outcome.mapError_eq_ok] at hrealize hbind
    obtain ⟨hsize, hframed⟩ := framed_carryOut (hs.coherent.withTexts texts) hrealize
      (isNew_plan t _ none tree) fun d hd => by
        obtain ⟨clash, hstep⟩ := Step.mem_filterMap_demand?.1 hd
        exact (asked_of_mem_plan hstep).isRequested
    refine ⟨_, objects, hframe hframed, hsize, Or.inr ⟨hbind, ?_⟩⟩
    rw [Outcome.store_after, heq', Outcome.store_after, Outcome.store_mapError,
      Outcome.store_mapError]
    rfl

/-- Joining numbered objects leaves what was there alone, and adds a net if there are any. -/
theorem Framed.joinObjects {s s' : Store} {request signal : String}
    {objects created : List Handle} (h : Framed s s' objects)
    (hsize : s'.size = s.size + objects.length)
    (hok : (s'.joinObjects request signal objects).result = .ok created) :
    objects = created ∧ Framed s (s'.joinObjects request signal objects).store objects ∧
      (objects = [] → (s'.joinObjects request signal objects).store.size = s.size) ∧
      (objects ≠ [] →
        (s'.joinObjects request signal objects).store.size = s.size + (objects.length + 1) ∧
        (s'.joinObjects request signal objects).store.IsNet (s.size + objects.length) signal
          objects) := by
  by_cases hne : objects = []
  · subst hne
    cases hok
    exact ⟨rfl, h, fun _ => hsize, fun hnot => absurd rfl hnot⟩
  · obtain ⟨rfl, net, hnet⟩ := joinObjects_cases hok hne
    obtain ⟨rfl, hsize'⟩ := size_addNet hnet
    have hjoined := joined_of_addNet hnet
    obtain ⟨o, ho, hbody⟩ := hjoined.object
    rw [distinct_eq_self h.nodup] at hbody
    refine ⟨rfl, h.sameBelow (.addNet (hsize ▸ Nat.le_add_right _ _) h.size_le hnet),
      fun heq => absurd heq hne, fun _ => ?_⟩
    rw [hsize] at hsize' hjoined ho
    exact ⟨hsize', hjoined.found, o, ho, hbody⟩

/-- Tagging numbered objects leaves what was there alone. -/
theorem Framed.tagObjects {s s' : Store} {request name : String} {objects created : List Handle}
    (h : Framed s s' objects) (hok : (s'.tagObjects request name objects).result = .ok created) :
    objects = created ∧ Framed s (s'.tagObjects request name objects).store objects ∧
      (s'.tagObjects request name objects).store.size = s'.size := by
  unfold Store.tagObjects at hok ⊢
  split at hok
  · rename_i hnil
    rw [if_pos hnil]
    cases hok
    obtain rfl : objects = [] := by simpa using hnil
    exact ⟨rfl, h, rfl⟩
  · rename_i hnil
    rw [if_neg hnil]
    obtain ⟨⟨⟩, htag, hdone, heq⟩ := Outcome.andThen_eq_ok hok
    cases hdone
    obtain ⟨hsize, hsame⟩ := sameBelow_tagAll h.size_le htag
    rw [heq]
    exact ⟨rfl, h.sameBelow hsame, hsize⟩

section Requests

variable {s : Store} (hs : s.Reachable) {created : List Handle}

include hs

/-- A connection that succeeds. -/
theorem Reachable.framed_connect {signal : String} {source : Option Endpoint}
    {targets : List Endpoint} (hok : (s.connect signal source targets).result = .ok created) :
    Framed s (s.connect signal source targets).store created ∧
      (created = [] → (s.connect signal source targets).store.size = s.size) ∧
      (created ≠ [] →
        (s.connect signal source targets).store.size = s.size + (created.length + 1) ∧
        (s.connect signal source targets).store.IsNet (s.size + created.length) signal
          created) := by
  have hthread := connect_eq_thread hok
  rw [hthread] at hok ⊢
  obtain ⟨s', objects, hframed, hsize, ⟨rfl, rfl, hstore⟩ | ⟨hjoin, hstore⟩⟩ :=
    framed_thread hs hok
  · rw [hstore]
    exact ⟨hframed, fun _ => hsize, fun hne => absurd rfl hne⟩
  · obtain ⟨rfl, hjoined⟩ := hframed.joinObjects hsize hjoin
    rw [hstore]
    exact hjoined

/-- A request for a parameter that succeeds. -/
theorem Reachable.framed_parametrize {name value : String} {targets : List Endpoint}
    {isLocal : Bool} (hok : (s.parametrize name value targets isLocal).result = .ok created) :
    Framed s (s.parametrize name value targets isLocal).store created ∧
      (s.parametrize name value targets isLocal).store.size = s.size + created.length := by
  have hthread := parametrize_eq_thread hok
  rw [hthread] at hok ⊢
  obtain ⟨s', objects, hframed, hsize, ⟨rfl, rfl, hstore⟩ | ⟨htag, hstore⟩⟩ :=
    framed_thread hs hok
  · rw [hstore]
    exact ⟨hframed, hsize⟩
  · obtain ⟨rfl, hframed', hsame⟩ := hframed.tagObjects htag
    rw [hstore]
    exact ⟨hframed', hsame.trans hsize⟩

end Requests

end Store

/-- The number of objects that a request adds.  A connection adds a net to what it created. -/
def Request.added : Request → List Handle → Nat
  | connection .., [] => 0
  | connection .., created => created.length + 1
  | parameter .., created => created.length

namespace Store

/-- A request that succeeds creates objects that are numbered from the first free handle on, and,
if it is a connection that created some, a net of them after these.  Whatever was there keeps its
id, its attributes and what it consists of, except that new ports, parameters and declarations are
listed by their modules, and new pins and adjustments by their instances, behind those that were
there.  Modules and instances are found as before. -/
theorem framed_of_run {s : Store} (hs : s.Reachable) {r : Request} {created : List Handle}
    (hok : (r.run s).result = .ok created) :
    Framed s (r.run s).store created ∧ (r.run s).store.size = s.size + r.added created ∧
      ∀ signal source targets, r = .connection signal source targets → created ≠ [] →
        (r.run s).store.IsNet (s.size + created.length) signal created := by
  cases r with
  | connection signal source targets =>
    obtain ⟨hframed, hempty, hnet⟩ := hs.framed_connect hok
    refine ⟨hframed, ?_, fun signal' source' targets' heq hne => ?_⟩
    · cases created with
      | nil => exact hempty rfl
      | cons first others => exact (hnet (List.cons_ne_nil first others)).1
    · cases heq
      exact (hnet hne).2
  | parameter name value targets isLocal =>
    obtain ⟨hframed, hsize⟩ := hs.framed_parametrize hok
    exact ⟨hframed, hsize, nofun⟩

/-- A signal from the memory's instance up through the leaf to the top. -/
theorem framed_nested :
    nested.Reachable ∧
      (Request.run nested (.connection "clk" none [.plain 5, .plain 0])).result
        = .ok [7, 8, 9, 10] ∧
      Framed nested (Request.run nested (.connection "clk" none [.plain 5, .plain 0])).store
        [7, 8, 9, 10] ∧
      (Request.run nested (.connection "clk" none [.plain 5, .plain 0])).store.size
        = nested.size
          + Request.added (.connection "clk" none [.plain 5, .plain 0]) [7, 8, 9, 10] ∧
      ∀ signal source targets,
        Request.connection "clk" none [.plain 5, .plain 0] = .connection signal source targets →
        [7, 8, 9, 10] ≠ ([] : List Handle) →
        (Request.run nested (.connection "clk" none [.plain 5, .plain 0])).store.IsNet
          (nested.size + [7, 8, 9, 10].length) signal [7, 8, 9, 10] := by
  have hreachable : nested.Reachable := reachable_execAll _
  have hresult : (Request.run nested (.connection "clk" none [.plain 5, .plain 0])).result
      = .ok [7, 8, 9, 10] := rfl
  exact ⟨hreachable, hresult, framed_of_run hreachable hresult⟩

end Store

end Interconnect
