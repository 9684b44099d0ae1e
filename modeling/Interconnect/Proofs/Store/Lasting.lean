import Interconnect.Proofs.Store.Hierarchy
import Interconnect.Proofs.Store.Mirroring

/-!
# What lasts

An object stays under its handle, with its id, its kind and its name.  What it consists of stays
too, with three exceptions: a list that an object holds grows at its end, a part joins a net once,
and an instance is placed once.

`Object.Lasts` says of two objects that the one may be what the other was at an earlier time.
`lasts_change` is the step, and `lasts_after` is the run.
-/

namespace Interconnect

/-- A reference that stays as it is once it leads somewhere.  Until then it may be set, to an
object as it is asked for. -/
def SetOnce (asked : Handle → Prop) (r r' : Option Handle) : Prop :=
  r' = r ∨ r = none ∧ ∃ h, r' = some h ∧ asked h

namespace SetOnce

variable {asked asked' : Handle → Prop} {r r' r'' : Option Handle}

theorem refl (asked : Handle → Prop) (r : Option Handle) : SetOnce asked r r :=
  Or.inl rfl

theorem trans (h : SetOnce asked r r') (h' : SetOnce asked r' r'') : SetOnce asked r r'' := by
  rcases h with rfl | ⟨rfl, x, rfl, hx⟩
  · exact h'
  · rcases h' with rfl | ⟨hnone, -⟩
    · exact Or.inr ⟨rfl, x, rfl, hx⟩
    · cases hnone

theorem mono (h : SetOnce asked r r') (hall : ∀ x, asked x → asked' x) :
    SetOnce asked' r r' := by
  rcases h with rfl | ⟨rfl, x, rfl, hx⟩
  · exact .refl asked' r'
  · exact Or.inr ⟨rfl, x, rfl, hall x hx⟩

theorem eq_of_some (h : SetOnce asked r r') {x : Handle} (hr : r = some x) : r' = some x := by
  rcases h with rfl | ⟨hnone, -⟩
  · exact hr
  · rw [hnone] at hr
    cases hr

end SetOnce

/-! ## One object -/

/-- What may become of a module: its lists grow. -/
structure Module.Lasts (m m' : Module) : Prop where
  ilm : m'.ilm = m.ilm
  resource : m'.resource = m.resource
  defaultInstance : m'.defaultInstance = m.defaultInstance
  params : m.params <+: m'.params
  ports : m.ports <+: m'.ports
  decls : m.decls <+: m'.decls
  code : m.code <+: m'.code
  regfiles : m.regfiles <+: m'.regfiles
  children : m.children <+: m'.children
  placements : m.placements <+: m'.placements

/-- What may become of an instance: its lists grow, and it is placed in a module. -/
structure Instance.Lasts (is : Kind → Handle → Prop) (i i' : Instance) : Prop where
  module : i'.module = i.module
  parent : SetOnce (is .module) i.parent i'.parent
  adjustments : i.adjustments <+: i'.adjustments
  pins : i.pins <+: i'.pins

/-- What may become of a part: it joins a net, or its list grows. -/
inductive Part.Lasts (is : Kind → Handle → Prop) : Part → Part → Prop where
  | port (direction : PortDirection) {net net' : Option Handle} :
    SetOnce (is .net) net net' → Lasts is (.port direction net) (.port direction net')
  | pin (connection : String) (inverted : Bool) {net net' : Option Handle} :
    SetOnce (is .net) net net' →
    Lasts is (.pin connection inverted net) (.pin connection inverted net')
  | declaration (defaultType : Bool) (assigned : Option String) {net net' : Option Handle} :
    SetOnce (is .net) net net' →
    Lasts is (.declaration defaultType assigned net) (.declaration defaultType assigned net')
  | parameter (value : String) (isLocal : Bool) :
    Lasts is (.parameter value isLocal) (.parameter value isLocal)
  | adjustment (value : String) : Lasts is (.adjustment value) (.adjustment value)
  | code (text : String) : Lasts is (.code text) (.code text)
  | regfile {entries entries' : List Handle} :
    entries <+: entries' → Lasts is (.regfile entries) (.regfile entries')
  | entry {registers registers' : List Handle} :
    registers <+: registers' → Lasts is (.entry registers) (.entry registers')
  | register : Lasts is .register .register

/-- What may become of a body.  A net keeps its members, and a part its owner. -/
inductive Body.Lasts (is : Kind → Handle → Prop) : Body → Body → Prop where
  | module {m m' : Module} : m.Lasts m' → Lasts is (.module m) (.module m')
  | inst {i i' : Instance} : i.Lasts is i' → Lasts is (.inst i) (.inst i')
  | net (members : List Handle) : Lasts is (.net members) (.net members)
  | part (owner : Handle) {p p' : Part} :
    p.Lasts is p' → Lasts is (.part owner p) (.part owner p')

/-- What may become of an object. -/
structure Object.Lasts (is : Kind → Handle → Prop) (o o' : Object) : Prop where
  handle : o'.handle = o.handle
  id : o'.id = o.id
  name : o'.name = o.name
  body : o.body.Lasts is o'.body

section Order

variable {is is' : Kind → Handle → Prop}

theorem Module.Lasts.refl (m : Module) : m.Lasts m :=
  ⟨rfl, rfl, rfl, List.prefix_rfl, List.prefix_rfl, List.prefix_rfl, List.prefix_rfl,
    List.prefix_rfl, List.prefix_rfl, List.prefix_rfl⟩

theorem Module.Lasts.trans {m m' m'' : Module} (h : m.Lasts m') (h' : m'.Lasts m'') :
    m.Lasts m'' where
  ilm := h'.ilm.trans h.ilm
  resource := h'.resource.trans h.resource
  defaultInstance := h'.defaultInstance.trans h.defaultInstance
  params := h.params.trans h'.params
  ports := h.ports.trans h'.ports
  decls := h.decls.trans h'.decls
  code := h.code.trans h'.code
  regfiles := h.regfiles.trans h'.regfiles
  children := h.children.trans h'.children
  placements := h.placements.trans h'.placements

theorem Instance.Lasts.refl (i : Instance) : i.Lasts is i :=
  ⟨rfl, .refl _ _, List.prefix_rfl, List.prefix_rfl⟩

theorem Instance.Lasts.trans {i i' i'' : Instance} (h : i.Lasts is i') (h' : i'.Lasts is i'') :
    i.Lasts is i'' where
  module := h'.module.trans h.module
  parent := h.parent.trans h'.parent
  adjustments := h.adjustments.trans h'.adjustments
  pins := h.pins.trans h'.pins

theorem Part.Lasts.refl (p : Part) : p.Lasts is p := by
  cases p with
  | regfile | entry => constructor; exact List.prefix_rfl
  | port | pin | declaration => constructor; exact .refl _ _
  | parameter | adjustment | code | register => constructor

theorem Part.Lasts.trans {p p' p'' : Part} (h : p.Lasts is p') (h' : p'.Lasts is p'') :
    p.Lasts is p'' := by
  cases h with
  | port direction hnet =>
    cases h' with | port _ hnet' => exact .port direction (hnet.trans hnet')
  | pin connection inverted hnet =>
    cases h' with | pin _ _ hnet' => exact .pin connection inverted (hnet.trans hnet')
  | declaration defaultType assigned hnet =>
    cases h' with
    | declaration _ _ hnet' => exact .declaration defaultType assigned (hnet.trans hnet')
  | regfile hentries =>
    cases h' with | regfile hentries' => exact .regfile (hentries.trans hentries')
  | entry hregisters =>
    cases h' with | entry hregisters' => exact .entry (hregisters.trans hregisters')
  | parameter | adjustment | code | register => exact h'

theorem Body.Lasts.refl (b : Body) : b.Lasts is b := by
  cases b with
  | module m => exact .module (.refl m)
  | inst i => exact .inst (.refl i)
  | net members => exact .net members
  | part owner p => exact .part owner (.refl p)

theorem Body.Lasts.trans {b b' b'' : Body} (h : b.Lasts is b') (h' : b'.Lasts is b'') :
    b.Lasts is b'' := by
  cases h with
  | module hm => cases h' with | module hm' => exact .module (hm.trans hm')
  | inst hi => cases h' with | inst hi' => exact .inst (hi.trans hi')
  | net members => exact h'
  | part owner hp => cases h' with | part _ hp' => exact .part owner (hp.trans hp')

/-- It does not matter at which time one looks what a reference leads to, as long as objects keep
their kinds. -/
theorem Body.Lasts.mono {b b' : Body} (h : b.Lasts is b') (hall : ∀ k x, is k x → is' k x) :
    b.Lasts is' b' := by
  cases h with
  | module hm => exact .module hm
  | inst hi => exact .inst { hi with parent := hi.parent.mono (hall .module) }
  | net members => exact .net members
  | part owner hp =>
    refine .part owner ?_
    cases hp with
    | port direction hnet => exact .port direction (hnet.mono (hall .net))
    | pin connection inverted hnet => exact .pin connection inverted (hnet.mono (hall .net))
    | declaration defaultType assigned hnet =>
      exact .declaration defaultType assigned (hnet.mono (hall .net))
    | parameter value isLocal => exact .parameter value isLocal
    | adjustment value => exact .adjustment value
    | code text => exact .code text
    | regfile hentries => exact .regfile hentries
    | entry hregisters => exact .entry hregisters
    | register => exact .register

theorem Body.Lasts.kind_eq {b b' : Body} (h : b.Lasts is b') : b'.kind = b.kind := by
  cases h with
  | part owner hp => cases hp <;> rfl
  | _ => rfl

theorem Body.Lasts.of_module {m : Module} {b : Body} (h : (Body.module m).Lasts is b) :
    ∃ m', b = .module m' ∧ m.Lasts m' := by
  cases h with
  | module hm => exact ⟨_, rfl, hm⟩

theorem Body.Lasts.of_inst {i : Instance} {b : Body} (h : (Body.inst i).Lasts is b) :
    ∃ i', b = .inst i' ∧ i.Lasts is i' := by
  cases h with
  | inst hi => exact ⟨_, rfl, hi⟩

end Order

namespace Object.Lasts

variable {is is' : Kind → Handle → Prop} {o o' o'' : Object}

theorem refl (o : Object) : o.Lasts is o :=
  ⟨rfl, rfl, rfl, .refl o.body⟩

theorem trans (h : o.Lasts is o') (h' : o'.Lasts is o'') : o.Lasts is o'' :=
  ⟨h'.handle.trans h.handle, h'.id.trans h.id, h'.name.trans h.name, h.body.trans h'.body⟩

theorem mono (h : o.Lasts is o') (hall : ∀ k x, is k x → is' k x) : o.Lasts is' o' :=
  { h with body := h.body.mono hall }

theorem kind_eq (h : o.Lasts is o') : o'.kind = o.kind :=
  h.body.kind_eq

/-! ## The ways in which an object changes -/

theorem write (name : String) (a : Attribute) (o : Object) : o.Lasts is (o.write name a) :=
  ⟨rfl, rfl, rfl, .refl o.body⟩

theorem adopt (p : Part) (c : Handle) (o : Object) : o.Lasts is (o.adopt p c) := by
  refine ⟨rfl, rfl, rfl, ?_⟩
  obtain ⟨handle, id, name, attributes, body⟩ := o
  show body.Lasts is (body.adopt p c)
  cases body with
  | module m =>
    cases p
    case port => exact .module { Module.Lasts.refl m with ports := List.prefix_append _ _ }
    case parameter => exact .module { Module.Lasts.refl m with params := List.prefix_append _ _ }
    case declaration => exact .module { Module.Lasts.refl m with decls := List.prefix_append _ _ }
    case code => exact .module { Module.Lasts.refl m with code := List.prefix_append _ _ }
    case regfile => exact .module { Module.Lasts.refl m with regfiles := List.prefix_append _ _ }
    all_goals exact .refl _
  | inst i =>
    cases p
    case pin => exact .inst { Instance.Lasts.refl i with pins := List.prefix_append _ _ }
    case adjustment =>
      exact .inst { Instance.Lasts.refl i with adjustments := List.prefix_append _ _ }
    all_goals exact .refl _
  | net members => exact .refl _
  | part owner q =>
    cases q
    case regfile =>
      cases p
      case entry => exact .part owner (.regfile (List.prefix_append _ _))
      all_goals exact .refl _
    case entry =>
      cases p
      case register => exact .part owner (.entry (List.prefix_append _ _))
      all_goals exact .refl _
    all_goals exact .refl _

theorem addChild (c : Handle) (o : Object) : o.Lasts is (Store.addChild c o) := by
  obtain ⟨handle, id, name, attributes, body⟩ := o
  cases body with
  | module m =>
    exact ⟨rfl, rfl, rfl,
      .module { Module.Lasts.refl m with children := List.prefix_append _ _ }⟩
  | _ => exact .refl _

theorem addPlacement (c : Handle) (o : Object) : o.Lasts is (Store.addPlacement c o) := by
  obtain ⟨handle, id, name, attributes, body⟩ := o
  cases body with
  | module m =>
    exact ⟨rfl, rfl, rfl,
      .module { Module.Lasts.refl m with placements := List.prefix_append _ _ }⟩
  | _ => exact .refl _

/-- An instance that is not placed may be placed in a module. -/
theorem setParent {i : Instance} (hi : o.body = .inst i) (hfree : i.parent = none)
    {parent : Handle} (hparent : is .module parent) : o.Lasts is (Store.setParent parent o) := by
  obtain ⟨handle, id, name, attributes, body⟩ := o
  cases hi
  exact ⟨rfl, rfl, rfl,
    .inst ⟨rfl, Or.inr ⟨hfree, parent, rfl, hparent⟩, List.prefix_rfl, List.prefix_rfl⟩⟩

/-- A part that is in no net may join one. -/
theorem joinNet {owner : Handle} {p : Part} (hbody : o.body = .part owner p)
    (hfree : p.net? = none) {net : Handle} (hnet : is .net net) :
    o.Lasts is (Store.joinNet net o) := by
  obtain ⟨handle, id, name, attributes, body⟩ := o
  cases hbody
  have hset : SetOnce (is .net) p.net? (some net) := Or.inr ⟨hfree, net, rfl, hnet⟩
  refine ⟨rfl, rfl, rfl, .part owner ?_⟩
  cases p
  case port direction _ => exact .port direction hset
  case pin connection inverted _ => exact .pin connection inverted hset
  case declaration defaultType assigned _ => exact .declaration defaultType assigned hset
  all_goals exact .refl _

end Object.Lasts

namespace Store

/-! ## A whole store -/

/-- The object under a handle is of a kind. -/
def Is (s : Store) (k : Kind) (h : Handle) : Prop :=
  s.kind? h = some k

/-- Every object of the one store has become one of the other. -/
def Lasts (s s' : Store) : Prop :=
  ∀ h o, s.object? h = some o → ∃ o', s'.object? h = some o' ∧ o.Lasts s'.Is o'

theorem is_iff {s : Store} {k : Kind} {h : Handle} :
    s.Is k h ↔ ∃ o, s.object? h = some o ∧ o.kind = k :=
  Option.map_eq_some_iff

namespace Lasts

variable {s s' s'' : Store}

/-- Objects keep their kinds. -/
theorem is (h : Lasts s s') {k : Kind} {x : Handle} (hx : s.Is k x) : s'.Is k x := by
  obtain ⟨o, ho, hk⟩ := is_iff.1 hx
  obtain ⟨o', ho', hlasts⟩ := h x o ho
  exact is_iff.2 ⟨o', ho', hlasts.kind_eq.trans hk⟩

theorem refl (s : Store) : Lasts s s :=
  fun _ o ho => ⟨o, ho, .refl o⟩

theorem trans (h : Lasts s s') (h' : Lasts s' s'') : Lasts s s'' := by
  intro x o ho
  obtain ⟨o', ho', hlasts⟩ := h x o ho
  obtain ⟨o'', ho'', hlasts'⟩ := h' x o' ho'
  exact ⟨o'', ho'', (hlasts.mono fun _ _ => h'.is).trans hlasts'⟩

/-- An instance stays an instance. -/
theorem instance? (h : Lasts s s') {x : Handle} {i : Instance} (hi : s.instance? x = some i) :
    ∃ i', s'.instance? x = some i' ∧ i.Lasts s'.Is i' := by
  obtain ⟨o, ho, hbody⟩ := Option.bind_eq_some_iff.1 hi
  obtain ⟨o', ho', hlasts⟩ := h x o ho
  obtain ⟨i', hbody', hi'⟩ := (Object.instance?_eq_some.1 hbody ▸ hlasts.body).of_inst
  exact ⟨i', Option.bind_eq_some_iff.2 ⟨o', ho', Object.instance?_eq_some.2 hbody'⟩, hi'⟩

/-- One object changes.  References that it gains are looked at before the change. -/
theorem modify {h : Handle} {f : Object → Object}
    (hf : ∀ o, s.object? h = some o → o.Lasts s.Is (f o)) : Lasts s (s.modify h f) := by
  have hkept : ∀ x o, s.object? x = some o →
      ∃ o', (s.modify h f).object? x = some o' ∧ o.Lasts s.Is o' := by
    intro x o ho
    rw [object?_modify]
    by_cases hx : h = x
    · subst hx
      exact ⟨f o, by rw [if_pos rfl, ho, Option.map_some], hf o ho⟩
    · exact ⟨o, by rw [if_neg hx, ho], .refl o⟩
  have his : ∀ k x, s.Is k x → (s.modify h f).Is k x := by
    intro k x hx
    obtain ⟨o, ho, hk⟩ := is_iff.1 hx
    obtain ⟨o', ho', hlasts⟩ := hkept x o ho
    exact is_iff.2 ⟨o', ho', hlasts.kind_eq.trans hk⟩
  intro x o ho
  obtain ⟨o', ho', hlasts⟩ := hkept x o ho
  exact ⟨o', ho', hlasts.mono his⟩

theorem write (s : Store) (h : Handle) (name : String) (a : Attribute) :
    Lasts s (s.write h name a) :=
  modify fun o _ => .write name a o

theorem create (s : Store) (scope name : String) (body : Body)
    (details : List (String × String)) : Lasts s (s.create scope name body details).1 := by
  intro x o ho
  have hlt : x < s.size := lt_size_of_outline? (outline?_of_object? ho)
  exact ⟨o, (object?_create_of_ne s scope name body details (Nat.ne_of_lt hlt)).trans ho, .refl o⟩

/-- An instance that was not placed is placed in a module. -/
theorem place {inst parent : Handle} {d : Object} {i : Instance} (hd : s.object? inst = some d)
    (hi : d.body = .inst i) (hfree : i.parent = none) (hparent : s.Is .module parent) :
    Lasts s (s.place inst parent) := by
  have hmoved : Lasts s (s.modify inst (setParent parent)) := by
    refine modify fun o ho => ?_
    rw [hd] at ho
    cases ho
    exact .setParent hi hfree hparent
  exact (hmoved.trans (write _ _ _ _)).trans (modify fun o _ => .addChild inst o)

/-- A part that may join a net joins it. -/
theorem enlist {c net : Handle} (hc : s.Joinable c) (hnet : s.Is .net net) (name id : String) :
    Lasts s (enlist net name id s c) := by
  have hstamped := ((write s c "signal" { value := name, constant := true }).trans
    (write _ c "net" { value := name, constant := true })).trans
      (write _ c "netid" { value := id, constant := true })
  refine hstamped.trans (modify fun o' ho' => ?_)
  -- The stamps have left the part in no net.
  obtain ⟨o, ho, hpending⟩ := hc
  rw [object?_write, if_pos rfl, object?_write, if_pos rfl, object?_write, if_pos rfl, ho] at ho'
  obtain ⟨owner, p, hbody, -, hfree⟩ := part_of_pending hpending
  have hbody' : o'.body = .part owner p := by
    rw [← Option.some.inj ho', ← hbody]
    rfl
  exact .joinNet hbody' hfree (hstamped.is hnet)

end Lasts

/-! ## Changes and runs -/

/-- Objects last through every elementary operation. -/
theorem lasts_change {s s' : Store} (h : Change s s') : Lasts s s' := by
  cases h with
  | intern text => exact .refl s
  | @module _ name ilm resource h hok =>
    obtain ⟨-, -, -, ⟨-, heq⟩ | ⟨-, -, -, heq⟩⟩ := addModule_cases hok
    · rw [← show (s.createResource name ilm).1 = s' by rw [heq]]
      exact .create s name name _ _
    · rw [← show (s.createWithInstance name ilm).1 = s' by rw [heq]]
      exact (Lasts.create s name name _ _).trans (.create _ name name _ _)
  | @placement _ name module parent h hok =>
    obtain ⟨-, o, m, p, c, -, -, hp, hc, -, -, hcase⟩ := addInstance_cases hok
    rcases hcase with ⟨-, -, -, heq⟩ | ⟨-, -, -, ⟨d, i, hd, hi, hfree⟩, rfl⟩
    · rw [← show (s.createPlacement name module parent).1 = s' by rw [heq]]
      exact ((Lasts.create s name name _ _).trans (.modify fun o _ => .addChild _ o)).trans
        (.modify fun o _ => .addPlacement _ o)
    · exact .place hd hi hfree (is_iff.2 ⟨p, hp, Object.kind_of_module hc⟩)
  | @part _ owner h name p _ hok =>
    obtain ⟨-, o, -, -, -, -, heq⟩ := attach_cases hok
    rw [← show (s.createPart o name p).1 = s' by rw [heq]]
    exact (Lasts.create s _ name _ _).trans (.modify fun o _ => .adopt p _ o)
  | @net _ name members h hok =>
    obtain ⟨-, -, -, hjoin, -, rfl⟩ := addNet_cases hok
    -- The net is there before its members join, and stays a net while they do.
    have hnet : (s.create name name (.net (distinct members)) []).1.Is .net s.size :=
      is_iff.2 ⟨_, object?_create_self s name name _ [], rfl⟩
    exact (enlistAll_induction (P := fun s' => Lasts s s' ∧ s'.Is .net s.size)
      (fun hc ⟨h, hnet⟩ =>
        ⟨h.trans (.enlist hc hnet _ _), (Lasts.enlist hc hnet _ _).is hnet⟩)
      (nodup_distinct members) (fun c hc => joinable_create (hjoin c hc))
      ⟨.create s name name _ _, hnet⟩).1
  | writing hok =>
    obtain ⟨-, o, -, -, rfl⟩ := setAttribute_cases hok
    exact .write s _ _ _

theorem lasts_changes {s s' : Store} (h : Changes s s') : Lasts s s' := by
  induction h with
  | refl => exact .refl s
  | tail _ hchange hprev => exact hprev.trans (lasts_change hchange)

/-- Objects last through commands, unless one of them clears the store. -/
theorem lasts_after (s : Store) {commands : List Command} (hkeep : .clear ∉ commands) :
    Lasts s (s.after commands) := by
  induction commands generalizing s with
  | nil => exact .refl s
  | cons c rest ih =>
    have hc : c ≠ .clear := fun heq => hkeep (by simp [heq])
    exact (lasts_changes (changes_exec s c hc)).trans (ih _ fun hmem => hkeep (by simp [hmem]))

/-- Whatever commands follow, unless one of them clears the store, an object stays under its
handle with its id, its kind and its name.  Of what it consists of, a list may have grown at its
end, a part may have joined a net that it stays in, and an instance may have been placed in a
module where it stays.  So the default instance of a module is placed once and never moved. -/
theorem object_after (s : Store) {commands : List Command} (hkeep : .clear ∉ commands)
    {h : Handle} {o : Object} (ho : s.object? h = some o) :
    ∃ o', (s.after commands).object? h = some o' ∧ o.Lasts (s.after commands).Is o' ∧
      o'.kind = o.kind ∧
      ∀ m inst parent, o.body = .module m → m.defaultInstance = some inst →
        (s.instance? inst).bind Instance.parent = some parent →
        (∃ m', o'.body = .module m' ∧ m'.defaultInstance = some inst) ∧
          ((s.after commands).instance? inst).bind Instance.parent = some parent := by
  have hlasts := lasts_after s hkeep
  obtain ⟨o', ho', hobject⟩ := hlasts h o ho
  refine ⟨o', ho', hobject, hobject.kind_eq, ?_⟩
  intro m inst parent hm hdefault hplaced
  obtain ⟨m', hm', hmodule⟩ := (hm ▸ hobject.body).of_module
  obtain ⟨i, hi, hparent⟩ := Option.bind_eq_some_iff.1 hplaced
  obtain ⟨i', hi', hinst⟩ := hlasts.instance? hi
  exact ⟨⟨m', hm', hmodule.defaultInstance.trans hdefault⟩,
    Option.bind_eq_some_iff.2 ⟨i', hi', hinst.parent.eq_of_some hparent⟩⟩

/-- The leaf, which is placed, gets another port, and its port joins a net. -/
theorem object_after_nested :
    .clear ∉ [Command.addPort 2 "rst" .input, .addNet "clk" [6]] ∧
      ∃ o, nested.object? 2 = some o ∧ ∃ o',
        (nested.after [.addPort 2 "rst" .input, .addNet "clk" [6]]).object? 2 = some o' ∧
        o.Lasts (nested.after [.addPort 2 "rst" .input, .addNet "clk" [6]]).Is o' ∧
        o'.kind = o.kind ∧
        ∀ m inst parent, o.body = .module m → m.defaultInstance = some inst →
          (nested.instance? inst).bind Instance.parent = some parent →
          (∃ m', o'.body = .module m' ∧ m'.defaultInstance = some inst) ∧
            ((nested.after [.addPort 2 "rst" .input, .addNet "clk" [6]]).instance? inst).bind
              Instance.parent = some parent := by
  have hkeep : .clear ∉ [Command.addPort 2 "rst" .input, .addNet "clk" [6]] := by simp
  exact ⟨hkeep, _, rfl, object_after nested hkeep rfl⟩

end Store

end Interconnect
