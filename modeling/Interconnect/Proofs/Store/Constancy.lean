import Interconnect.Proofs.Store.Coherence

/-!
# Constant attributes

A caller cannot write a constant attribute again.  The store itself writes built-in attributes,
and it does not ask whether they are there.  Most of them come with the object.  Four of them
come later: an instance gets `parent` when it is placed, and a port, a pin or a declaration gets
`signal`, `net` and `netid` when it joins a net.  Until then they are *pending*, and a constant
attribute that a caller has set under such a name is written over.

Every other constant attribute stays as it is.  `Evolves` says what may happen to one object,
`evolves_change` is the step, and `evolves_after` is the run.
-/

namespace Interconnect

/-! ## One object -/

namespace Object

/-- The names of the built-in attributes that the object has yet to get. -/
def pending (o : Object) : List String :=
  match o.body with
  | .inst i => if i.parent = none then ["parent"] else []
  | .part _ p => if p.joinsNets ∧ p.net? = none then ["signal", "net", "netid"] else []
  | _ => []

/-- What may become of an object: a constant attribute stays and is constant, and it keeps its
value unless it is pending.  No more attributes come to be pending. -/
structure Evolves (o o' : Object) : Prop where
  kept : ∀ {name : String} {a : Attribute}, o.attributes.get? name = some a →
    a.constant = true → ∃ b, o'.attributes.get? name = some b ∧ b.constant = true ∧
      (name ∉ o.pending → b = a)
  pending : o'.pending ⊆ o.pending

namespace Evolves

/-- Nothing happens to the attributes of an object that is not placed and joins no net. -/
theorem of_eq {o o' : Object} (hattributes : o'.attributes = o.attributes)
    (hpending : o'.pending ⊆ o.pending) : Evolves o o' := by
  refine ⟨fun {name a} ha hc => ⟨a, ?_, hc, fun _ => rfl⟩, hpending⟩
  rw [hattributes, ha]

theorem refl (o : Object) : Evolves o o :=
  of_eq rfl (List.Subset.refl _)

theorem trans {o o' o'' : Object} (h : Evolves o o') (h' : Evolves o' o'') : Evolves o o'' := by
  refine ⟨fun {name a} ha hc => ?_, List.Subset.trans h'.pending h.pending⟩
  obtain ⟨b, hb, hbc, hkeep⟩ := h.kept ha hc
  obtain ⟨b', hb', hbc', hkeep'⟩ := h'.kept hb hbc
  refine ⟨b', hb', hbc', fun hname => ?_⟩
  rw [hkeep' fun hmem => hname (h.pending hmem), hkeep hname]

/-- An attribute that is not constant may be written. -/
theorem write {o : Object} {name : String}
    (hfree : ∀ a, o.attributes.get? name = some a → a.constant = false) (a : Attribute) :
    Evolves o (o.write name a) := by
  refine ⟨fun {name' b} hb hc => ⟨b, ?_, hc, fun _ => rfl⟩, List.Subset.refl _⟩
  have hne : name' ≠ name := by
    rintro rfl
    rw [hfree b hb] at hc
    cases hc
  exact (OrderedMap.get?_insert_of_ne _ a hne).trans hb

/-- A pending attribute may be written for good. -/
theorem stamp {o : Object} {name : String} (hname : name ∈ o.pending) (value : String) :
    Evolves o (o.write name { value, constant := true }) := by
  refine ⟨fun {name' b} hb hc => ?_, List.Subset.refl _⟩
  by_cases hne : name' = name
  · subst hne
    exact ⟨_, OrderedMap.get?_insert_self _ _ _, rfl, fun hnot => absurd hname hnot⟩
  · exact ⟨b, (OrderedMap.get?_insert_of_ne _ _ hne).trans hb, hc, fun _ => rfl⟩

theorem adopt (p : Part) (c : Handle) (o : Object) : Evolves o (o.adopt p c) := by
  refine of_eq rfl ?_
  obtain ⟨handle, id, name, attributes, body⟩ := o
  cases body with
  | part owner q => cases q <;> cases p <;> exact List.Subset.refl _
  | _ => cases p <;> exact List.Subset.refl _

theorem addChild (c : Handle) (o : Object) : Evolves o (Store.addChild c o) := by
  obtain ⟨handle, id, name, attributes, body⟩ := o
  cases body <;> exact of_eq rfl (List.Subset.refl _)

theorem addPlacement (c : Handle) (o : Object) : Evolves o (Store.addPlacement c o) := by
  obtain ⟨handle, id, name, attributes, body⟩ := o
  cases body <;> exact of_eq rfl (List.Subset.refl _)

/-- An instance that is not placed may be placed. -/
theorem place {o : Object} {i : Instance} (hi : o.body = .inst i) (hfree : i.parent = none)
    (parent : Handle) (value : String) :
    Evolves o ((Store.setParent parent o).write "parent" { value, constant := true }) := by
  obtain ⟨handle, id, name, attributes, body⟩ := o
  cases hi
  have hname : "parent" ∈ Object.pending ⟨handle, id, name, attributes, .inst i⟩ := by
    simp [Object.pending, hfree]
  exact ⟨(stamp hname value).kept, List.nil_subset _⟩

/-- A part that has joined a net waits for nothing. -/
theorem joinNet (net : Handle) (o : Object) : Evolves o (Store.joinNet net o) := by
  obtain ⟨handle, id, name, attributes, body⟩ := o
  refine of_eq ?_ ?_
  · cases body <;> rfl
  · cases body with
    | part owner p => cases p <;> exact List.nil_subset _
    | _ => exact List.Subset.refl _

/-- A part that was in no net may join one. -/
theorem enlist {o : Object} (hpending : o.pending = ["signal", "net", "netid"]) (net : Handle)
    (name id : String) :
    Evolves o (Store.joinNet net (((o.write "signal" { value := name, constant := true }).write
      "net" { value := name, constant := true }).write "netid"
      { value := id, constant := true })) := by
  have hsignal : "signal" ∈ o.pending := by simp [hpending]
  -- A stamp changes neither the body nor, with it, what is pending.
  have hnet : "net" ∈ (o.write "signal" { value := name, constant := true }).pending := by
    show "net" ∈ o.pending
    simp [hpending]
  have hnetid : "netid" ∈ ((o.write "signal" { value := name, constant := true }).write "net"
      { value := name, constant := true }).pending := by
    show "netid" ∈ o.pending
    simp [hpending]
  exact (((stamp hsignal name).trans (stamp hnet name)).trans (stamp hnetid id)).trans
    (joinNet net _)

end Evolves

end Object

namespace Store

/-! ## A whole store -/

/-- Every object of the one store has become one of the other. -/
def Evolves (s s' : Store) : Prop :=
  ∀ h o, s.object? h = some o → ∃ o', s'.object? h = some o' ∧ o.Evolves o'

/-- The object is a part that may join a net. -/
def Joinable (s : Store) (c : Handle) : Prop :=
  ∃ o, s.object? c = some o ∧ o.pending = ["signal", "net", "netid"]

namespace Evolves

variable {s s' s'' : Store}

theorem refl (s : Store) : Evolves s s :=
  fun _ o ho => ⟨o, ho, .refl o⟩

theorem trans (h : Evolves s s') (h' : Evolves s' s'') : Evolves s s'' := by
  intro x o ho
  obtain ⟨o', ho', heq⟩ := h x o ho
  obtain ⟨o'', ho'', heq'⟩ := h' x o' ho'
  exact ⟨o'', ho'', heq.trans heq'⟩

theorem modify {h : Handle} {f : Object → Object}
    (hf : ∀ o, s.object? h = some o → o.Evolves (f o)) : Evolves s (s.modify h f) := by
  intro x o ho
  rw [object?_modify]
  by_cases hx : h = x
  · subst hx
    exact ⟨f o, by rw [if_pos rfl, ho, Option.map_some], hf o ho⟩
  · exact ⟨o, by rw [if_neg hx, ho], .refl o⟩

theorem create (s : Store) (scope name : String) (body : Body)
    (details : List (String × String)) : Evolves s (s.create scope name body details).1 := by
  intro x o ho
  have hlt : x < s.size := lt_size_of_outline? (outline?_of_object? ho)
  exact ⟨o, (object?_create_of_ne s scope name body details (Nat.ne_of_lt hlt)).trans ho, .refl o⟩

/-- An instance that was not placed is placed. -/
theorem place {inst : Handle} {d : Object} {i : Instance} (hd : s.object? inst = some d)
    (hi : d.body = .inst i) (hfree : i.parent = none) (parent : Handle) :
    Evolves s (s.place inst parent) := by
  have hmoved : Evolves s
      ((s.modify inst (setParent parent)).stamp inst "parent" (s.describe parent)) := by
    intro x o ho
    rw [object?_stamp, object?_modify]
    by_cases hx : inst = x
    · subst hx
      rw [hd] at ho
      cases ho
      refine ⟨_, ?_, Object.Evolves.place hi hfree parent (s.describe parent)⟩
      rw [if_pos rfl, if_pos rfl, hd]
      rfl
    · exact ⟨o, by rw [if_neg hx, if_neg hx, ho], .refl o⟩
  exact hmoved.trans (modify fun o _ => .addChild inst o)

/-- A part that may join a net joins it. -/
theorem enlist {c : Handle} (hc : s.Joinable c) (net : Handle) (name id : String) :
    Evolves s (enlist net name id s c) := by
  obtain ⟨o, ho, hpending⟩ := hc
  intro x y hy
  unfold Store.enlist
  by_cases hx : c = x
  · subst hx
    rw [ho] at hy
    cases hy
    refine ⟨_, ?_, Object.Evolves.enlist hpending net name id⟩
    rw [object?_modify, if_pos rfl, object?_stamp, if_pos rfl, object?_stamp, if_pos rfl,
      object?_stamp, if_pos rfl, ho]
    rfl
  · refine ⟨y, ?_, .refl y⟩
    rw [object?_modify, if_neg hx, object?_stamp, if_neg hx, object?_stamp, if_neg hx,
      object?_stamp, if_neg hx, hy]

end Evolves

/-- Distinct parts that may join a net join it one after the other.  The parts that are left are
as they were, and so each of them may still join when its turn comes. -/
theorem enlistAll_induction {P : Store → Prop} {net : Handle} {name id : String}
    (hstep : ∀ {s : Store} {c : Handle}, s.Joinable c → P s → P (enlist net name id s c))
    {s : Store} {members : List Handle} (hnodup : members.Nodup)
    (hall : ∀ c ∈ members, s.Joinable c) (hs : P s) :
    P (members.foldl (enlist net name id) s) := by
  induction members generalizing s with
  | nil => exact hs
  | cons c rest ih =>
    obtain ⟨hc, hrest⟩ := List.nodup_cons.1 hnodup
    refine ih hrest (fun x hx => ?_) (hstep (hall c List.mem_cons_self) hs)
    obtain ⟨o, ho, hpending⟩ := hall x (List.mem_cons_of_mem c hx)
    have hne : c ≠ x := fun heq => hc (heq ▸ hx)
    refine ⟨o, ?_, hpending⟩
    unfold enlist
    rw [object?_modify, if_neg hne, object?_stamp, if_neg hne, object?_stamp, if_neg hne,
      object?_stamp, if_neg hne, ho]

theorem nodup_distinct (members : List Handle) : (distinct members).Nodup := by
  induction members with
  | nil => exact List.nodup_nil
  | cons h rest ih =>
    unfold distinct
    exact List.nodup_cons.2 ⟨by simp, ih.filter _⟩

/-- What a new net is made of may join it. -/
theorem joinable_create {s : Store} {c : Handle} {scope name : String} {body : Body}
    {details : List (String × String)}
    (hc : ∃ o owner p, s.object? c = some o ∧ o.body = .part owner p ∧ p.joinsNets = true ∧
      p.net? = none) : (s.create scope name body details).1.Joinable c := by
  obtain ⟨o, owner, p, ho, hbody, hjoins, hnone⟩ := hc
  have hlt : c < s.size := lt_size_of_outline? (outline?_of_object? ho)
  refine ⟨o, (object?_create_of_ne s _ _ _ _ (Nat.ne_of_lt hlt)).trans ho, ?_⟩
  rw [Object.pending, hbody]
  exact if_pos ⟨hjoins, hnone⟩

/-! ## Changes and runs -/

/-- Every elementary operation lets objects evolve. -/
theorem evolves_change {s s' : Store} (h : Change s s') : Evolves s s' := by
  cases h with
  | intern text => exact .refl s
  | @module _ name ilm resource h hok =>
    obtain ⟨-, -, -, ⟨-, heq⟩ | ⟨-, -, -, heq⟩⟩ := addModule_cases hok
    · rw [← show (s.createResource name ilm).1 = s' by rw [heq]]
      exact .create s name name _ _
    · rw [← show (s.createWithInstance name ilm).1 = s' by rw [heq]]
      exact (Evolves.create s name name _ _).trans (.create _ name name _ _)
  | @placement _ name module parent h hok =>
    obtain ⟨-, o, m, p, c, -, -, -, -, -, -, hcase⟩ := addInstance_cases hok
    rcases hcase with ⟨-, -, -, heq⟩ | ⟨-, -, -, ⟨d, i, hd, hi, hfree⟩, rfl⟩
    · rw [← show (s.createPlacement name module parent).1 = s' by rw [heq]]
      exact ((Evolves.create s name name _ _).trans (.modify fun o _ => .addChild _ o)).trans
        (.modify fun o _ => .addPlacement _ o)
    · exact .place hd hi hfree parent
  | @part _ owner h name p _ hok =>
    obtain ⟨-, o, -, -, -, -, heq⟩ := attach_cases hok
    rw [← show (s.createPart o name p).1 = s' by rw [heq]]
    exact (Evolves.create s _ name _ _).trans (.modify fun o _ => .adopt p _ o)
  | @net _ name members h hok =>
    obtain ⟨-, -, -, hjoin, -, rfl⟩ := addNet_cases hok
    exact enlistAll_induction (fun hc h => h.trans (.enlist hc _ _ _)) (nodup_distinct members)
      (fun c hc => joinable_create (hjoin c hc)) (.create s name name _ _)
  | writing hok =>
    obtain ⟨-, o, ho, hfree, rfl⟩ := setAttribute_cases hok
    refine Evolves.modify fun o' ho' => ?_
    rw [ho] at ho'
    cases ho'
    exact .write hfree _

/-- The store after some more commands. -/
def after (s : Store) (commands : List Command) : Store :=
  commands.foldl (fun s c => (s.exec c).store) s

/-- Commands let objects evolve, unless one of them clears the store. -/
theorem evolves_after (s : Store) {commands : List Command} (hkeep : .clear ∉ commands) :
    Evolves s (s.after commands) := by
  induction commands generalizing s with
  | nil => exact .refl s
  | cons c rest ih =>
    have hc : c ≠ .clear := fun heq => hkeep (by simp [heq])
    have hstep : Evolves s (s.exec c).store := by
      have hchanges : Changes s (s.exec c).store := changes_exec s c hc
      generalize (s.exec c).store = s' at hchanges
      induction hchanges with
      | refl => exact .refl s
      | tail _ hchange hprev => exact hprev.trans (evolves_change hchange)
    exact hstep.trans (ih _ fun hmem => hkeep (by simp [hmem]))

/-- The attribute is a built-in one that its object has yet to get. -/
def IsPending (s : Store) (h : Handle) (name : String) : Prop :=
  ∃ o, s.object? h = some o ∧ name ∈ o.pending

/-- Whatever commands follow, unless one of them clears the store, a constant attribute is there
and is constant.  It keeps its value, too, unless it is pending. -/
theorem constant_attribute_after (s : Store) {commands : List Command}
    (hkeep : .clear ∉ commands) {h : Handle} {name : String} {a : Attribute}
    (ha : s.attribute? h name = some a) (hc : a.constant = true) :
    ∃ b, (s.after commands).attribute? h name = some b ∧ b.constant = true ∧
      (¬ s.IsPending h name → b = a) := by
  obtain ⟨o, ho, hget⟩ := Option.bind_eq_some_iff.1 ha
  obtain ⟨o', ho', hevolves⟩ := evolves_after s hkeep h o ho
  obtain ⟨b, hb, hbc, hsame⟩ := hevolves.kept hget hc
  refine ⟨b, ?_, hbc, fun hnot => hsame fun hmem => hnot ⟨o, ho, hmem⟩⟩
  rw [attribute?, ho', Option.bind_some, hb]

/-- A leaf that is not placed yet, and whose instance carries a constant attribute `parent`. -/
def presetParent : Store :=
  execAll
    [.addModule "top" false false, .addModule "leaf" false false,
      .setAttribute 3 "parent" "mine" true, .setAttribute 3 "owner" "me" true]

theorem constant_attribute_presetParent :
    .clear ∉ [Command.addInstance "leaf" 2 0, .setAttribute 3 "owner" "you" false] ∧
      presetParent.attribute? 3 "owner" = some ⟨"me", true⟩ ∧ ¬ presetParent.IsPending 3 "owner" ∧
      ∃ b, (presetParent.after
        [.addInstance "leaf" 2 0, .setAttribute 3 "owner" "you" false]).attribute? 3 "owner"
          = some b ∧ b.constant = true ∧
            (¬ presetParent.IsPending 3 "owner" → b = ⟨"me", true⟩) := by
  have hkeep : .clear ∉ [Command.addInstance "leaf" 2 0, .setAttribute 3 "owner" "you" false] := by
    simp
  have ha : presetParent.attribute? 3 "owner" = some ⟨"me", true⟩ := rfl
  refine ⟨hkeep, ha, ?_, constant_attribute_after presetParent hkeep ha rfl⟩
  rintro ⟨o, ho, hmem⟩
  cases ho
  have hpending : "owner" ∈ ["parent"] := hmem
  simp at hpending

/-- Placing the leaf writes over the constant attribute. -/
theorem not_constant_attribute_kept :
    ¬ ∀ s : Store, s.Reachable → ∀ (h : Handle) (name : String) (a : Attribute),
      s.attribute? h name = some a → a.constant = true →
      ∀ commands : List Command, .clear ∉ commands →
        (s.after commands).attribute? h name = some a := by
  intro hall
  have h := hall presetParent (reachable_execAll _) 3 "parent" ⟨"mine", true⟩ rfl rfl
    [.addInstance "leaf" 2 0] (by simp)
  have hplaced : (presetParent.after [.addInstance "leaf" 2 0]).attribute? 3 "parent"
      = some ⟨"module::top", true⟩ := rfl
  rw [hplaced] at h
  simp at h

end Store

end Interconnect
