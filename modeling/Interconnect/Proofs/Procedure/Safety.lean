import Interconnect.Proofs.Procedure.Command

/-!
# What never happens

A procedure stops by refusing, or because something is not as it has to be: an index is out of
range, a text has no number, an object is not what it was checked to be.  A refusal in turn is about
the arguments, or it says that the stored objects contradict each other.

On a reachable store, whatever the arguments, procedures stop by refusing only, and no refusal tells
of a contradiction, but for one: a net refuses an object that is no port, pin or declaration.
-/

namespace Interconnect

/-! ## Contradictions -/

/-- The refusal tells of a contradiction among the stored objects. -/
def StoreError.IsInternal : StoreError → Prop
  | inconsistent _ => True
  | _ => False

def RequestError.IsInternal : RequestError → Prop
  | inconsistent _ => True
  | store e => e.IsInternal
  | _ => False

def Failure.IsInternal : Failure → Prop
  | store e => e.IsInternal
  | request e => e.IsInternal

/-- The operation tells of a contradiction only if something holds. -/
def InternalOnlyIf {α : Type} (P : Prop) (r : Except StoreError α) : Prop :=
  ∀ e, r = .error e → e.IsInternal → P

namespace InternalOnlyIf

variable {α β : Type} {P : Prop}

theorem ok (a : α) : InternalOnlyIf P (.ok a) := fun _ h => by cases h

theorem error {e : StoreError} (h : e.IsInternal → P) :
    InternalOnlyIf P (.error e : Except StoreError α) := fun e' heq hinternal => by
  cases heq
  exact h hinternal

/-- A refusal that is about the arguments. -/
theorem plain {e : StoreError} (h : ¬ e.IsInternal) :
    InternalOnlyIf P (.error e : Except StoreError α) :=
  error fun hinternal => absurd hinternal h

theorem bind {x : Except StoreError α} {f : α → Except StoreError β} (hx : InternalOnlyIf P x)
    (hf : ∀ a, x = .ok a → InternalOnlyIf P (f a)) : InternalOnlyIf P (x >>= f) := by
  cases x with
  | error e => exact error (hx e rfl)
  | ok a => exact hf a rfl

theorem guardIf {c : Prop} [Decidable c] {e : StoreError} {k : Unit → Except StoreError α}
    (he : c → e.IsInternal → P) (hk : ¬ c → InternalOnlyIf P (k ())) :
    InternalOnlyIf P (if c then throw e >>= k else k ()) := by
  by_cases h : c
  · rw [if_pos h]
    exact error (he h)
  · rw [if_neg h]
    exact hk h

theorem guard {c : Prop} [Decidable c] {e : StoreError} {k : Unit → Except StoreError α}
    (he : ¬ e.IsInternal) (hk : ¬ c → InternalOnlyIf P (k ())) :
    InternalOnlyIf P (if c then throw e >>= k else k ()) :=
  guardIf (fun _ h => absurd h he) hk

theorem forM {f : Handle → Except StoreError Unit} {xs : List Handle}
    (h : ∀ x ∈ xs, InternalOnlyIf P (f x)) : InternalOnlyIf P (xs.forM f) := by
  induction xs with
  | nil => exact ok ()
  | cons x rest ih =>
    exact (h x List.mem_cons_self).bind fun _ _ => ih fun y hy => h y (List.mem_cons_of_mem x hy)

end InternalOnlyIf

namespace Store

/-- The object is there, and it is no port, pin or declaration. -/
def IsNoMember (s : Store) (h : Handle) : Prop :=
  ∃ k, s.kind? h = some k ∧ k ≠ .port ∧ k ≠ .pin ∧ k ≠ .declaration

section Plain

variable {s : Store} {P : Prop}

theorem internal_expectObject (h : Handle) : InternalOnlyIf P (s.expectObject h) := by
  unfold expectObject
  cases s.object? h with
  | none => exact .plain id
  | some o => exact .ok o

theorem internal_expectKind (k : Kind) (h : Handle) : InternalOnlyIf P (s.expectKind k h) := by
  refine (internal_expectObject h).bind fun o _ => ?_
  split
  · exact .ok o
  · exact .plain id

theorem internal_expectModule (h : Handle) : InternalOnlyIf P (s.expectModule h) := by
  refine (internal_expectObject h).bind fun o _ => ?_
  cases o.module? with
  | none => exact .plain id
  | some m => exact .ok (o, m)

theorem internal_expectInstance (h : Handle) : InternalOnlyIf P (s.expectInstance h) := by
  refine (internal_expectObject h).bind fun o _ => ?_
  cases o.instance? with
  | none => exact .plain id
  | some i => exact .ok (o, i)

theorem internal_expectFree (id : String) : InternalOnlyIf P (s.expectFree id) := by
  unfold expectFree
  split
  · exact .plain fun h => h
  · exact .ok ()

theorem internal_expectOwner (owner : Handle) (p : Part) :
    InternalOnlyIf P (s.expectOwner owner p) := by
  refine (internal_expectKind _ owner).bind fun o _ => ?_
  cases p.innerContent? with
  | none => exact .ok o
  | some what =>
    cases o.module? with
    | none => exact .ok o
    | some m =>
      dsimp only
      split
      · exact .plain id
      · exact .ok o

theorem internal_attach (owner : Handle) (name : String) (p : Part) :
    InternalOnlyIf P (s.attach owner name p) := by
  unfold attach
  refine .guard id fun _ => ?_
  refine (internal_expectOwner owner p).bind fun o _ => ?_
  exact (internal_expectFree _).bind fun _ _ => .ok _

theorem internal_addCode (module : Handle) (name : Option String) (text : String) :
    InternalOnlyIf P (s.addCode module name text) :=
  (internal_expectOwner module _).bind fun _ _ => internal_attach module _ _

theorem internal_addModule (name : String) (ilm resource : Bool) :
    InternalOnlyIf P (s.addModule name ilm resource) := by
  unfold addModule
  refine .guard id fun _ => .guard id fun _ => ?_
  refine (internal_expectFree _).bind fun _ _ => ?_
  split
  · exact .ok _
  · refine .guard id fun _ => ?_
    exact (internal_expectFree _).bind fun _ _ => .ok _

theorem internal_setAttribute (h : Handle) (name value : String) (constant : Bool) :
    InternalOnlyIf P (s.setAttribute h name value constant) := by
  unfold setAttribute
  refine .guard id fun _ => (internal_expectObject h).bind fun o _ => ?_
  exact .guard id fun _ => .ok _

theorem internal_setAttributes (s : Store) (h : Handle) (pairs : List (String × String)) :
    InternalOnlyIf P (s.setAttributes h pairs).2 := by
  induction pairs generalizing s with
  | nil => exact .ok ()
  | cons pair rest ih =>
    obtain ⟨name, value⟩ := pair
    have hfirst := internal_setAttribute (s := s) (P := P) h name value false
    unfold setAttributes
    cases hr : s.setAttribute h name value false with
    | ok s' => exact ih s'
    | error e => exact .error (hfirst e hr)

theorem internal_attributes (h : Handle) : InternalOnlyIf P (s.attributes h) :=
  (internal_expectObject h).bind fun _ _ => .ok _

/-- A net refuses what cannot be a member. -/
theorem internal_expectJoinable (h : Handle) :
    InternalOnlyIf (s.IsNoMember h) (s.expectJoinable h) := by
  refine (internal_expectObject h).bind fun o ho => ?_
  have hkind : s.kind? h = some o.kind := by
    rw [kind?, expectObject_eq_ok.1 ho, Option.map_some]
  cases hbody : o.body with
  | part owner p =>
    dsimp only
    refine .guardIf (fun hjoins _ => ⟨o.kind, hkind, ?_⟩) fun _ => ?_
    · rw [Object.kind, hbody]
      cases p <;> simp [Part.joinsNets, Body.kind, Part.kind] at hjoins ⊢
    · cases p.net? with
      | none => exact .ok ()
      | some net => exact .plain id
  | _ =>
    refine .error fun _ => ⟨o.kind, hkind, ?_⟩
    rw [Object.kind, hbody]
    exact ⟨Kind.noConfusion, Kind.noConfusion, Kind.noConfusion⟩

theorem internal_addNet (name : String) (members : List Handle) :
    InternalOnlyIf (∃ h ∈ members, s.IsNoMember h) (s.addNet name members) := by
  unfold addNet
  refine .guard id fun _ => .guard id fun _ => ?_
  refine (internal_expectFree _).bind fun _ _ => ?_
  have hall : ∀ h ∈ distinct members,
      InternalOnlyIf (∃ h ∈ members, s.IsNoMember h) (s.expectJoinable h) :=
    fun h hh e heq hinternal =>
      ⟨h, mem_distinct.1 hh, internal_expectJoinable h e heq hinternal⟩
  exact (InternalOnlyIf.forM hall).bind fun _ _ => .ok _

end Plain

section Reachable

variable {s : Store} (hs : s.Reachable) {P : Prop}

include hs

/-- Every climb ends, and passes modules and instances only. -/
theorem Reachable.internal_hierarchyPath (h : Handle) : InternalOnlyIf P (s.hierarchyPath h) := by
  refine (internal_expectObject h).bind fun o ho => .guard id fun habove => ?_
  have hplace : (s.above? h).isSome := by
    rw [above?, expectObject_eq_ok.1 ho, Option.bind_some, Option.isSome_iff_ne_none]
    simpa using habove
  obtain ⟨path, hclimbs⟩ := hs.rooted h hplace
  rw [climb_eq_ok hclimbs h (Nat.le_succ_of_le (length_le_size hclimbs))]
  exact .ok path

theorem Reachable.internal_hierarchyRoot (h : Handle) : InternalOnlyIf P (s.hierarchyRoot h) :=
  (hs.internal_hierarchyPath h).bind fun _ _ => .ok _

theorem Reachable.internal_wouldCreateCycle (module parent : Handle) :
    InternalOnlyIf P (s.wouldCreateCycle module parent) :=
  (hs.internal_hierarchyPath parent).bind fun _ _ => .ok _

/-- A module that is no resource has its default instance. -/
theorem Reachable.internal_addInstance (name : String) (module parent : Handle) :
    InternalOnlyIf P (s.addInstance name module parent) := by
  unfold addInstance
  refine .guard id fun _ => (internal_expectModule module).bind ?_
  rintro ⟨o, m⟩ ho
  refine (internal_expectModule parent).bind ?_
  rintro ⟨p, container⟩ -
  refine .guard id fun _ => ?_
  split
  · refine .guard id fun _ => (internal_expectFree _).bind fun _ _ => ?_
    refine (hs.internal_wouldCreateCycle module parent).bind fun cycle _ => ?_
    exact .guard id fun _ => .ok _
  · rename_i hres
    obtain ⟨hobject, hm⟩ := expectModule_eq_ok.1 ho
    obtain ⟨inst, -, -, hinst, -⟩ :=
      hs.coherent.wellFormed.ordinary hobject hm (Bool.not_eq_true _ ▸ hres)
    refine .guard id fun _ => ?_
    rw [hinst]
    refine (internal_expectInstance inst).bind ?_
    rintro ⟨d, i⟩ -
    dsimp only
    cases i.parent with
    | some placed => exact .plain id
    | none =>
      refine (hs.internal_wouldCreateCycle module parent).bind fun cycle _ => ?_
      exact .guard id fun _ => .ok _

/-- Whatever makes a request fail is about the request. -/
theorem Reachable.not_internal_run {r : Request} {e : RequestError}
    (h : (r.run s).result = .error e) : ¬ e.IsInternal := by
  rcases hs.decided_run r with ⟨e', hrefuses, hfails⟩ | ⟨-, created, hok⟩
  · rw [hfails.result] at h
    cases h
    cases hrefuses <;> exact id
  · rw [hok] at h
    cases h

end Reachable

theorem internal_creating {s : Store} {r : Except StoreError (Store × Handle)} {P : Prop}
    (hr : InternalOnlyIf P r) {events : List Event} {e : Failure}
    (h : (s.creating r events).result = .error e) (hinternal : e.IsInternal) : P := by
  cases r with
  | ok created => cases h
  | error e' =>
    cases h
    exact hr e' rfl hinternal

/-- Only the members of a net make a command tell of a contradiction. -/
theorem Reachable.exists_members_of_internal {s : Store} (hs : s.Reachable) {c : Command}
    {e : Failure} (h : (s.exec c).result = .error e) (hinternal : e.IsInternal) :
    ∃ name members, c = .addNet name members ∧ ∃ h ∈ members, s.IsNoMember h := by
  cases c with
  | addNet name members =>
    exact ⟨name, members, rfl, internal_creating (internal_addNet name members) h hinternal⟩
  | addModule name ilm resource =>
    exact (internal_creating (internal_addModule _ _ _) h hinternal : False).elim
  | addInstance name module parent =>
    exact (internal_creating (hs.internal_addInstance _ _ _) h hinternal : False).elim
  | addCode module name text =>
    exact (internal_creating (internal_addCode _ _ _) h hinternal : False).elim
  | setAttribute object name value constant =>
    have hset := internal_setAttribute (s := s) (P := False) object name value constant
    unfold Store.exec at h
    dsimp only at h
    split at h
    · cases h
    · rename_i e' heq
      cases h
      exact (hset e' heq hinternal).elim
  | setAttributes object pairs =>
    have hset := internal_setAttributes (P := False) s object pairs
    unfold Store.exec at h
    dsimp only at h
    split at h
    · cases h
    · rename_i e' heq
      cases h
      exact (hset e' (by rw [heq]) hinternal).elim
  | clear => cases h
  | request r =>
    cases hr : (r.run s).result with
    | ok created =>
      unfold Store.exec at h
      dsimp only at h
      rw [Outcome.mapError, Outcome.map, hr] at h
      cases h
    | error e' =>
      unfold Store.exec at h
      dsimp only at h
      rw [Outcome.mapError, Outcome.map, hr] at h
      cases h
      exact absurd hinternal (hs.not_internal_run hr)
  | _ => exact (internal_creating (internal_attach _ _ _) h hinternal : False).elim

end Store

/-! ## Questions -/

/-- The indices of a store. -/
inductive Index where
  | ids | modules | instances | nets | moduleIds | instanceIds | netIds

def Store.index (s : Store) : Index → OrderedMap String Handle
  | .ids => s.ids
  | .modules => s.modules
  | .instances => s.instances
  | .nets => s.nets
  | .moduleIds => s.moduleIds
  | .instanceIds => s.instanceIds
  | .netIds => s.netIds

/-- What a caller can ask a store. -/
inductive Query where
  | find (index : Index) (text : String)
  | idOf (h : Handle)
  | describe (h : Handle)
  | object (h : Handle)
  | module (h : Handle)
  | inst (h : Handle)
  | path (start : Handle)
  | root (start : Handle)
  | attributeOf (h : Handle) (name : String)
  | attributesOf (h : Handle)

namespace Query

/-- What the answer looks like. -/
def Reply : Query → Type
  | find .. => Option Handle
  | idOf _ => Option String
  | describe _ => String
  | object _ => Object
  | module _ => Object × Module
  | inst _ => Object × Instance
  | path _ => List Handle
  | root _ => Handle
  | attributeOf .. => Option Attribute
  | attributesOf _ => List (String × Attribute)

/-- A question as it is answered. -/
def steps : (q : Query) → Procedure StoreError q.Reply
  | find index text => Procedure.find (fun s => s.index index) text
  | idOf h => Procedure.idOf h
  | describe h => Procedure.describe h
  | object h => Procedure.expectObject h
  | module h => Procedure.expectModule h
  | inst h => Procedure.expectInstance h
  | path start => Procedure.hierarchyPath start
  | root start => Procedure.hierarchyRoot start
  | attributeOf h name => Procedure.attributeOf h name
  | attributesOf h => Procedure.attributesOf h

end Query

namespace Store

/-- The answer to a question. -/
def ask (s : Store) : (q : Query) → Except StoreError q.Reply
  | .find index text => .ok ((s.index index).get? text)
  | .idOf h => .ok (s.idOf? h)
  | .describe h => .ok (s.describe h)
  | .object h => s.expectObject h
  | .module h => s.expectModule h
  | .inst h => s.expectInstance h
  | .path start => s.hierarchyPath start
  | .root start => s.hierarchyRoot start
  | .attributeOf h name => .ok (s.attribute? h name)
  | .attributesOf h => s.attributes h

variable {s : Store}

theorem Sound.find_follows (hs : s.Sound) (index : Index) (text : String) :
    (Procedure.find (fun s => s.index index) text : Procedure StoreError _).Follows s
      (.done s ((s.index index).get? text)) := by
  cases index with
  | ids => exact Procedure.find_follows hs (Or.inl rfl) hs.coherent.ids text
  | modules => exact Procedure.find_follows hs (Or.inr rfl) hs.coherent.modules text
  | instances => exact Procedure.find_follows hs (Or.inr rfl) hs.coherent.instances text
  | nets => exact Procedure.find_follows hs (Or.inr rfl) hs.coherent.nets text
  | moduleIds => exact Procedure.find_follows hs (Or.inl rfl) hs.coherent.moduleIds text
  | instanceIds => exact Procedure.find_follows hs (Or.inl rfl) hs.coherent.instanceIds text
  | netIds => exact Procedure.find_follows hs (Or.inl rfl) hs.coherent.netIds text

/-- A question that is answered step by step has its answer, and changes nothing. -/
theorem Sound.asked (hs : s.Sound) (q : Query) : q.steps.Follows s (.check s (s.ask q)) := by
  cases q with
  | find index text => exact hs.find_follows index text
  | idOf h => exact Procedure.idOf_follows hs h
  | describe h => exact Procedure.describe_follows hs h
  | object h => exact Procedure.expectObject_follows h
  | module h => exact Procedure.expectModule_follows hs h
  | inst h => exact Procedure.expectInstance_follows hs h
  | path start => exact Procedure.hierarchyPath_follows hs start
  | root start => exact Procedure.hierarchyRoot_follows hs start
  | attributeOf h name => exact Procedure.attributeOf_follows hs h name
  | attributesOf h => exact Procedure.attributesOf_follows hs h

/-- No question tells of a contradiction. -/
theorem Reachable.internal_ask (hs : s.Reachable) {P : Prop} (q : Query) :
    InternalOnlyIf P (s.ask q) := by
  cases q with
  | object h => exact internal_expectObject h
  | module h => exact internal_expectModule h
  | inst h => exact internal_expectInstance h
  | path start => exact hs.internal_hierarchyPath start
  | root start => exact hs.internal_hierarchyRoot start
  | attributesOf h => exact internal_attributes h
  | _ => exact .ok _

/-! ## Safety -/

/-- Whatever is asked of the store, procedures stop by refusing only, and a refusal is about what
was asked. -/
structure Safe (s : Store) : Prop where
  /-- Stored handles and texts are good. -/
  valid : s.Valid
  command : ∀ (c : Command) (cause : Stop Failure), (c.steps s).result = .error cause →
    ∃ e, cause = .refusal e ∧ (s.exec c).result = .error e ∧
      (e.IsInternal → ∃ name members, c = .addNet name members ∧ ∃ h ∈ members, s.IsNoMember h)
  query : ∀ (q : Query) (cause : Stop StoreError), (q.steps s).result = .error cause →
    ∃ e, cause = .refusal e ∧ s.ask q = .error e ∧ ¬ e.IsInternal

/-- A reachable store is safe, whatever came before. -/
theorem safe_of_reachable (hs : s.Reachable) : s.Safe := by
  constructor
  case valid => exact hs.sound.valid
  case command =>
    intro c cause hstop
    obtain ⟨e, rfl, he⟩ := (hs.steps_follows c).exists_refusal hstop
    exact ⟨e, rfl, he, hs.exists_members_of_internal he⟩
  case query =>
    intro q cause hstop
    obtain ⟨e, rfl, he⟩ := (hs.sound.asked q).exists_refusal hstop
    have hask : s.ask q = .error e := by
      cases hr : s.ask q with
      | ok a => rw [hr] at he; cases he
      | error e' => rw [hr] at he; cases he; rfl
    exact ⟨e, rfl, hask, hs.internal_ask q e hask⟩

/-- A module is no member of a net, and the handle 9 was never issued. -/
theorem safe_nested :
    nested.Reachable ∧
      ((Command.addNet "x" [0]).steps nested).result
        = .error (.refusal (.store (.inconsistent (.notAMember "module" "module::top")))) ∧
      ((Command.addNet "x" [9]).steps nested).result
        = .error (.refusal (.store (.unknownObject "#9"))) ∧
      nested.Safe := by
  have hreachable : nested.Reachable := reachable_execAll _
  exact ⟨hreachable, by decide +kernel, by decide +kernel, safe_of_reachable hreachable⟩

end Store

end Interconnect
