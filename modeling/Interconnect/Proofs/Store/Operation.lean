import Interconnect.Store.Attribute
import Interconnect.Store.Module
import Interconnect.Store.Net
import Interconnect.Store.Part

/-!
# What a successful operation did

Each operation on a store checks its arguments and then writes.  For each operation there is
one lemma here that says, of a success, which checks were passed and what was written:
`attach_cases`, `addModule_cases`, `addInstance_cases`, `addNet_cases` and
`setAttribute_cases`.  Later proofs cite these lemmas and do not unfold an operation.

A step that only looks at the stored objects is refused only for what it finds there (`Looks`), so
no lookup stands for the refusal of a cycle or of a taken id.  For a placement it is said when it
is refused because of a cycle (`addInstance_eq_iff`).
-/

namespace Interconnect

/-- Where the first step does not end a sequence, the second does. -/
theorem bind_eq_iff {ε α β : Type} {x : Except ε α} {f : α → Except ε β} {r : Except ε β}
    (h : ∀ e, r = .error e → x ≠ .error e) : (x >>= f) = r ↔ ∃ a, x = .ok a ∧ f a = r := by
  cases x with
  | error e =>
    have hne : Except.error e ≠ r := fun heq => h e heq.symm rfl
    simpa [bind, Except.bind] using hne
  | ok a => simp [bind, Except.bind]

/-- Where the guard does not end a sequence, it does not fire. -/
theorem guard_eq_iff {ε α : Type} {c : Prop} [Decidable c] {e : ε} {k : Unit → Except ε α}
    {r : Except ε α} (hr : r ≠ .error e) :
    (if c then throw e >>= k else k ()) = r ↔ ¬ c ∧ k () = r := by
  by_cases h : c
  · simpa [h, throw, throwThe, MonadExceptOf.throw, bind, Except.bind] using Ne.symm hr
  · simp [h]

/-- A sequence succeeds only if both of its steps do. -/
theorem bind_eq_ok {ε α β : Type} {x : Except ε α} {f : α → Except ε β} {b : β} :
    (x >>= f) = .ok b ↔ ∃ a, x = .ok a ∧ f a = .ok b :=
  bind_eq_iff fun _ h => by cases h

/-- A guarded sequence succeeds only if the guard does not fire. -/
theorem guard_eq_ok {ε α : Type} {c : Prop} [Decidable c] {e : ε} {k : Unit → Except ε α}
    {a : α} : (if c then throw e >>= k else k ()) = .ok a ↔ ¬ c ∧ k () = .ok a :=
  guard_eq_iff fun h => by cases h

theorem Object.module?_eq_some {o : Object} {m : Module} :
    o.module? = some m ↔ o.body = .module m := by
  unfold Object.module?
  split
  · rename_i m' h
    simp [h]
  · rename_i h
    simp only [reduceCtorEq, false_iff]
    exact h m

theorem Object.kind_of_module {o : Object} {m : Module} (hm : o.body = .module m) :
    o.kind = .module := by
  rw [kind, hm, Body.kind]

theorem Object.kind_of_inst {o : Object} {i : Instance} (hi : o.body = .inst i) :
    o.kind = .inst := by
  rw [kind, hi, Body.kind]

theorem Object.instance?_eq_some {o : Object} {i : Instance} :
    o.instance? = some i ↔ o.body = .inst i := by
  unfold Object.instance?
  split
  · rename_i i' h
    simp [h]
  · rename_i h
    simp only [reduceCtorEq, false_iff]
    exact h i

/-- The refusal tells of the stored objects: one is missing, is of another kind, or they
contradict each other. -/
inductive StoreError.IsLookup : StoreError → Prop
  | unknownObject (shown : String) : IsLookup (.unknownObject shown)
  | wrongType (id expected found : String) : IsLookup (.wrongType id expected found)
  | inconsistent (cause : Inconsistency) : IsLookup (.inconsistent cause)

namespace Store

/-! ## The demands -/

theorem expectObject_eq_ok {s : Store} {h : Handle} {o : Object} :
    s.expectObject h = .ok o ↔ s.object? h = some o := by
  unfold expectObject
  split <;> simp [*]

theorem expectKind_eq_ok {s : Store} {k : Kind} {h : Handle} {o : Object} :
    s.expectKind k h = .ok o ↔ s.object? h = some o ∧ o.kind = k := by
  unfold expectKind
  rw [bind_eq_ok]
  constructor
  · rintro ⟨o', ho', hk⟩
    split at hk
    · rename_i hkind
      cases hk
      exact ⟨expectObject_eq_ok.1 ho', hkind⟩
    · cases hk
  · rintro ⟨ho, hk⟩
    exact ⟨o, expectObject_eq_ok.2 ho, if_pos hk⟩

theorem expectModule_eq_ok {s : Store} {h : Handle} {o : Object} {m : Module} :
    s.expectModule h = .ok (o, m) ↔ s.object? h = some o ∧ o.body = .module m := by
  unfold expectModule
  rw [bind_eq_ok]
  constructor
  · rintro ⟨o', ho', hm⟩
    split at hm
    · rename_i m' hm'
      cases hm
      exact ⟨expectObject_eq_ok.1 ho', Object.module?_eq_some.1 hm'⟩
    · cases hm
  · rintro ⟨ho, hm⟩
    refine ⟨o, expectObject_eq_ok.2 ho, ?_⟩
    rw [Object.module?_eq_some.2 hm]

theorem expectInstance_eq_ok {s : Store} {h : Handle} {o : Object} {i : Instance} :
    s.expectInstance h = .ok (o, i) ↔ s.object? h = some o ∧ o.body = .inst i := by
  unfold expectInstance
  rw [bind_eq_ok]
  constructor
  · rintro ⟨o', ho', hi⟩
    split at hi
    · rename_i i' hi'
      cases hi
      exact ⟨expectObject_eq_ok.1 ho', Object.instance?_eq_some.1 hi'⟩
    · cases hi
  · rintro ⟨ho, hi⟩
    refine ⟨o, expectObject_eq_ok.2 ho, ?_⟩
    rw [Object.instance?_eq_some.2 hi]

theorem expectFree_eq_ok {s : Store} {id : String} {u : Unit} :
    s.expectFree id = .ok u ↔ s.ids.get? id = none := by
  unfold expectFree OrderedMap.contains
  split
  · rename_i h
    simp only [reduceCtorEq, false_iff]
    intro hn
    simp [hn] at h
  · rename_i h
    simpa using h

theorem expectOwner_eq_ok {s : Store} {owner : Handle} {p : Part} {o : Object} :
    s.expectOwner owner p = .ok o ↔ s.object? owner = some o ∧ o.kind = p.ownerKind ∧
      (p.innerContent?.isSome → ∀ m, o.body = .module m → m.resource = false) := by
  unfold expectOwner
  rw [bind_eq_ok]
  simp only [expectKind_eq_ok]
  constructor
  · rintro ⟨o', ⟨ho', hk⟩, hr⟩
    split at hr
    · rename_i what m hwhat hm
      split at hr
      · cases hr
      · rename_i hres
        cases hr
        refine ⟨ho', hk, fun _ m' hm' => ?_⟩
        rw [Object.module?_eq_some.1 hm] at hm'
        cases hm'
        simpa using hres
    · rename_i hnone
      cases hr
      refine ⟨ho', hk, fun hsome m hm => ?_⟩
      obtain ⟨what, hwhat⟩ := Option.isSome_iff_exists.1 hsome
      exact (hnone what m hwhat (Object.module?_eq_some.2 hm)).elim
  · rintro ⟨ho, hk, hr⟩
    refine ⟨o, ⟨ho, hk⟩, ?_⟩
    split
    · rename_i what m hwhat hm
      rw [hr (by simp [hwhat]) m (Object.module?_eq_some.1 hm)]
      rfl
    · rfl

/-! ## What a lookup is refused for -/

/-- The step only looks at the stored objects, and is refused only for what it finds there. -/
def Looks {α : Type} (x : Except StoreError α) : Prop :=
  ∀ e, x = .error e → e.IsLookup

theorem Looks.bind {α β : Type} {x : Except StoreError α} {f : α → Except StoreError β}
    (hx : Looks x) (hf : ∀ a, Looks (f a)) : Looks (x >>= f) := by
  cases x with
  | error e =>
    intro e' h
    cases h
    exact hx e rfl
  | ok a => exact hf a

theorem looks_expectObject (s : Store) (h : Handle) : Looks (s.expectObject h) := by
  intro e herror
  unfold expectObject at herror
  split at herror
  · cases herror
  · cases herror
    exact .unknownObject _

theorem looks_expectModule (s : Store) (h : Handle) : Looks (s.expectModule h) := by
  refine (looks_expectObject s h).bind fun o e herror => ?_
  split at herror
  · cases herror
  · cases herror
    exact .wrongType _ _ _

theorem looks_expectInstance (s : Store) (h : Handle) : Looks (s.expectInstance h) := by
  refine (looks_expectObject s h).bind fun o e herror => ?_
  split at herror
  · cases herror
  · cases herror
    exact .wrongType _ _ _

theorem looks_hierarchyPath (s : Store) (h : Handle) : Looks (s.hierarchyPath h) := by
  refine (looks_expectObject s h).bind fun o e herror => ?_
  split at herror
  · cases herror
    exact .wrongType _ _ _
  · cases hclimb : s.climb h (s.size + 1) h with
    | error cause =>
      rw [hclimb] at herror
      cases herror
      exact .inconsistent cause
    | ok path =>
      rw [hclimb] at herror
      cases herror

theorem looks_wouldCreateCycle (s : Store) (module parent : Handle) :
    Looks (s.wouldCreateCycle module parent) :=
  (looks_hierarchyPath s parent).bind fun _ _ herror => by cases herror

/-! ## The operations -/

/-- A part that was added has a name, an owner of the right kind that may hold it, and an id
that was free. -/
theorem attach_cases {s s' : Store} {owner h : Handle} {name : String} {p : Part}
    (hok : s.attach owner name p = .ok (s', h)) :
    name ≠ "" ∧ ∃ o, s.object? owner = some o ∧ o.kind = p.ownerKind ∧
      (p.innerContent?.isSome → ∀ m, o.body = .module m → m.resource = false) ∧
      s.ids.get? (partId p o.name name) = none ∧ s.createPart o name p = (s', h) := by
  unfold attach at hok
  obtain ⟨hname, hok⟩ := guard_eq_ok.1 hok
  obtain ⟨o, ho, hok⟩ := bind_eq_ok.1 hok
  obtain ⟨_, hfree, hok⟩ := bind_eq_ok.1 hok
  obtain ⟨hobj, hkind, hinner⟩ := expectOwner_eq_ok.1 ho
  refine ⟨by simpa using hname, o, hobj, hkind, hinner, expectFree_eq_ok.1 hfree, ?_⟩
  exact Except.ok.inj hok

/-- With a name and an owner, it is the id that decides. -/
theorem attach_eq {s : Store} {owner : Handle} {o : Object} {name : String} {p : Part}
    (ho : s.expectOwner owner p = .ok o) (hname : name ≠ "") :
    s.attach owner name p
      = if s.ids.get? (partId p o.name name) = none then .ok (s.createPart o name p)
        else .error (.idExists (partId p o.name name)) := by
  have hgiven : name.isEmpty = false := by simpa using hname
  unfold attach
  rw [hgiven, ho]
  cases htaken : s.ids.get? (partId p o.name name) <;>
    simp [expectFree, OrderedMap.contains, htaken, bind, Except.bind, pure, Except.pure]

/-- A code section is a part like others, under the name that it is given or its number. -/
theorem addCode_cases {s s' : Store} {module h : Handle} {name : Option String}
    {text : String} (hok : s.addCode module name text = .ok (s', h)) :
    ∃ o, s.object? module = some o ∧
      s.attach module (name.getD (codeName o)) (.code text) = .ok (s', h) := by
  unfold addCode at hok
  obtain ⟨o, ho, hok⟩ := bind_eq_ok.1 hok
  exact ⟨o, (expectOwner_eq_ok.1 ho).1, hok⟩

/-- A module that was added has a new name, and one that is no resource has brought its
default instance with it. -/
theorem addModule_cases {s s' : Store} {name : String} {ilm resource : Bool} {h : Handle}
    (hok : s.addModule name ilm resource = .ok (s', h)) :
    name ≠ "" ∧ s.modules.get? name = none ∧ s.ids.get? (Kind.module.objectId name) = none ∧
      ((resource = true ∧ s.createResource name ilm = (s', h)) ∨
        (resource = false ∧ s.instances.get? name = none ∧
          s.ids.get? (Kind.inst.objectId name) = none ∧
          s.createWithInstance name ilm = (s', h))) := by
  unfold addModule at hok
  obtain ⟨hname, hok⟩ := guard_eq_ok.1 hok
  obtain ⟨hfresh, hok⟩ := guard_eq_ok.1 hok
  obtain ⟨_, hfree, hok⟩ := bind_eq_ok.1 hok
  refine ⟨by simpa using hname, by simpa [OrderedMap.contains] using hfresh,
    expectFree_eq_ok.1 hfree, ?_⟩
  cases resource with
  | true => exact Or.inl ⟨rfl, Except.ok.inj hok⟩
  | false =>
    simp only [Bool.false_eq_true, if_false] at hok
    obtain ⟨hfreshInst, hok⟩ := guard_eq_ok.1 hok
    obtain ⟨_, hfreeInst, hok⟩ := bind_eq_ok.1 hok
    exact Or.inr ⟨rfl, by simpa [OrderedMap.contains] using hfreshInst,
      expectFree_eq_ok.1 hfreeInst, Except.ok.inj hok⟩

/-! ## Placements

A demand is refused for reasons of its own, and a cycle is not among them.  So where the check for a
cycle decides, all demands before it were met. -/

/-- The result is not the refusal of a cycle. -/
def AvoidsCycle {α : Type} (x : Except StoreError α) : Prop :=
  ∀ inst parent, x ≠ .error (.wouldCreateCycle inst parent)

theorem Looks.avoidsCycle {α : Type} {x : Except StoreError α} (hx : Looks x) :
    AvoidsCycle x := by
  intro inst parent h
  cases hx _ h

theorem avoidsCycle_expectFree (s : Store) (id : String) : AvoidsCycle (s.expectFree id) := by
  intro inst parent
  unfold expectFree
  split <;> simp

/-- A result that the last check of a placement decides: a success, or the refusal of a cycle. -/
def IsVerdict (r : Except StoreError (Store × Handle)) : Prop :=
  ∀ e, r = .error e → ∃ inst parent, e = .wouldCreateCycle inst parent

namespace IsVerdict

variable {r : Except StoreError (Store × Handle)} (hr : IsVerdict r)

include hr

theorem ne {e : StoreError} (he : ∀ inst parent, e ≠ .wouldCreateCycle inst parent) :
    r ≠ .error e := by
  intro heq
  obtain ⟨inst, parent, rfl⟩ := hr e heq
  exact he inst parent rfl

/-- A step before the check does not decide. -/
theorem bind_eq_iff {α : Type} {x : Except StoreError α}
    {f : α → Except StoreError (Store × Handle)} (hx : AvoidsCycle x) :
    (x >>= f) = r ↔ ∃ a, x = .ok a ∧ f a = r := by
  refine Interconnect.bind_eq_iff fun e he heq => ?_
  obtain ⟨inst, parent, rfl⟩ := hr e he
  exact hx inst parent heq

end IsVerdict

theorem IsVerdict.ok (placed : Store × Handle) : IsVerdict (.ok placed) := by
  intro e h
  cases h

theorem IsVerdict.cycle (inst parent : String) :
    IsVerdict (.error (.wouldCreateCycle inst parent)) := by
  intro e h
  cases h
  exact ⟨inst, parent, rfl⟩

theorem IsVerdict.check (cycle : Bool) (inst parent : String) (placed : Store × Handle) :
    IsVerdict (if cycle then .error (.wouldCreateCycle inst parent) else .ok placed) := by
  cases cycle with
  | true => exact .cycle inst parent
  | false => exact .ok placed

/-- What a placement would give is a new instance of a resource, under a free name, or the default
instance of a module that carries the name, if it has no place yet. -/
def Prepares (s : Store) (name : String) (module parent : Handle) (placed : Store × Handle) :
    Prop :=
  ∃ o m, s.object? module = some o ∧ o.body = .module m ∧
    ((m.resource = true ∧ s.instances.get? name = none ∧
        s.ids.get? (Kind.inst.objectId name) = none ∧
        s.createPlacement name module parent = placed) ∨
      (m.resource = false ∧ name = o.name ∧ ∃ inst, m.defaultInstance = some inst ∧
        (∃ d i, s.object? inst = some d ∧ d.body = .inst i ∧ i.parent = none) ∧
        (s.place inst parent, inst) = placed))

/-- A placement comes to the check for a cycle where the name is given, the container is a module
that is no resource, and there is something to place. -/
theorem addInstance_eq_iff {s : Store} {name : String} {module parent : Handle}
    {r : Except StoreError (Store × Handle)} (hr : IsVerdict r) :
    s.addInstance name module parent = r ↔
      name ≠ "" ∧ ∃ p c placed cycle, s.object? parent = some p ∧ p.body = .module c ∧
        c.resource = false ∧ s.Prepares name module parent placed ∧
        s.wouldCreateCycle module parent = .ok cycle ∧
        (if cycle then .error (.wouldCreateCycle name p.name) else .ok placed) = r := by
  constructor
  · intro h
    unfold addInstance at h
    obtain ⟨hname, h⟩ := (guard_eq_iff (hr.ne (by simp))).1 h
    obtain ⟨⟨o, m⟩, hmodule, h⟩ := (hr.bind_eq_iff (looks_expectModule s _).avoidsCycle).1 h
    obtain ⟨⟨p, c⟩, hparent, h⟩ := (hr.bind_eq_iff (looks_expectModule s _).avoidsCycle).1 h
    obtain ⟨hcontainer, h⟩ := (guard_eq_iff (hr.ne (by simp))).1 h
    obtain ⟨ho, hm⟩ := expectModule_eq_ok.1 hmodule
    obtain ⟨hp, hc⟩ := expectModule_eq_ok.1 hparent
    have hordinary : c.resource = false := by simpa using hcontainer
    refine ⟨by simpa using hname, ?_⟩
    cases hres : m.resource with
    | true =>
      simp only [hres, if_true] at h
      obtain ⟨hfresh, h⟩ := (guard_eq_iff (hr.ne (by simp))).1 h
      obtain ⟨_, hfree, h⟩ := (hr.bind_eq_iff (avoidsCycle_expectFree s _)).1 h
      obtain ⟨cycle, hcycle, h⟩ := (hr.bind_eq_iff (looks_wouldCreateCycle s _ _).avoidsCycle).1 h
      have hnone : s.instances.get? name = none := by simpa [OrderedMap.contains] using hfresh
      exact ⟨p, c, _, cycle, hp, hc, hordinary,
        ⟨o, m, ho, hm, Or.inl ⟨hres, hnone, expectFree_eq_ok.1 hfree, rfl⟩⟩, hcycle, h⟩
    | false =>
      simp only [hres, Bool.false_eq_true, if_false] at h
      obtain ⟨hsame, h⟩ := (guard_eq_iff (hr.ne (by simp))).1 h
      split at h
      · rename_i inst hinst
        obtain ⟨⟨d, i⟩, hdefault, h⟩ := (hr.bind_eq_iff (looks_expectInstance s _).avoidsCycle).1 h
        obtain ⟨hd, hi⟩ := expectInstance_eq_ok.1 hdefault
        split at h
        · exact absurd h.symm (hr.ne (by simp))
        · rename_i hnone
          obtain ⟨cycle, hcycle, h⟩ :=
            (hr.bind_eq_iff (looks_wouldCreateCycle s _ _).avoidsCycle).1 h
          exact ⟨p, c, _, cycle, hp, hc, hordinary, ⟨o, m, ho, hm, Or.inr ⟨hres,
            Decidable.not_not.1 hsame, inst, hinst,
            ⟨d, i, hd, hi, Option.eq_none_iff_forall_ne_some.2 hnone⟩, rfl⟩⟩, hcycle, h⟩
      · exact absurd h.symm (hr.ne (by simp))
  · rintro ⟨hname, p, c, placed, cycle, hp, hc, hcontainer, ⟨o, m, ho, hm, hplaced⟩, hcycle, h⟩
    unfold addInstance
    rw [if_neg (by simpa using hname), expectModule_eq_ok.2 ⟨ho, hm⟩,
      expectModule_eq_ok.2 ⟨hp, hc⟩, hcycle]
    dsimp only [bind, Except.bind]
    rw [if_neg (by simp [hcontainer])]
    rcases hplaced with ⟨hres, hfresh, hfree, rfl⟩ | ⟨hres, hsame, inst, hinst, hdefault, rfl⟩
    · have hunused : s.expectFree (Kind.inst.objectId name) = .ok () := expectFree_eq_ok.2 hfree
      rw [if_pos hres, if_neg (by simp [OrderedMap.contains, hfresh]), hunused]
      cases cycle <;> exact h
    · obtain ⟨d, i, hd, hi, hnone⟩ := hdefault
      rw [if_neg (by simp [hres]), if_neg (not_not_intro hsame), hinst]
      dsimp only
      rw [expectInstance_eq_ok.2 ⟨hd, hi⟩]
      dsimp only
      rw [hnone]
      cases cycle <;> exact h

/-- A module that is a resource and one that is none have different handles. -/
theorem ne_of_resource {s : Store} {module parent : Handle} {o p : Object} {m c : Module}
    (ho : s.object? module = some o) (hm : o.body = .module m)
    (hp : s.object? parent = some p) (hc : p.body = .module c)
    (hres : m.resource = true) (hcontainer : c.resource = false) : module ≠ parent := by
  rintro rfl
  rw [ho] at hp
  cases hp
  rw [hm] at hc
  cases hc
  rw [hres] at hcontainer
  cases hcontainer

/-- A placement has a module that is no resource as its container and makes no cycle.  It is
a new instance of a resource, or the default instance of a module that was not placed yet. -/
theorem addInstance_cases {s s' : Store} {name : String} {module parent h : Handle}
    (hok : s.addInstance name module parent = .ok (s', h)) :
    name ≠ "" ∧ ∃ o m p c, s.object? module = some o ∧ o.body = .module m ∧
      s.object? parent = some p ∧ p.body = .module c ∧ c.resource = false ∧
      s.wouldCreateCycle module parent = .ok false ∧
      ((m.resource = true ∧ s.instances.get? name = none ∧
          s.ids.get? (Kind.inst.objectId name) = none ∧
          s.createPlacement name module parent = (s', h)) ∨
        (m.resource = false ∧ name = o.name ∧ m.defaultInstance = some h ∧
          (∃ d i, s.object? h = some d ∧ d.body = .inst i ∧ i.parent = none) ∧
          s.place h parent = s')) := by
  obtain ⟨hname, p, c, placed, cycle, hp, hc, hcontainer, ⟨o, m, ho, hm, hplaced⟩, hcycle, heq⟩ :=
    (addInstance_eq_iff (.ok _)).1 hok
  refine ⟨hname, o, m, p, c, ho, hm, hp, hc, hcontainer, ?_⟩
  cases cycle with
  | true => cases heq
  | false =>
    rw [Except.ok.inj heq] at hplaced
    refine ⟨hcycle, hplaced.imp id ?_⟩
    rintro ⟨hres, hsame, inst, hinst, hdefault, hboth⟩
    obtain ⟨hstore, rfl⟩ := Prod.mk.inj hboth
    exact ⟨hres, hsame, hinst, hdefault, hstore⟩

/-! ## Nets and attributes -/

theorem expectJoinable_eq_ok {s : Store} {h : Handle} {u : Unit} :
    s.expectJoinable h = .ok u ↔ ∃ o owner p, s.object? h = some o ∧
      o.body = .part owner p ∧ p.joinsNets = true ∧ p.net? = none := by
  unfold expectJoinable
  rw [bind_eq_ok]
  simp only [expectObject_eq_ok]
  constructor
  · rintro ⟨o, ho, hok⟩
    split at hok
    · rename_i owner p hbody
      obtain ⟨hjoins, hok⟩ := guard_eq_ok.1 hok
      split at hok
      · cases hok
      · rename_i hnet
        exact ⟨o, owner, p, ho, hbody, by simpa using hjoins, hnet⟩
    · cases hok
  · rintro ⟨o, owner, p, ho, hbody, hjoins, hnet⟩
    refine ⟨o, ho, ?_⟩
    simp [hbody, hjoins, hnet, pure, Except.pure]

/-- A check of every member succeeds only if each member passes. -/
theorem forM_eq_ok {ε α : Type} {f : α → Except ε Unit} {xs : List α} {u : Unit} :
    xs.forM f = .ok u ↔ ∀ x ∈ xs, f x = .ok () := by
  induction xs with
  | nil => simp [List.forM, pure, Except.pure]
  | cons x xs ih =>
    show (f x >>= fun _ => xs.forM f) = _ ↔ _
    rw [bind_eq_ok]
    constructor
    · rintro ⟨_, hx, hxs⟩ y hy
      rcases List.mem_cons.1 hy with rfl | hy
      · exact hx
      · exact ih.1 hxs y hy
    · intro hall
      exact ⟨(), hall x List.mem_cons_self, ih.2 fun y hy => hall y (List.mem_cons_of_mem x hy)⟩

/-- A net that was added has a new name, and its members were in no net. -/
theorem addNet_cases {s s' : Store} {name : String} {members : List Handle} {h : Handle}
    (hok : s.addNet name members = .ok (s', h)) :
    name ≠ "" ∧ s.nets.get? name = none ∧ s.ids.get? (Kind.net.objectId name) = none ∧
      (∀ c ∈ distinct members, ∃ o owner p, s.object? c = some o ∧ o.body = .part owner p ∧
        p.joinsNets = true ∧ p.net? = none) ∧
      h = s.size ∧
      s' = (distinct members).foldl (enlist s.size name (Kind.net.objectId name))
        (s.create name name (.net (distinct members)) []).1 := by
  unfold addNet at hok
  obtain ⟨hname, hok⟩ := guard_eq_ok.1 hok
  obtain ⟨hfresh, hok⟩ := guard_eq_ok.1 hok
  obtain ⟨_, hfree, hok⟩ := bind_eq_ok.1 hok
  obtain ⟨_, hjoin, hok⟩ := bind_eq_ok.1 hok
  obtain ⟨hstore, hhandle⟩ := Prod.mk.inj (Except.ok.inj hok)
  refine ⟨by simpa using hname, by simpa [OrderedMap.contains] using hfresh,
    expectFree_eq_ok.1 hfree, ?_, hhandle.symm, hstore.symm⟩
  intro c hc
  exact expectJoinable_eq_ok.1 (forM_eq_ok.1 hjoin c hc)

theorem name_joinNet (net : Handle) (o : Object) : (joinNet net o).name = o.name := by
  unfold joinNet
  split <;> rfl

/-- The object that joins is changed by it alone, and the others stay as they are. -/
theorem exists_enlisted {s : Store} {c : Handle} {x : Object} (hx : s.object? c = some x)
    (net : Handle) (name id : String) (h : Handle) :
    ∃ y, (enlist net name id s h).object? c = some y ∧ y.name = x.name ∧
      y.body = if c = h then (joinNet net x).body else x.body := by
  unfold enlist
  by_cases hh : h = c
  · subst hh
    refine ⟨joinNet net (((x.write "signal" { value := name, constant := true }).write "net"
      { value := name, constant := true }).write "netid" { value := id, constant := true }),
      ?_, name_joinNet net _, ?_⟩
    · rw [object?_modify, if_pos rfl, object?_stamp, if_pos rfl, object?_stamp, if_pos rfl,
        object?_stamp, if_pos rfl, hx]
      rfl
    · rw [if_pos rfl]
      obtain ⟨handle, given, name', attributes, body⟩ := x
      cases body <;> rfl
  · refine ⟨x, ?_, rfl, ?_⟩
    · rw [object?_modify, if_neg hh, object?_stamp, if_neg hh, object?_stamp, if_neg hh,
        object?_stamp, if_neg hh, hx]
    · rw [if_neg (Ne.symm hh)]

/-- An attribute that was written was not constant. -/
theorem setAttribute_cases {s s' : Store} {h : Handle} {name value : String}
    {constant : Bool} (hok : s.setAttribute h name value constant = .ok s') :
    name ≠ "" ∧ ∃ o, s.object? h = some o ∧
      (∀ a, o.attributes.get? name = some a → a.constant = false) ∧
      s' = s.write h name { value, constant } := by
  unfold setAttribute at hok
  obtain ⟨hname, hok⟩ := guard_eq_ok.1 hok
  obtain ⟨o, ho, hok⟩ := bind_eq_ok.1 hok
  obtain ⟨hconst, hok⟩ := guard_eq_ok.1 hok
  refine ⟨by simpa using hname, o, expectObject_eq_ok.1 ho, ?_, (Except.ok.inj hok).symm⟩
  intro a ha
  simpa [ha] using hconst

end Store

end Interconnect
