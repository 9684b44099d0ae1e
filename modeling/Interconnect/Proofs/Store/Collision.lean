import Interconnect.Proofs.Store.Representation
import Interconnect.Proofs.Store.Scoping

/-!
# Taken ids

A part is refused if its id is taken.  Ids are compared in one index for the whole store, and an id
is taken if some part of the kind has a scope that reads the same (`Reachable.taken_iff`).  If no
module and no instance has a dot in its name, the scope leads back to the owner, and the part is
refused exactly if its owner lists one of its kind and name (`collides_iff_lists`).  The scope of an
entry or of a register does not lead back to the owner: register files in different modules may
have one name, and so may entries of different files.  There the part is refused exactly if some
namesake of the owner lists one of its name (`collides_iff_namesake_lists`).

Modules, instances and nets are looked up by their names first, and so their ids are never taken.
-/

namespace Interconnect

/-- A part that a module or an instance can be given under a name. -/
inductive Addition where
  | port (direction : PortDirection)
  | pin (connection : String) (inverted : Bool)
  | parameter (value : String) (isLocal : Bool)
  | adjustment (value : String)
  | declaration (defaultType : Bool) (assigned : Option String)
  | code (text : String)
  | regfile

namespace Addition

/-- The part as it is created. -/
def part : Addition → Part
  | port direction => .port direction none
  | pin connection inverted => .pin connection inverted none
  | parameter value isLocal => .parameter value isLocal
  | adjustment value => .adjustment value
  | declaration defaultType assigned => .declaration defaultType assigned none
  | code text => .code text
  | regfile => .regfile []

/-- The operation that gives it to an owner. -/
def run (a : Addition) (s : Store) (owner : Handle) (name : String) :
    Except StoreError (Store × Handle) :=
  match a with
  | port direction => s.addPort owner name direction
  | pin connection inverted => s.addPin owner name connection inverted
  | parameter value isLocal => s.addParameter owner name value isLocal
  | adjustment value => s.addAdjustment owner name value
  | declaration defaultType assigned => s.addDeclaration owner name defaultType assigned
  | code text => s.addCode owner (some name) text
  | regfile => s.addRegfile owner name

theorem ownerKind_part (a : Addition) : a.part.ownerKind = .module ∨ a.part.ownerKind = .inst := by
  cases a <;> simp [part, Part.ownerKind]

end Addition

namespace Store

/-- The operation is refused because an id is taken. -/
def Collides {α : Type} (x : Except StoreError α) : Prop :=
  ∃ id, x = .error (.idExists id)

/-- The object lists a part of the kind under the name. -/
def Lists (s : Store) (k : Kind) (owner : Handle) (name : String) : Prop :=
  ∃ c ∈ s.links (.part k) owner, s.name? c = some name

instance (s : Store) (k : Kind) (owner : Handle) (name : String) :
    Decidable (s.Lists k owner name) :=
  inferInstanceAs (Decidable (∃ c ∈ s.links (.part k) owner, s.name? c = some name))

variable {s : Store}

/-! ## Parts -/

/-- What lists a part is of the kind that owns such parts. -/
theorem Lists.ownerKind {p : Part} {owner : Handle} {name : String}
    (h : s.Lists p.kind owner name) {o : Object} (ho : s.object? owner = some o) :
    o.kind = p.ownerKind := by
  obtain ⟨c, hc, -⟩ := h
  rw [links_of_object? ho] at hc
  exact Object.kind_of_mem_listed hc

/-- With its owner looked up, a code section is added like any part. -/
theorem addCode_eq_attach {module : Handle} {o : Object} {text : String}
    (ho : s.expectOwner module (.code text) = .ok o) (name : Option String) :
    s.addCode module name text = s.attach module (name.getD (codeName o)) (.code text) := by
  unfold addCode
  rw [ho]
  rfl

/-- A part with a name and an owner is refused only if its id is taken. -/
theorem collides_attach_iff_taken {owner : Handle} {o : Object} {name : String} {p : Part}
    (ho : s.expectOwner owner p = .ok o) (hname : name ≠ "") :
    Collides (s.attach owner name p) ↔ s.ids.get? (partId p o.name name) ≠ none := by
  rw [attach_eq ho hname]
  split
  · rename_i hfree
    refine ⟨fun hcollides => ?_, fun htaken => absurd hfree htaken⟩
    obtain ⟨id, hid⟩ := hcollides
    cases hid
  · rename_i htaken
    exact ⟨fun _ => htaken, fun _ => ⟨_, rfl⟩⟩

section Reachable

variable (hs : s.Reachable)

include hs

/-- The id of a part is taken exactly if some part of the kind has a scope that reads the same. -/
theorem Reachable.taken_iff (p : Part) (ownerName name : String) :
    s.ids.get? (partId p ownerName name) ≠ none ↔
      ∃ owner o name', s.object? owner = some o ∧ s.Lists p.kind owner name' ∧
        o.name ++ "." ++ name' = ownerName ++ "." ++ name := by
  have hcoherent := hs.coherent
  constructor
  · intro htaken
    obtain ⟨c, hc⟩ := Option.ne_none_iff_exists'.1 htaken
    obtain ⟨v, hv, -, hid⟩ := hcoherent.ids.get?_eq_some_iff.1 hc
    -- An object with such an id is a part of the kind.
    obtain ⟨scope, hscope, -⟩ := hs.identified c v hv
    have hkind : v.kind = p.kind := (Kind.objectId_inj (hscope.symm.trans hid)).1
    obtain ⟨x, hx, rfl⟩ := label?_eq_some_iff.1 hv
    obtain ⟨owner, ht⟩ := Object.exists_target_of_kind hkind
    have htarget : s.target (.part p.kind) c = some owner := target_eq_some_iff.2 ⟨x, hx, ht⟩
    obtain ⟨o, ho, -⟩ := hcoherent.listed hx ht
    obtain ⟨n, w, hn, hw, hown⟩ := hs.scoped c owner p.kind htarget
    rw [hv] at hw
    cases hw
    rw [name?_of_object? ho] at hn
    cases hn
    refine ⟨owner, o, x.name, ho, ⟨c, ?_, name?_of_object? hx⟩, ?_⟩
    · exact (hcoherent.linked _).mem_links.2 htarget
    · exact (Kind.objectId_inj (hown.symm.trans hid)).2
  · rintro ⟨owner, o, name', ho, ⟨c, hc, hname⟩, hscope⟩ hnone
    obtain ⟨n, v, hn, hv, hid⟩ := hs.scoped c owner _ ((hcoherent.linked _).mem_links.1 hc)
    rw [name?_of_object? ho] at hn
    cases hn
    rw [name?, hv] at hname
    cases hname
    have hget : s.ids.get? v.id = some c :=
      hcoherent.ids.get?_eq_some_iff.2 ⟨v, hv, trivial, rfl⟩
    rw [hid, hscope] at hget
    rw [partId, hget] at hnone
    cases hnone

/-- Where such owners have no dots in their names, a part is refused exactly if an owner of that
name lists one of its name. -/
theorem Reachable.collides_attach_iff {owner : Handle} {o : Object} {name : String} {p : Part}
    (ho : s.expectOwner owner p = .ok o) (hname : name ≠ "")
    (hplain : ∀ h o, s.object? h = some o → o.kind = p.ownerKind → '.' ∉ o.name.toList) :
    Collides (s.attach owner name p) ↔
      ∃ owner' o', s.object? owner' = some o' ∧ o'.kind = p.ownerKind ∧ o'.name = o.name ∧
        s.Lists p.kind owner' name := by
  obtain ⟨hobject, hkind, -⟩ := expectOwner_eq_ok.1 ho
  rw [collides_attach_iff_taken ho hname, hs.taken_iff]
  constructor
  · rintro ⟨owner', o', name', ho', hlists, hscope⟩
    have hkind' := hlists.ownerKind ho'
    obtain ⟨hsame, rfl⟩ :=
      scope_inj (hplain owner' o' ho' hkind') (hplain owner o hobject hkind) hscope
    exact ⟨owner', o', ho', hkind', hsame, hlists⟩
  · rintro ⟨owner', o', ho', -, hsame, hlists⟩
    exact ⟨owner', o', name, ho', hlists, by rw [hsame]⟩

end Reachable

/-! ## Modules, instances and nets -/

/-- A lookup is refused for other reasons. -/
theorem Looks.not_collides {α : Type} {x : Except StoreError α} (hx : Looks x) : ¬ Collides x := by
  rintro ⟨id, hid⟩
  cases hx _ hid

/-- A sequence collides only if its second step does, if the first does not. -/
theorem Collides.of_bind {α β : Type} {x : Except StoreError α} {f : α → Except StoreError β}
    (h : Collides (x >>= f)) (hx : ¬ Collides x) : ∃ a, x = .ok a ∧ Collides (f a) := by
  obtain ⟨id, hid⟩ := h
  have hne : ∀ e, (.error (.idExists id) : Except StoreError β) = .error e → x ≠ .error e := by
    rintro e heq hxe
    cases heq
    exact hx ⟨id, hxe⟩
  obtain ⟨a, ha, hf⟩ := (bind_eq_iff hne).1 hid
  exact ⟨a, ha, id, hf⟩

/-- A guard that tells of something else does not collide. -/
theorem Collides.of_guard {α : Type} {c : Prop} [Decidable c] {e : StoreError}
    {k : Unit → Except StoreError α} (h : Collides (if c then throw e >>= k else k ()))
    (he : ∀ id, e ≠ .idExists id) : ¬ c ∧ Collides (k ()) := by
  obtain ⟨id, hid⟩ := h
  obtain ⟨hc, hk⟩ := (guard_eq_iff fun heq => he id (Except.error.inj heq).symm).1 hid
  exact ⟨hc, id, hk⟩

theorem not_collides_expectFree {id : String} (hfree : s.ids.get? id = none) :
    ¬ Collides (s.expectFree id) := by
  rw [expectFree_eq_ok (u := ()).2 hfree]
  rintro ⟨_, h⟩
  cases h

/-- Nothing but its id keeps an object out of a net for that reason. -/
theorem not_collides_expectJoinable (h : Handle) : ¬ Collides (s.expectJoinable h) := by
  intro hcollides
  obtain ⟨o, -, hrest⟩ := hcollides.of_bind (looks_expectObject s h).not_collides
  split at hrest
  · obtain ⟨-, id, hid⟩ := hrest.of_guard (by simp)
    split at hid <;> cases hid
  · obtain ⟨id, hid⟩ := hrest
    cases hid

theorem not_collides_forM {members : List Handle} : ¬ Collides (members.forM s.expectJoinable) := by
  induction members with
  | nil =>
    rintro ⟨id, h⟩
    cases h
  | cons c rest ih =>
    intro hcollides
    obtain ⟨_, -, hrest⟩ := Collides.of_bind hcollides (not_collides_expectJoinable c)
    exact ih hrest

section Reachable

variable (hs : s.Reachable)

include hs

/-- The id of a module is free if its name is. -/
theorem Reachable.not_collides_addModule (name : String) (ilm resource : Bool) :
    ¬ Collides (s.addModule name ilm resource) := by
  intro h
  have hcoherent := hs.coherent
  unfold addModule at h
  obtain ⟨-, h⟩ := h.of_guard (by simp)
  obtain ⟨hfresh, h⟩ := h.of_guard (by simp)
  have hfree := hs.identified.free hcoherent.toIndexed (k := .module) (.inl rfl) hcoherent.modules
    (by simpa [OrderedMap.contains] using hfresh)
  obtain ⟨-, -, h⟩ := h.of_bind (not_collides_expectFree hfree)
  split at h
  · obtain ⟨id, hid⟩ := h
    cases hid
  · obtain ⟨hfresh, h⟩ := h.of_guard (by simp)
    have hfree := hs.identified.free hcoherent.toIndexed (k := .inst) (.inr (.inl rfl))
      hcoherent.instances (by simpa [OrderedMap.contains] using hfresh)
    obtain ⟨-, -, id, hid⟩ := h.of_bind (not_collides_expectFree hfree)
    cases hid

/-- The id of an instance is free if its name is. -/
theorem Reachable.not_collides_addInstance (name : String) (module parent : Handle) :
    ¬ Collides (s.addInstance name module parent) := by
  intro h
  have hcoherent := hs.coherent
  unfold addInstance at h
  obtain ⟨-, h⟩ := h.of_guard (by simp)
  obtain ⟨⟨o, m⟩, -, h⟩ := h.of_bind (looks_expectModule s module).not_collides
  obtain ⟨⟨p, c⟩, -, h⟩ := h.of_bind (looks_expectModule s parent).not_collides
  obtain ⟨-, h⟩ := h.of_guard (by simp)
  split at h
  · obtain ⟨hfresh, h⟩ := h.of_guard (by simp)
    have hfree := hs.identified.free hcoherent.toIndexed (k := .inst) (.inr (.inl rfl))
      hcoherent.instances (by simpa [OrderedMap.contains] using hfresh)
    obtain ⟨-, -, h⟩ := h.of_bind (not_collides_expectFree hfree)
    obtain ⟨cycle, -, h⟩ := h.of_bind (looks_wouldCreateCycle s module parent).not_collides
    obtain ⟨-, id, hid⟩ := h.of_guard (by simp)
    cases hid
  · obtain ⟨-, h⟩ := h.of_guard (by simp)
    split at h
    · obtain ⟨⟨d, i⟩, -, h⟩ := h.of_bind (looks_expectInstance s _).not_collides
      dsimp only at h
      split at h
      · obtain ⟨id, hid⟩ := h
        cases hid
      · obtain ⟨cycle, -, h⟩ := h.of_bind (looks_wouldCreateCycle s module parent).not_collides
        obtain ⟨-, id, hid⟩ := h.of_guard (by simp)
        cases hid
    · obtain ⟨id, hid⟩ := h
      cases hid

/-- The id of a net is free if its name is. -/
theorem Reachable.not_collides_addNet (name : String) (members : List Handle) :
    ¬ Collides (s.addNet name members) := by
  intro h
  have hcoherent := hs.coherent
  unfold addNet at h
  obtain ⟨-, h⟩ := h.of_guard (by simp)
  obtain ⟨hfresh, h⟩ := h.of_guard (by simp)
  have hfree := hs.identified.free hcoherent.toIndexed (k := .net) (.inr (.inr rfl))
    hcoherent.nets (by simpa [OrderedMap.contains] using hfresh)
  obtain ⟨-, -, h⟩ := h.of_bind (not_collides_expectFree hfree)
  obtain ⟨-, -, id, hid⟩ := h.of_bind not_collides_forM
  cases hid

end Reachable

/-! ## Whose parts collide -/

/-- If no module and no instance has a dot in its name, a part for one of them is refused because of
its id exactly if that owner lists a part of the kind under the name.  Whatever the names, modules,
instances and nets are never refused because of their ids. -/
theorem collides_iff_lists {s : Store} (hs : s.Reachable) :
    ((∀ h o, s.object? h = some o → o.kind = .module ∨ o.kind = .inst → '.' ∉ o.name.toList) →
      ∀ (a : Addition) (owner : Handle) (o : Object) (name : String),
        s.expectOwner owner a.part = .ok o → name ≠ "" →
          (Collides (a.run s owner name) ↔ s.Lists a.part.kind owner name)) ∧
      (∀ name ilm resource, ¬ Collides (s.addModule name ilm resource)) ∧
      (∀ name module parent, ¬ Collides (s.addInstance name module parent)) ∧
      ∀ name members, ¬ Collides (s.addNet name members) := by
  refine ⟨fun hplain a owner o name ho hname => ?_, hs.not_collides_addModule,
    hs.not_collides_addInstance, hs.not_collides_addNet⟩
  obtain ⟨hobject, hkind, -⟩ := expectOwner_eq_ok.1 ho
  have howner : o.kind = .module ∨ o.kind = .inst := by
    rw [hkind]
    exact a.ownerKind_part
  have hrun : a.run s owner name = s.attach owner name a.part := by
    cases a with
    | code text => exact addCode_eq_attach ho (some name)
    | _ => rfl
  rw [hrun, hs.collides_attach_iff ho hname fun h o' ho' hk =>
    hplain h o' ho' (by rw [hk]; exact a.ownerKind_part)]
  constructor
  · rintro ⟨owner', o', ho', hkind', hsame, hlists⟩
    -- There is one module of a name, and one instance.
    have heq : owner = owner' :=
      hs.coherent.eq_of_name_eq hobject ho' howner (hkind.trans hkind'.symm) hsame.symm
    rwa [heq]
  · intro hlists
    exact ⟨owner, o, hobject, hkind, rfl, hlists⟩

/-- The port of the leaf is there already. -/
theorem collides_nested :
    nested.Reachable ∧
      (∀ h o, nested.object? h = some o → o.kind = .module ∨ o.kind = .inst →
        '.' ∉ o.name.toList) ∧
      (∃ o, nested.expectOwner 2 (Addition.port .output).part = .ok o) ∧ "clk" ≠ "" ∧
      nested.Lists .port 2 "clk" ∧ Collides (nested.addPort 2 "clk" .output) := by
  have hall : ∀ entry ∈ nested.objects.toList, '.' ∉ entry.2.name.toList := by decide
  have hplain : ∀ h o, nested.object? h = some o → o.kind = .module ∨ o.kind = .inst →
      '.' ∉ o.name.toList := fun _ _ ho _ => hall _ (Arena.mem_toList.2 ho)
  have hreachable : nested.Reachable := reachable_execAll _
  have hlists : nested.Lists .port 2 "clk" := by decide
  refine ⟨hreachable, hplain, ⟨_, rfl⟩, by decide, hlists, ?_⟩
  exact ((collides_iff_lists hreachable).1 hplain (.port .output) 2 _ "clk" rfl
    (by decide)).2 hlists

/-- If no name has a dot in it, an entry is refused because of its id exactly if some register file
that is called like its own lists an entry of its name, and a register exactly if some entry that is
called like its own lists a register of its name. -/
theorem collides_iff_namesake_lists {s : Store} (hs : s.Reachable)
    (hplain : ∀ h o, s.object? h = some o → '.' ∉ o.name.toList) :
    (∀ (regfile : Handle) (r : Object) (name : String), s.object? regfile = some r →
      r.kind = .regfile → name ≠ "" → (Collides (s.addEntry regfile name) ↔
        ∃ regfile' r', s.object? regfile' = some r' ∧ r'.kind = .regfile ∧ r'.name = r.name ∧
          s.Lists .entry regfile' name)) ∧
      ∀ (entry : Handle) (e : Object) (name : String), s.object? entry = some e →
        e.kind = .entry → name ≠ "" → (Collides (s.addRegister entry name) ↔
          ∃ entry' e', s.object? entry' = some e' ∧ e'.kind = .entry ∧ e'.name = e.name ∧
            s.Lists .register entry' name) := by
  constructor
  · intro regfile r name hr hk hname
    have howner : s.expectOwner regfile (.entry []) = .ok r :=
      expectOwner_eq_ok.2 ⟨hr, hk, nofun⟩
    exact hs.collides_attach_iff howner hname fun h o ho _ => hplain h o ho
  · intro entry e name he hk hname
    have howner : s.expectOwner entry .register = .ok e := expectOwner_eq_ok.2 ⟨he, hk, nofun⟩
    exact hs.collides_attach_iff howner hname fun h o ho _ => hplain h o ho

/-- Two modules with a register file of one name each; entries of one name in a file of the one and
in another file of the other; and a register of the first entry. -/
def namesakes : Store :=
  execAll
    [.addModule "left" false false, .addModule "right" false false, .addRegfile 0 "rf",
      .addRegfile 2 "rf", .addRegfile 2 "bank", .addEntry 4 "ctrl", .addEntry 6 "ctrl",
      .addRegister 7 "enable"]

theorem plain_namesakes : ∀ h o, namesakes.object? h = some o → '.' ∉ o.name.toList := by
  have hall : ∀ entry ∈ namesakes.objects.toList, '.' ∉ entry.2.name.toList := by decide
  exact fun _ _ ho => hall _ (Arena.mem_toList.2 ho)

/-- The file on the right gets no entry of a name that the file on the left has used, and the entry
on the right no register of a name that its namesake on the left has used. -/
theorem collides_namesakes :
    namesakes.Reachable ∧ (∀ h o, namesakes.object? h = some o → '.' ∉ o.name.toList) ∧
      (∃ r, namesakes.object? 5 = some r ∧ r.kind = .regfile) ∧ "ctrl" ≠ "" ∧
      Collides (namesakes.addEntry 5 "ctrl") ∧
      (∃ e, namesakes.object? 8 = some e ∧ e.kind = .entry) ∧ "enable" ≠ "" ∧
      Collides (namesakes.addRegister 8 "enable") := by
  have hreachable : namesakes.Reachable := reachable_execAll _
  obtain ⟨hentry, hregister⟩ := collides_iff_namesake_lists hreachable plain_namesakes
  refine ⟨hreachable, plain_namesakes, ⟨_, rfl, rfl⟩, by decide, ?_, ⟨_, rfl, rfl⟩, by decide, ?_⟩
  · exact (hentry 5 _ "ctrl" rfl rfl (by decide)).2 ⟨4, _, rfl, rfl, rfl, by decide⟩
  · exact (hregister 8 _ "enable" rfl rfl (by decide)).2 ⟨7, _, rfl, rfl, rfl, by decide⟩

/-- So an entry may be refused because of its id although its register file has none of its name,
and a register although its entry has none. -/
theorem not_collides_only_if_lists :
    (¬ ∀ s : Store, s.Reachable → (∀ h o, s.object? h = some o → '.' ∉ o.name.toList) →
      ∀ (regfile : Handle) (r : Object) (name : String), s.object? regfile = some r →
        r.kind = .regfile → name ≠ "" → Collides (s.addEntry regfile name) →
        s.Lists .entry regfile name) ∧
      ¬ ∀ s : Store, s.Reachable → (∀ h o, s.object? h = some o → '.' ∉ o.name.toList) →
        ∀ (entry : Handle) (e : Object) (name : String), s.object? entry = some e →
          e.kind = .entry → name ≠ "" → Collides (s.addRegister entry name) →
          s.Lists .register entry name := by
  constructor
  · intro hall
    have hcollides : Collides (namesakes.addEntry 5 "ctrl") := ⟨"regfile-entry::rf.ctrl", rfl⟩
    have hlists : ¬ namesakes.Lists .entry 5 "ctrl" := by decide
    exact hlists (hall namesakes (reachable_execAll _) plain_namesakes 5 _ "ctrl" rfl rfl
      (by decide) hcollides)
  · intro hall
    have hcollides : Collides (namesakes.addRegister 8 "enable") :=
      ⟨"regfile-reg::ctrl.enable", rfl⟩
    have hlists : ¬ namesakes.Lists .register 8 "enable" := by decide
    exact hlists (hall namesakes (reachable_execAll _) plain_namesakes 8 _ "enable" rfl rfl
      (by decide) hcollides)

end Store

end Interconnect
