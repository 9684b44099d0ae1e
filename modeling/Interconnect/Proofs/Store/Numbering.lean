import Interconnect.Proofs.Store.Collision

/-!
# The names of code sections

A code section that is added without a name is called after the number of the sections before it.
Such a section keeps its place in the list of its module, and so its name tells its place.  Any
other section has a name that a command gave it.  This is an invariant of the runs of commands
(`numbered_execAll`).

A name that tells a place has no dot in it, and so no two sections with such names have scopes that
read the same.  Only a section with a given name can stand in the way of one without
(`addCode_unnamed`).
-/

namespace Interconnect

/-- The name of a section that is added after `n` others. -/
def sectionName (n : Nat) : String :=
  "_cs_" ++ toString n

theorem sectionName_inj {n n' : Nat} (h : sectionName n = sectionName n') : n = n' := by
  have hlist := congrArg String.toList h
  simp only [sectionName, String.toList_append] at hlist
  have hdigits : Nat.toDigits 10 n = Nat.toDigits 10 n' := by
    simpa [Nat.toString_eq_repr, Nat.toList_repr] using List.append_cancel_left hlist
  rw [← Nat.ofDigitChars_toDigits (b := 10) (n := n) (by decide) (by decide), hdigits,
    Nat.ofDigitChars_toDigits (by decide) (by decide)]

/-- Such a name has no dot in it. -/
theorem dot_notMem_sectionName (n : Nat) : '.' ∉ (sectionName n).toList := by
  intro h
  rw [sectionName, String.toList_append] at h
  rcases List.mem_append.1 h with h | h
  · revert h
    decide
  · rw [Nat.toString_eq_repr, Nat.toList_repr] at h
    have hdigit := Nat.isDigit_of_mem_toDigits (by decide) (by decide) h
    revert hdigit
    decide

theorem sectionName_ne_empty (n : Nat) : sectionName n ≠ "" := by
  intro h
  have hlist := congrArg String.toList h
  simp [sectionName] at hlist

namespace Store

variable {s s' : Store}

/-- The number of a section counts what its module lists. -/
theorem codeName_eq {module : Handle} {o : Object} (ho : s.object? module = some o)
    (hk : o.kind = .module) :
    codeName o = sectionName (s.links (.part .code) module).length := by
  obtain ⟨handle, id, name, attributes, body⟩ := o
  cases body with
  | module m =>
    rw [links_of_object? ho]
    rfl
  | part owner p => cases p <;> cases hk
  | _ => cases hk

/-! ## The lists of code sections -/

section Lists

theorem links_code_attach (hs : s.Coherent) {owner h : Handle} {name : String} {p : Part}
    (hnew : p.IsNew) (hp : p.kind ≠ .code) (hok : s.attach owner name p = .ok (s', h)) :
    s'.links (.part .code) = s.links (.part .code) := by
  obtain ⟨-, o, ho, hk, -, -, heq⟩ := attach_cases hok
  rw [← show (s.createPart o name p).1 = s' by rw [heq],
    links_createPart name (hs.handle_eq_of_object? ho) ho hk hnew, if_neg]
  simpa using Ne.symm hp

theorem links_code_addModule {name : String} {ilm resource : Bool} {h : Handle}
    (hok : s.addModule name ilm resource = .ok (s', h)) :
    s'.links (.part .code) = s.links (.part .code) := by
  obtain ⟨-, -, -, ⟨-, heq⟩ | ⟨-, -, -, heq⟩⟩ := addModule_cases hok
  · rw [← show (s.createResource name ilm).1 = s' by rw [heq]]
    exact links_create_of_nil rfl
  · rw [← show (s.createWithInstance name ilm).1 = s' by rw [heq], links_createWithInstance,
      if_neg nofun]

theorem links_code_addInstance {name : String} {module parent h : Handle}
    (hok : s.addInstance name module parent = .ok (s', h)) :
    s'.links (.part .code) = s.links (.part .code) := by
  obtain ⟨-, o, m, p, c, ho, hm, hp, hc, hcontainer, -, hcase⟩ := addInstance_cases hok
  rcases hcase with ⟨hres, -, -, heq⟩ | ⟨-, -, -, ⟨d, i, hd, hi, -⟩, rfl⟩
  · have hne := ne_of_resource ho hm hp hc hres hcontainer
    rw [← show (s.createPlacement name module parent).1 = s' by rw [heq],
      links_createPlacement name ho hm hp hc hne]
  · rw [links_place hd hi hp hc, if_neg nofun]

theorem links_code_addNet {name : String} {members : List Handle} {h : Handle}
    (hok : s.addNet name members = .ok (s', h)) :
    s'.links (.part .code) = s.links (.part .code) := by
  obtain ⟨-, -, -, -, -, rfl⟩ := addNet_cases hok
  rw [links_congr (outline?_enlistAll _ _ _ _ _)]
  exact links_create_of_nil rfl

theorem links_code_setAttribute {h : Handle} {name value : String} {constant : Bool}
    (hok : s.setAttribute h name value constant = .ok s') :
    s'.links (.part .code) = s.links (.part .code) := by
  obtain ⟨-, o, -, -, rfl⟩ := setAttribute_cases hok
  rw [links_congr (outline?_write _ _ _ _)]

/-- A new code section comes last in the list of its module. -/
theorem attach_code (hs : s.Coherent) {module h : Handle} {name text : String}
    (hok : s.attach module name (.code text) = .ok (s', h)) :
    s'.links (.part .code)
        = Function.update (s.links (.part .code)) module (s.links (.part .code) module ++ [h]) ∧
      s'.name? h = some name := by
  obtain ⟨-, o, ho, hk, -, -, heq⟩ := attach_cases hok
  have hstore : (s.createPart o name (.code text)).1 = s' := by rw [heq]
  have hh : s.size = h := congrArg Prod.snd heq
  have hhandle := hs.handle_eq_of_object? ho
  rw [← hstore, ← hh]
  constructor
  · exact (links_createPart name hhandle ho hk ⟨rfl, rfl⟩ _).trans (if_pos rfl)
  · rw [name?, label?_createPart name hhandle ho hk, label?_create_self]
    rfl

end Lists

/-! ## Numbers and given names -/

/-- Each code section has the name that tells its place, or one that its module was given. -/
def Numbered (given : Handle → String → Prop) (s : Store) : Prop :=
  ∀ module j c, (s.links (.part .code) module)[j]? = some c → ∃ name, s.name? c = some name ∧
    (name = sectionName j ∨ given module name)

namespace Numbered

variable {given given' : Handle → String → Prop}

theorem mono (hs : s.Numbered given)
    (hall : ∀ module name, given module name → given' module name) : s.Numbered given' := by
  intro module j c hc
  obtain ⟨name, hname, h⟩ := hs module j c hc
  exact ⟨name, hname, h.imp_right (hall module name)⟩

/-- A change that adds no code section leaves their names alone. -/
theorem change (hs : s.Numbered given) (hchange : Change s s')
    (hlinks : s'.links (.part .code) = s.links (.part .code)) : s'.Numbered given := by
  intro module j c hc
  rw [hlinks] at hc
  obtain ⟨name, hname, h⟩ := hs module j c hc
  exact ⟨name, (lasts_change hchange).name? hname, h⟩

/-- A new code section has the name that tells its place, or one that was given. -/
theorem addCode (hs : s.Numbered given) (hcoherent : s.Coherent) {module h : Handle}
    {name : Option String} {text : String} (hok : s.addCode module name text = .ok (s', h))
    (hgiven : ∀ n, name = some n → given module n) : s'.Numbered given := by
  obtain ⟨o, ho, hattach⟩ := addCode_cases hok
  obtain ⟨-, o', ho', hk, -⟩ := attach_cases hattach
  rw [ho] at ho'
  cases ho'
  have hlasts := lasts_change (.part ⟨rfl, rfl⟩ hattach)
  obtain ⟨hlinks, hname⟩ := attach_code hcoherent hattach
  have hold : ∀ module' j c, (s.links (.part .code) module')[j]? = some c →
      ∃ name, s'.name? c = some name ∧ (name = sectionName j ∨ given module' name) := by
    intro module' j c hc
    obtain ⟨n, hn, h⟩ := hs module' j c hc
    exact ⟨n, hlasts.name? hn, h⟩
  intro module' j c hc
  rw [hlinks] at hc
  by_cases hmodule : module' = module
  · subst hmodule
    rw [Function.update_self] at hc
    by_cases hj : j < (s.links (.part .code) module').length
    · rw [List.getElem?_append_left hj] at hc
      exact hold module' j c hc
    · -- Only the new section comes after all others.
      rw [List.getElem?_append_right (Nat.le_of_not_lt hj), List.getElem?_singleton] at hc
      obtain ⟨hzero, hnew⟩ := Option.ite_none_right_eq_some.1 hc
      cases hnew
      have hlast : j = (s.links (.part .code) module').length := by omega
      refine ⟨name.getD (codeName o), hname, ?_⟩
      cases name with
      | none => exact .inl (by rw [Option.getD_none, codeName_eq ho hk, hlast])
      | some n => exact .inr (hgiven n rfl)
  · rw [Function.update_of_ne hmodule] at hc
    exact hold module' j c hc

end Numbered

/-! ## Runs -/

/-- The store is coherent, and its code sections are named as they should be. -/
structure WellNumbered (given : Handle → String → Prop) (s : Store) : Prop where
  coherent : s.Coherent
  numbered : s.Numbered given

theorem wellNumbered_empty (given : Handle → String → Prop) : Store.empty.WellNumbered given :=
  ⟨coherent_empty, nofun⟩

namespace WellNumbered

variable {given : Handle → String → Prop}

theorem change (hs : s.WellNumbered given) (hchange : Change s s')
    (hlinks : s'.links (.part .code) = s.links (.part .code)) : s'.WellNumbered given :=
  ⟨hs.coherent.change hchange, hs.numbered.change hchange hlinks⟩

theorem attach (hs : s.WellNumbered given) {owner h : Handle} {name : String} {p : Part}
    (hok : s.attach owner name p = .ok (s', h)) (hnew : p.IsNew) (hp : p.kind ≠ .code) :
    s'.WellNumbered given :=
  hs.change (.part hnew hok) (links_code_attach hs.coherent hnew hp hok)

theorem addCode (hs : s.WellNumbered given) {module h : Handle} {name : Option String}
    {text : String} (hok : s.addCode module name text = .ok (s', h))
    (hgiven : ∀ n, name = some n → given module n) : s'.WellNumbered given := by
  obtain ⟨o, -, hattach⟩ := addCode_cases hok
  exact ⟨hs.coherent.change (.part ⟨rfl, rfl⟩ hattach),
    hs.numbered.addCode hs.coherent hok hgiven⟩

/-- Requests are made of operations that add no code section. -/
theorem kept (given : Handle → String → Prop) :
    Kept (fun p => p.IsNew ∧ p.kind ≠ .code) (WellNumbered given) where
  intern text hs := hs.change (.intern text) rfl
  part hp hok hs := hs.attach hok hp.1 hp.2
  net hok hs := hs.change (.net hok) (links_code_addNet hok)
  writing hok hs := hs.change (.writing hok) (links_code_setAttribute hok)

/-- A command keeps to this, if the name that it may give to a code section is among the given
ones. -/
theorem exec (hs : s.WellNumbered given) (c : Command)
    (hgiven : ∀ module name text, c = .addCode module (some name) text → given module name) :
    (s.exec c).store.WellNumbered given := by
  cases c with
  | addModule name ilm resource =>
    exact kept_creating hs fun _ _ hok => hs.change (.module hok) (links_code_addModule hok)
  | addInstance name module parent =>
    exact kept_creating hs fun _ _ hok => hs.change (.placement hok) (links_code_addInstance hok)
  | addPort | addPin | addParameter | addAdjustment | addDeclaration | addRegfile | addEntry
  | addRegister =>
    exact kept_creating hs fun _ _ hok => hs.attach hok ⟨rfl, rfl⟩ (by simp [Part.kind])
  | addCode module name text =>
    refine kept_creating hs fun _ _ hok => hs.addCode hok ?_
    rintro n rfl
    exact hgiven module n text rfl
  | addNet name members =>
    exact kept_creating hs fun _ _ hok => (kept given).net hok hs
  | setAttribute object name value constant =>
    simp only [Store.exec]
    split
    · rename_i s' hok
      exact (kept given).writing hok hs
    · exact hs
  | setAttributes object pairs =>
    have hpairs := (kept given).setAttributes hs object pairs
    simp only [Store.exec]
    split
    all_goals
      rename_i heq
      rw [heq] at hpairs
      exact hpairs
  | clear => exact wellNumbered_empty given
  | request r =>
    refine (kept given).run (fun t p hp => ⟨hp.isNew, ?_⟩) hs r
    cases hp <;> simp [Part.kind]

end WellNumbered

/-- A command gives its module a code section of this name. -/
def Gives (commands : List Command) (module : Handle) (name : String) : Prop :=
  ∃ text, .addCode module (some name) text ∈ commands

/-- After any commands, a code section has the name that tells its place, or one that a command gave
it. -/
theorem numbered_execAll (commands : List Command) :
    (execAll commands).Numbered (Gives commands) := by
  have hrun : (execAll commands).WellNumbered (Gives commands) := by
    induction commands using List.reverseRecOn with
    | nil => exact wellNumbered_empty _
    | append_singleton before c ih =>
      rw [execAll_concat]
      refine WellNumbered.exec ⟨ih.coherent, ih.numbered.mono ?_⟩ c ?_
      · rintro module name ⟨text, htext⟩
        exact ⟨text, List.mem_append_left [c] htext⟩
      · rintro module name text rfl
        exact ⟨text, List.mem_append_right before (List.mem_singleton_self _)⟩
  exact hrun.numbered

/-! ## Sections without a name -/

/-- A section that got its name from a command has the id that the next section of the module would
get. -/
def Forestalled (s : Store) (commands : List Command) (o : Object) : Prop :=
  ∃ module o' name, Gives commands module name ∧ s.object? module = some o' ∧
    s.Lists .code module name ∧ o'.name ++ "." ++ name = o.name ++ "." ++ codeName o

/-- A section whose id was free is the only one of its module that has its name. -/
theorem Reachable.only_section (hs : s.Reachable) {module h : Handle} {o : Object}
    {name text : String} (ho : s.object? module = some o)
    (hfree : s.ids.get? (partId (.code text) o.name name) = none)
    (hok : s.attach module name (.code text) = .ok (s', h)) :
    s'.name? h = some name ∧ h ∈ s'.links (.part .code) module ∧
      ∀ c ∈ s'.links (.part .code) module, s'.name? c = some name → c = h := by
  obtain ⟨hlinks, hname⟩ := attach_code hs.coherent hok
  rw [hlinks, Function.update_self]
  refine ⟨hname, List.mem_append_right _ (List.mem_singleton_self h), fun c hc hsame => ?_⟩
  rcases List.mem_append.1 hc with hold | hnew
  · -- A section of the name that was there before would have had the id.
    obtain ⟨x, hx, ht⟩ := target_eq_some_iff.1 ((hs.coherent.linked _).mem_links.1 hold)
    have hbefore := name?_of_object? hx
    rw [(lasts_change (.part ⟨rfl, rfl⟩ hok)).name? hbefore] at hsame
    rw [hsame] at hbefore
    exact absurd hfree ((hs.taken_iff (.code text) o.name name).2
      ⟨module, o, name, ho, ⟨c, hold, hbefore⟩, rfl⟩)
  · exact List.mem_singleton.1 hnew

/-- A section whose name tells its place stands in the way of no other. -/
theorem forestalled_of_taken (commands : List Command) {module : Handle} {o : Object}
    (ho : (execAll commands).object? module = some o) (hk : o.kind = .module)
    (htaken : ∃ owner o' name, (execAll commands).object? owner = some o' ∧
      (execAll commands).Lists .code owner name ∧
      o'.name ++ "." ++ name = o.name ++ "." ++ codeName o) :
    (execAll commands).Forestalled commands o := by
  obtain ⟨owner, o', name, ho', ⟨c, hc, hname⟩, hscope⟩ := htaken
  obtain ⟨j, hj⟩ := List.mem_iff_getElem?.1 hc
  obtain ⟨name', hname', hnumbered | hgiven⟩ := numbered_execAll commands owner j c hj
  · rw [hname] at hname'
    cases hname'
    -- The scopes end in the names of the sections, so modules and places are the same.
    rw [hnumbered, codeName_eq ho hk] at hscope
    obtain ⟨hsame, hplace⟩ :=
      scope_inj_right (dot_notMem_sectionName _) (dot_notMem_sectionName _) hscope
    have hk' : o'.kind = .module := Lists.ownerKind (p := .code "") ⟨c, hc, hname⟩ ho'
    have heq : owner = module := (reachable_execAll commands).coherent.eq_of_name_eq ho' ho
      (.inl hk') (hk'.trans hk.symm) hsame
    rw [heq, sectionName_inj hplace, List.getElem?_eq_none (Nat.le_refl _)] at hj
    cases hj
  · rw [hname] at hname'
    cases hname'
    exact ⟨owner, o', name, hgiven, ho', ⟨c, hc, hname⟩, hscope⟩

/-- Whatever commands came before, a code section can be added without a name to a module that is no
resource, and then no other section of the module has its name, unless a section that got its name
from a command has the id that it would get.  Then it is refused. -/
theorem addCode_unnamed (commands : List Command) {module : Handle} {o : Object} {m : Module}
    (ho : (execAll commands).object? module = some o) (hm : o.body = .module m)
    (hres : m.resource = false) (text : String) :
    (¬ (execAll commands).Forestalled commands o →
      ∃ s' c, (execAll commands).addCode module none text = .ok (s', c) ∧
        s'.name? c = some (codeName o) ∧ c ∈ s'.links (.part .code) module ∧
        ∀ c' ∈ s'.links (.part .code) module, s'.name? c' = some (codeName o) → c' = c) ∧
      ((execAll commands).Forestalled commands o →
        (execAll commands).addCode module none text
          = .error (.idExists (partId (.code text) o.name (codeName o)))) := by
  have hs := reachable_execAll commands
  have hk : o.kind = .module := Object.kind_of_module hm
  have hcode := codeName_eq ho hk
  have howner : (execAll commands).expectOwner module (.code text) = .ok o := by
    refine expectOwner_eq_ok.2 ⟨ho, hk, fun _ m' hm' => ?_⟩
    rw [hm] at hm'
    cases hm'
    exact hres
  have hname : codeName o ≠ "" := by
    rw [hcode]
    exact sectionName_ne_empty _
  have hattach := addCode_eq_attach howner none
  have hdecided := attach_eq howner hname
  have htaken := hs.taken_iff (.code text) o.name (codeName o)
  constructor
  · intro hforestalled
    have hfree : (execAll commands).ids.get? (partId (.code text) o.name (codeName o)) = none := by
      by_contra hne
      exact hforestalled (forestalled_of_taken commands ho hk (htaken.1 hne))
    rw [if_pos hfree] at hdecided
    exact ⟨_, _, hattach.trans hdecided, hs.only_section ho hfree hdecided⟩
  · rintro ⟨owner, o', name, -, ho', hlists, hscope⟩
    rw [if_neg (htaken.2 ⟨owner, o', name, ho', hlists, hscope⟩)] at hdecided
    exact hattach.trans hdecided

/-- A module whose first section has been given the name of the second. -/
def renumbered : List Command :=
  [.addModule "top" false false, .addCode 0 (some "_cs_1") "assign a = b;"]

/-- A second section without a name is added after one without, and refused after the one that took
its name. -/
theorem addCode_unnamed_renumbered :
    (∃ s' c, (execAll [.addModule "top" false false, .addCode 0 none ""]).addCode 0 none ""
        = .ok (s', c) ∧ s'.name? c = some "_cs_1") ∧
      (execAll renumbered).addCode 0 none "" = .error (.idExists "codesection::top._cs_1") := by
  constructor
  · have htop : (execAll [.addModule "top" false false, .addCode 0 none ""]).object? 0
        = some _ := rfl
    obtain ⟨hadded, -⟩ := addCode_unnamed _ htop rfl rfl ""
    obtain ⟨s', c, hok, hname, -⟩ := hadded fun ⟨_, _, _, ⟨_, hgiven⟩, _⟩ => by simp at hgiven
    exact ⟨s', c, hok, hname⟩
  · have htop : (execAll renumbered).object? 0 = some _ := rfl
    obtain ⟨-, hrefused⟩ := addCode_unnamed renumbered htop rfl rfl ""
    exact hrefused ⟨0, _, "_cs_1", ⟨_, List.mem_cons_of_mem _ List.mem_cons_self⟩, rfl, by decide,
      rfl⟩

/-- So there may be no way to add a section without a name. -/
theorem not_addCode_unnamed :
    ¬ ∀ s : Store, s.Reachable → ∀ (module : Handle) (o : Object) (m : Module),
      s.object? module = some o → o.body = .module m → m.resource = false → ∀ text,
      ∃ s' c name, s.addCode module none text = .ok (s', c) ∧ s'.name? c = some name ∧
        ∀ c' ∈ s'.links (.part .code) module, s'.name? c' = some name → c' = c := by
  intro hall
  have hrefused : (execAll renumbered).addCode 0 none ""
      = .error (.idExists "codesection::top._cs_1") := rfl
  obtain ⟨s', c, name, hok, -⟩ :=
    hall (execAll renumbered) (reachable_execAll _) 0 _ _ rfl rfl rfl ""
  rw [hrefused] at hok
  cases hok

end Store

end Interconnect
