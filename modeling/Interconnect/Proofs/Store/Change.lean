import Interconnect.Proofs.Store.Operation
import Interconnect.Session.Command
import Mathlib.Logic.Relation

/-!
# Changes

A `Change` is one successful elementary operation.  Every command but `clear`, a failed one
included, amounts to a sequence of changes (`changes_exec`), and so an invariant of the
empty store that every change keeps holds of every reachable store (`Reachable.induction`).

A request is made of some of these operations only, and adds parts of some kinds only.  What these
operations keep, a request keeps (`Kept.run`).
-/

namespace Interconnect

/-- The parts that a part lists. -/
def Part.parts : Part → List Handle
  | .regfile entries => entries
  | .entry registers => registers
  | _ => []

/-- A part as it is when it is added: in no net, and without parts of its own. -/
def Part.IsNew (p : Part) : Prop :=
  p.net? = none ∧ p.parts = []

/-- The step creates no part but a new one. -/
def Step.IsNew : Step → Prop
  | .create demand _ => demand.part.IsNew
  | _ => True

/-- The parts that the hops of a task ask for. -/
inductive Task.Asked (t : Task) : Part → Prop where
  | declaration : t.mode = .signal → Asked t (.declaration true none none)
  | port (direction : PortDirection) : t.mode = .signal → Asked t (.port direction none)
  | pin (connection : String) (inverted : Bool) : t.mode = .signal →
    Asked t (.pin connection inverted none)
  | parameter (value : String) (isLocal : Bool) : t.mode ≠ .signal →
    Asked t (.parameter value isLocal)
  | adjustment (value : String) : t.mode ≠ .signal → Asked t (.adjustment value)

theorem Task.Asked.isNew {t : Task} {p : Part} (h : t.Asked p) : p.IsNew := by
  cases h <;> exact ⟨rfl, rfl⟩

theorem Task.Asked.joinsNets {t : Task} {p : Part} (h : t.Asked p) (ht : t.mode = .signal) :
    p.joinsNets = true := by
  cases h with
  | declaration | port | pin => rfl
  | parameter _ _ hmode | adjustment _ hmode => exact absurd ht hmode

/-- What is wrong with an instance on top is reported. -/
theorem Task.create_notMem_topInstance (t : Task) (id : String) (above : Option String)
    (demand : Demand) (clash : Bool) : .create demand clash ∉ t.topInstance id above := by
  unfold topInstance
  cases above with
  | some name => simp
  | none =>
    intro h
    rcases List.mem_append.1 h with h | h
    · split at h <;> simp at h
    · simp at h

/-- A hop asks for such a part. -/
theorem Task.asked_of_mem_atHop {t : Task} {s : Store} {above : Option String} {hop : Hop}
    {demand : Demand} {clash : Bool} (h : .create demand clash ∈ (t.atHop s above hop).1) :
    t.Asked demand.part := by
  unfold atHop at h
  split at h
  · simp at h
  · split at h
    · unfold atModule at h
      split at h
      · rename_i hmode
        cases List.mem_singleton.1 h
        exact .port _ hmode
      · rename_i hmode
        dsimp only at h
        split at h
        · simp at h
        · cases List.mem_singleton.1 h
          exact .declaration hmode
      all_goals
        rename_i hmode
        cases List.mem_singleton.1 h
        exact .parameter _ _ (by simp [hmode])
    · unfold atInstance at h
      split at h
      · rename_i hmode
        rcases List.mem_append.1 h with h | h
        · exact absurd h (t.create_notMem_topInstance _ _ _ _)
        · cases List.mem_singleton.1 h
          exact .pin _ _ hmode
      · rename_i hmode
        rcases List.mem_append.1 h with h | h
        · exact absurd h (t.create_notMem_topInstance _ _ _ _)
        · cases List.mem_singleton.1 h
          exact .adjustment _ (by simp [hmode])
    · simp at h

namespace Store

/-- One successful elementary operation leads from a store to another. -/
inductive Change : Store → Store → Prop where
  | intern {s : Store} (text : String) : Change s (s.intern text)
  | module {s s' : Store} {name : String} {ilm resource : Bool} {h : Handle} :
    s.addModule name ilm resource = .ok (s', h) → Change s s'
  | placement {s s' : Store} {name : String} {module parent h : Handle} :
    s.addInstance name module parent = .ok (s', h) → Change s s'
  | part {s s' : Store} {owner h : Handle} {name : String} {p : Part} :
    p.IsNew → s.attach owner name p = .ok (s', h) → Change s s'
  | net {s s' : Store} {name : String} {members : List Handle} {h : Handle} :
    s.addNet name members = .ok (s', h) → Change s s'
  | writing {s s' : Store} {h : Handle} {name value : String} {constant : Bool} :
    s.setAttribute h name value constant = .ok s' → Change s s'

/-- Elementary operations lead from a store to another. -/
abbrev Changes : Store → Store → Prop :=
  Relation.ReflTransGen Change

/-! ## What requests keep -/

/-- The elementary operations of requests keep a property, as far as the parts that they add are
allowed. -/
structure Kept (allowed : Part → Prop) (P : Store → Prop) : Prop where
  intern : ∀ {s : Store} (text : String), P s → P (s.intern text)
  part : ∀ {s s' : Store} {owner h : Handle} {name : String} {p : Part}, allowed p →
    s.attach owner name p = .ok (s', h) → P s → P s'
  net : ∀ {s s' : Store} {name : String} {members : List Handle} {h : Handle},
    s.addNet name members = .ok (s', h) → P s → P s'
  writing : ∀ {s s' : Store} {h : Handle} {name value : String} {constant : Bool},
    s.setAttribute h name value constant = .ok s' → P s → P s'

/-- What a hop asks for is new. -/
theorem isNew_atHop (t : Task) (s : Store) (above : Option String) (hop : Hop) :
    ∀ step ∈ (t.atHop s above hop).1, step.IsNew := by
  intro step hstep
  cases step with
  | create demand clash => exact (Task.asked_of_mem_atHop hstep).isNew
  | report | stray => trivial

mutual

/-- Every step of a plan is a step for some hop. -/
theorem exists_atHop_of_mem_plan {t : Task} {s : Store} {step : Step} (above : Option String)
    (tree : HopTree) (hstep : step ∈ t.plan s above tree) :
    ∃ above hop, step ∈ (t.atHop s above hop).1 := by
  cases tree with
  | node hop branches =>
    rw [Task.plan] at hstep
    rcases List.mem_append.1 hstep with hstep | hstep
    · exact ⟨above, hop, hstep⟩
    · exact exists_atHop_of_mem_planAll _ branches hstep

theorem exists_atHop_of_mem_planAll {t : Task} {s : Store} {step : Step} (above : String)
    (trees : List HopTree) (hstep : step ∈ t.planAll s above trees) :
    ∃ above hop, step ∈ (t.atHop s above hop).1 := by
  cases trees with
  | nil => simp [Task.planAll] at hstep
  | cons tree rest =>
    rw [Task.planAll] at hstep
    rcases List.mem_append.1 hstep with hstep | hstep
    · exact exists_atHop_of_mem_plan (some above) tree hstep
    · exact exists_atHop_of_mem_planAll above rest hstep

end

/-- A plan asks for such parts as its hops ask for. -/
theorem asked_of_mem_plan {t : Task} {s : Store} {above : Option String} {tree : HopTree}
    {demand : Demand} {clash : Bool} (hstep : .create demand clash ∈ t.plan s above tree) :
    t.Asked demand.part := by
  obtain ⟨above', hop, hstep⟩ := exists_atHop_of_mem_plan above tree hstep
  exact Task.asked_of_mem_atHop hstep

/-- A plan asks for new parts only. -/
theorem isNew_plan (t : Task) (s : Store) (above : Option String) (tree : HopTree) :
    ∀ step ∈ t.plan s above tree, step.IsNew := by
  intro step hstep
  obtain ⟨above', hop, hstep⟩ := exists_atHop_of_mem_plan above tree hstep
  exact isNew_atHop t s above' hop step hstep

/-- What both steps of a sequence keep, the sequence keeps. -/
theorem kept_andThen {P : Store → Prop} {ε α β : Type} {o : Outcome ε α}
    {f : Store → α → Outcome ε β} (ho : P o.store)
    (hf : ∀ a, o.result = .ok a → P (f o.store a).store) : P (o.andThen f).store := by
  cases h : o.result with
  | error e =>
    rw [Outcome.andThen_of_error f h]
    exact ho
  | ok a =>
    rw [Outcome.andThen_of_ok f h]
    exact hf a h

/-- What a creation keeps, the command for it keeps, also when it fails. -/
theorem kept_creating {P : Store → Prop} {s : Store} {r : Except StoreError (Store × Handle)}
    {events : List Event} (hs : P s) (h : ∀ s' h, r = .ok (s', h) → P s') :
    P (s.creating r events).store := by
  cases r with
  | error e => exact hs
  | ok a => exact h a.1 a.2 rfl

namespace Kept

variable {allowed : Part → Prop} {P : Store → Prop} (hP : Kept allowed P) {s : Store}

include hP

theorem internGivenName (hs : P s) (e : Endpoint) : P (s.internGivenName e) := by
  unfold Store.internGivenName
  cases e.givenName with
  | none => exact hs
  | some name => exact hP.intern name hs

theorem chains (hs : P s) (ends : List (Endpoint × Heading)) : P (s.chains ends).1 := by
  induction ends generalizing s with
  | nil => exact hs
  | cons e rest ih =>
    obtain ⟨e, heading⟩ := e
    have hname : P (s.internGivenName e) := hP.internGivenName hs e
    unfold Store.chains
    dsimp only
    split
    · exact hname
    · exact ih hname

/-- Finding out what to realize only interns texts. -/
theorem spanningTree (hs : P s) (request name : String) (ends : List (Endpoint × Heading)) :
    P (s.spanningTree request name ends).store := by
  unfold Store.spanningTree
  split
  · exact hs
  · have hchains : P (s.chains ends).1 := hP.chains hs ends
    split
    · rename_i h
      rw [h] at hchains
      exact hchains
    · rename_i s' chains h
      rw [h] at hchains
      have hname : P (s'.intern name) := hP.intern name hchains
      dsimp only
      split
      · exact hname
      · exact hname
      · split
        · exact hname
        · exact hname

theorem carryOut (hs : P s) (request : String) {steps : List Step}
    (hsteps : ∀ demand clash, .create demand clash ∈ steps → allowed demand.part) :
    P (s.carryOut request steps).store := by
  induction steps generalizing s with
  | nil => exact hs
  | cons step rest ih =>
    have hrest : ∀ demand clash, .create demand clash ∈ rest → allowed demand.part :=
      fun demand clash h => hsteps demand clash (List.mem_cons_of_mem step h)
    cases step with
    | report d => exact ih hs hrest
    | stray object => exact hs
    | create demand clash =>
      unfold Store.carryOut
      split
      · rename_i s' h hok
        exact ih (hP.part (hsteps demand clash List.mem_cons_self) hok hs) hrest
      · exact ih hs hrest
      · exact hs
      · exact hs

theorem joinObjects (hs : P s) (request signal : String) (objects : List Handle) :
    P (s.joinObjects request signal objects).store := by
  unfold Store.joinObjects
  split
  · exact hs
  · split
    · exact hs
    · rename_i s' net hok
      exact hP.net hok hs

theorem tagAll (hs : P s) (name : String) (objects : List Handle) :
    P (Store.tagAll name s objects).store := by
  induction objects generalizing s with
  | nil => exact hs
  | cons h rest ih =>
    unfold Store.tagAll
    split
    · rename_i s' hok
      exact ih (hP.writing hok hs)
    · exact hs

theorem tagObjects (hs : P s) (request name : String) (objects : List Handle) :
    P (s.tagObjects request name objects).store := by
  unfold Store.tagObjects
  split
  · exact hs
  · exact kept_andThen (hP.tagAll hs name objects) fun _ _ => hP.tagAll hs name objects

theorem setAttributes (hs : P s) (h : Handle) (pairs : List (String × String)) :
    P (s.setAttributes h pairs).1 := by
  induction pairs generalizing s with
  | nil => exact hs
  | cons pair rest ih =>
    obtain ⟨name, value⟩ := pair
    unfold Store.setAttributes
    split
    · rename_i s' hok
      exact ih (hP.writing hok hs)
    · exact ih hs

variable (hasked : ∀ (t : Task) (p : Part), t.Asked p → allowed p)

include hasked

theorem realize (hs : P s) (t : Task) (tree : HopTree) : P (s.realize t tree).store :=
  hP.carryOut hs t.request fun _ _ hstep => hasked t _ (asked_of_mem_plan hstep)

theorem thread (hs : P s) (t : Task) (ends : List (Endpoint × Heading))
    {bind : Store → List Handle → Outcome StoreError (List Handle)}
    (hbind : ∀ s objects, P s → P (bind s objects).store) : P (s.thread t ends bind).store := by
  unfold Store.thread
  have htree : P (s.spanningTree t.request t.name ends).store := hP.spanningTree hs _ _ _
  refine kept_andThen htree fun tree _ => ?_
  cases tree with
  | none => exact htree
  | some tree =>
    have hrealized := hP.realize hasked htree t tree
    exact kept_andThen hrealized fun objects _ => hbind _ objects hrealized

theorem run (hs : P s) (r : Request) : P (r.run s).store := by
  cases r with
  | connection signal source targets =>
    simp only [Request.run, connect]
    split
    · exact hs
    · split
      · exact hs
      · exact hP.thread hasked hs _ _ fun s objects hs => hP.joinObjects hs _ signal objects
  | parameter name value targets isLocal =>
    simp only [Request.run, parametrize]
    split
    · exact hs
    · exact hP.thread hasked hs _ _ fun s objects hs => hP.tagObjects hs _ name objects

end Kept

/-! ## What commands amount to -/

/-- A sequence of changes is continued by the operations of requests. -/
theorem kept_changes (s : Store) : Kept Part.IsNew (Changes s) where
  intern text h := h.tail (.intern text)
  part hnew hok h := h.tail (.part hnew hok)
  net hok h := h.tail (.net hok)
  writing hok h := h.tail (.writing hok)

section Changes

variable (s : Store)

theorem changes_internGivenName (e : Endpoint) : Changes s (s.internGivenName e) :=
  (kept_changes s).internGivenName .refl e

theorem changes_chains (ends : List (Endpoint × Heading)) : Changes s (s.chains ends).1 :=
  (kept_changes s).chains .refl ends

theorem changes_spanningTree (request name : String) (ends : List (Endpoint × Heading)) :
    Changes s (s.spanningTree request name ends).store :=
  (kept_changes s).spanningTree .refl request name ends

theorem changes_carryOut (request : String) (steps : List Step)
    (hnew : ∀ step ∈ steps, step.IsNew) : Changes s (s.carryOut request steps).store :=
  (kept_changes s).carryOut .refl request fun demand clash => hnew (.create demand clash)

theorem changes_realize (t : Task) (tree : HopTree) : Changes s (s.realize t tree).store :=
  (kept_changes s).realize (fun _ _ => Task.Asked.isNew) .refl t tree

theorem changes_tagObjects (request name : String) (objects : List Handle) :
    Changes s (s.tagObjects request name objects).store :=
  (kept_changes s).tagObjects .refl request name objects

theorem changes_setAttributes (h : Handle) (pairs : List (String × String)) :
    Changes s (s.setAttributes h pairs).1 :=
  (kept_changes s).setAttributes .refl h pairs

theorem changes_run (r : Request) : Changes s (r.run s).store :=
  (kept_changes s).run (fun _ _ => Task.Asked.isNew) .refl r

end Changes

theorem changes_creating {s : Store} {r : Except StoreError (Store × Handle)}
    {events : List Event} (h : ∀ s' h, r = .ok (s', h) → Change s s') :
    Changes s (s.creating r events).store :=
  kept_creating .refl fun s' c hok => .single (h s' c hok)

/-- Every command but `clear` amounts to changes, also when it fails. -/
theorem changes_exec (s : Store) (c : Command) (hc : c ≠ .clear) :
    Changes s (s.exec c).store := by
  cases c with
  | addModule name ilm resource => exact changes_creating fun _ _ h => .module h
  | addInstance name module parent => exact changes_creating fun _ _ h => .placement h
  | addPort module name direction => exact changes_creating fun _ _ h => .part ⟨rfl, rfl⟩ h
  | addPin inst name connection inverted =>
    exact changes_creating fun _ _ h => .part ⟨rfl, rfl⟩ h
  | addParameter module name value isLocal =>
    exact changes_creating fun _ _ h => .part ⟨rfl, rfl⟩ h
  | addAdjustment inst name value => exact changes_creating fun _ _ h => .part ⟨rfl, rfl⟩ h
  | addDeclaration module name defaultType assigned =>
    exact changes_creating fun _ _ h => .part ⟨rfl, rfl⟩ h
  | addCode module name text =>
    refine changes_creating fun _ _ h => ?_
    obtain ⟨o, -, hattach⟩ := addCode_cases h
    exact .part ⟨rfl, rfl⟩ hattach
  | addRegfile module name => exact changes_creating fun _ _ h => .part ⟨rfl, rfl⟩ h
  | addEntry regfile name => exact changes_creating fun _ _ h => .part ⟨rfl, rfl⟩ h
  | addRegister entry name => exact changes_creating fun _ _ h => .part ⟨rfl, rfl⟩ h
  | addNet name members => exact changes_creating fun _ _ h => .net h
  | setAttribute object name value constant =>
    simp only [exec]
    split
    · rename_i s' hok
      exact .single (.writing hok)
    · exact .refl
  | setAttributes object pairs =>
    have h : Changes s (s.setAttributes object pairs).1 := changes_setAttributes s object pairs
    simp only [exec]
    split
    all_goals
      rename_i heq
      rw [heq] at h
      exact h
  | clear => exact absurd rfl hc
  | request r => exact changes_run s r

/-- What holds of the empty store and is kept by every change holds of every reachable
store. -/
theorem Reachable.induction {P : Store → Prop} (hempty : P .empty)
    (hchange : ∀ {s s' : Store}, Change s s' → P s → P s') {s : Store} (hs : s.Reachable) :
    P s := by
  induction hs with
  | empty => exact hempty
  | @exec s c _ ih =>
    by_cases hc : c = .clear
    · subst hc
      exact hempty
    · have h : Changes s (s.exec c).store := changes_exec s c hc
      generalize (s.exec c).store = s' at h
      induction h with
      | refl => exact ih
      | tail _ hstep hprev => exact hchange hstep hprev

/-- The store after some commands. -/
def execAll (commands : List Command) : Store :=
  commands.foldl (fun s c => (s.exec c).store) .empty

theorem reachable_execAll (commands : List Command) : (execAll commands).Reachable := by
  have hfrom : ∀ s : Store, s.Reachable →
      (commands.foldl (fun s c => (s.exec c).store) s).Reachable := by
    induction commands with
    | nil => exact fun _ hs => hs
    | cons c rest ih => exact fun s hs => ih _ (.exec c hs)
  exact hfrom .empty .empty

theorem execAll_concat (commands : List Command) (c : Command) :
    execAll (commands ++ [c]) = ((execAll commands).exec c).store := by
  rw [execAll, List.foldl_append]
  rfl

/-- A reachable store is the store after some commands. -/
theorem reachable_iff {s : Store} : s.Reachable ↔ ∃ commands, execAll commands = s := by
  constructor
  · intro hs
    induction hs with
    | empty => exact ⟨[], rfl⟩
    | @exec s c _ ih =>
      obtain ⟨commands, rfl⟩ := ih
      exact ⟨commands ++ [c], execAll_concat commands c⟩
  · rintro ⟨commands, rfl⟩
    exact reachable_execAll commands

end Store

end Interconnect
