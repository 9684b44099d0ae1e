import Interconnect.Proofs.Request.Completion
import Interconnect.Proofs.Route.Forks
import Interconnect.Proofs.Store.Scoping

/-!
# Demands with different ids

In a fresh store nothing but modules and instances has an id, and so no id of a demand is taken
from the start.  It can only be that two demands of one plan ask for one id.  An id tells its owner
and its name if no owner has a dot in its name.  So the demands of a plan have different ids if hops
at one place have different names, and if these names keep apart when they get their suffixes.

At a module a hop does not name its object itself: it takes over the name of the pin above.  In a
tree that does not fork at default instances, that pin was named after the same name as the hop
itself.
-/

namespace Interconnect

namespace Store

/-! ## Ids in a fresh store -/

/-- The objects are modules and instances, and none of their names has a dot in it. -/
structure IsFresh (s : Store) : Prop where
  kind : ∀ {h : Handle} {o : Object}, s.object? h = some o → o.kind = .module ∨ o.kind = .inst
  name : ∀ {h : Handle} {o : Object}, s.object? h = some o → '.' ∉ o.name.toList

variable {s : Store}

/-- Demands with one id are for one owner and have one name. -/
theorem IsFresh.eq_of_demandId_eq (hfresh : s.IsFresh) (hs : s.Coherent) {d d' : Demand}
    (hown : s.CanOwn d.owner d.part) (hown' : s.CanOwn d'.owner d'.part)
    (h : s.demandId d = s.demandId d') : d.owner = d'.owner ∧ d.name = d'.name := by
  obtain ⟨o, hexpected⟩ := hown.exists_owner
  obtain ⟨o', hexpected'⟩ := hown'.exists_owner
  obtain ⟨ho, hk, -⟩ := expectOwner_eq_ok.1 hexpected
  obtain ⟨ho', hk', -⟩ := expectOwner_eq_ok.1 hexpected'
  rw [demandId, demandId, name?_of_object? ho, name?_of_object? ho', Option.getD_some,
    Option.getD_some] at h
  obtain ⟨hkind, howner, hname⟩ := partId_inj (hfresh.name ho) (hfresh.name ho') h
  have hsame : o.kind = o'.kind := by rw [hk, hk', Part.ownerKind_eq_of_kind_eq hkind]
  exact ⟨hs.eq_of_name_eq ho ho' (hfresh.kind ho) hsame howner, hname⟩

/-- No part has its id yet. -/
theorem IsFresh.free (hfresh : s.IsFresh) (hindexed : s.Indexed) (hs : s.Identified) (d : Demand) :
    s.ids.get? (s.demandId d) = none := by
  cases hget : s.ids.get? (s.demandId d) with
  | none => rfl
  | some h =>
    obtain ⟨v, hv, -, hid⟩ := hindexed.ids.get?_eq_some_iff.1 hget
    obtain ⟨scope, heq, -⟩ := hs h v hv
    rw [heq] at hid
    obtain ⟨o, ho, rfl⟩ := label?_eq_some_iff.1 hv
    have hkind : o.kind = d.part.kind := (Kind.objectId_inj hid).1
    refine absurd ?_ (Kind.not_standsAlone_part d.part)
    rw [← hkind]
    exact (hfresh.kind ho).imp_right Or.inl

/-! ## Steps that find their ids free -/

/-- A demand that is met takes its id. -/
theorem attach_ids {s' : Store} {h : Handle} {d : Demand}
    (hok : s.attach d.owner d.name d.part = .ok (s', h)) :
    s'.ids = s.ids.insert (s.demandId d) h := by
  obtain ⟨-, o, ho, -, -, -, heq⟩ := attach_cases hok
  rw [createPart] at heq
  cases heq
  rw [demandId, name?_of_object? ho]
  rfl

/-- A part that was added is found by its id. -/
theorem objectById?_attach {s' : Store} {d : Demand} {h : Handle}
    (hok : s.attach d.owner d.name d.part = .ok (s', h)) :
    s'.objectById? (s.demandId d) = some h := by
  rw [objectById?, attach_ids hok, OrderedMap.get?_insert_self]

/-- The id of a part that was added was free. -/
theorem free_of_attach {s' : Store} {d : Demand} {h : Handle}
    (hok : s.attach d.owner d.name d.part = .ok (s', h)) :
    s.objectById? (s.demandId d) = none := by
  obtain ⟨-, o, ho, -, -, hfree, -⟩ := attach_cases hok
  rw [objectById?, demandId, name?_of_object? ho]
  exact hfree

/-- Afterwards the other ids are free that were free before. -/
theorem objectById?_attach_eq_none {s' : Store} {d : Demand} {h : Handle}
    (hok : s.attach d.owner d.name d.part = .ok (s', h)) (id : String) :
    s'.objectById? id = none ↔ s.demandId d ≠ id ∧ s.objectById? id = none := by
  rw [objectById?, objectById?, attach_ids hok]
  by_cases heq : s.demandId d = id
  · rw [heq, OrderedMap.get?_insert_self]
    simp
  · rw [OrderedMap.get?_insert_of_ne _ _ (Ne.symm heq)]
    simp [heq]

/-- The ids of demands stay as they are when a part is added. -/
theorem demandId_attach (hs : s.Coherent) {s' : Store} {owner h : Handle} {name : String} {p : Part}
    (hok : s.attach owner name p = .ok (s', h)) {d : Demand} (hnamed : (s.name? d.owner).isSome) :
    s'.demandId d = s.demandId d := by
  obtain ⟨-, o, ho, hk, -, -, heq⟩ := attach_cases hok
  obtain ⟨n, hn⟩ := Option.isSome_iff_exists.1 hnamed
  have hname : s'.name? d.owner = some n := by
    rw [show s' = (s.createPart o name p).1 by rw [heq], name?,
      label?_createPart name (hs.handle_eq_of_object? ho) ho hk]
    exact name?_create_of_some hn
  rw [demandId, demandId, hname, hn]

/-- The demands have different ids, and none of the ids is taken. -/
structure IdsFree (s : Store) (demands : List Demand) : Prop where
  free : ∀ d ∈ demands, s.ids.get? (s.demandId d) = none
  distinct : demands.Pairwise fun d d' => s.demandId d ≠ s.demandId d'

/-- When a demand is met, the ids of the others stay free. -/
theorem IdsFree.attach (hs : s.Coherent) {d : Demand} {rest : List Demand}
    (h : s.IdsFree (d :: rest)) {s' : Store} {c : Handle}
    (hok : s.attach d.owner d.name d.part = .ok (s', c))
    (hnamed : ∀ d' ∈ rest, (s.name? d'.owner).isSome) : s'.IdsFree rest := by
  obtain ⟨hfree, hdistinct⟩ := h
  obtain ⟨hfirst, hrest⟩ := List.pairwise_cons.1 hdistinct
  have hsame : ∀ d' ∈ rest, s'.demandId d' = s.demandId d' :=
    fun d' hd' => demandId_attach hs hok (hnamed d' hd')
  constructor
  · intro d' hd'
    rw [hsame d' hd', attach_ids hok, OrderedMap.get?_insert_of_ne _ _ (hfirst d' hd').symm]
    exact hfree d' (List.mem_cons_of_mem _ hd')
  · exact hrest.imp_of_mem fun hd hd' hne => by rwa [hsame _ hd, hsame _ hd']

/-- Demands with free ids are all met. -/
theorem carryOut_free (hs : s.Coherent) {request : String} {steps : List Step}
    (hnew : ∀ step ∈ steps, step.IsNew) (hsound : ∀ step ∈ steps, s.IsSound step)
    (hfree : s.IdsFree (steps.filterMap Step.demand?)) :
    ∀ n ∈ Notice.diagnostics (s.carryOut request steps).notices,
      .report n ∈ steps ∨ ∃ id, n = Report.headingClash request id := by
  induction steps generalizing s with
  | nil => nofun
  | cons step rest ih =>
    have hnew' : ∀ step ∈ rest, step.IsNew := fun step h => hnew step (List.mem_cons_of_mem _ h)
    have hsound' : ∀ step ∈ rest, s.IsSound step :=
      fun step h => hsound step (List.mem_cons_of_mem _ h)
    intro n hn
    cases step with
    | stray object => exact (hsound (.stray object) List.mem_cons_self).elim
    | report d =>
      rw [carryOut, Outcome.notices_after, mem_diagnostics] at hn
      rcases hn with hn | hn
      · rw [List.mem_singleton.1 hn]
        exact Or.inl List.mem_cons_self
      · exact (ih hs hnew' hsound' hfree n hn).imp_left (List.mem_cons_of_mem _)
    | create demand clash =>
      have hids : s.IdsFree (demand :: rest.filterMap Step.demand?) := hfree
      obtain ⟨hname, hown⟩ := hsound (.create demand clash) List.mem_cons_self
      rcases hown.attach_cases hname with ⟨s₁, c, hattach⟩ | ⟨htaken, -⟩
      · have hpart : demand.part.IsNew := hnew (.create demand clash) List.mem_cons_self
        have hids' : s₁.IdsFree (rest.filterMap Step.demand?) := by
          refine hids.attach hs hattach fun d hd => ?_
          obtain ⟨clash', hstep⟩ := Step.mem_filterMap_demand?.1 hd
          exact (hsound' _ hstep).2.isSome_name?
        rw [carryOut, hattach, Outcome.notices_after, Outcome.notices_map, mem_diagnostics] at hn
        rcases hn with hn | hn
        · cases clash with
          | true => exact Or.inr ⟨_, List.mem_singleton.1 hn⟩
          | false => cases hn
        · refine (ih (Coherent.change (.part hpart hattach) hs) hnew' (fun step h => ?_) hids' n
            hn).imp_left (List.mem_cons_of_mem _)
          exact (hsound' step h).congr (attach_sameHierarchy hs hattach)
      · exact absurd (hids.free demand List.mem_cons_self) htaken

end Store

/-! ## Plans -/

namespace Task

open Store

variable {t : Task} (ht : t.mode = .signal) {s : Store}

/-- The owner can own what is asked for. -/
theorem Asks.canOwn {hop : Hop} {above : Option String} {d : Demand} (h : Asks t s hop above d) :
    s.CanOwn d.owner d.part := by
  cases h with
  | declaration ho hm hres => exact .module (frame_of_module ho hm) rfl fun _ => hres
  | port name ho hm => exact .module (frame_of_module ho hm) rfl nofun
  | @pin o i connection ho hi =>
    have htarget : s.target .placement hop.object = some i.module :=
      target_eq_some_iff.2 ⟨o, ho, Object.target_placement_eq_some.2 ⟨i, hi, rfl⟩⟩
    exact .inst htarget rfl

/-- What a hop asks for under names with suffixes. -/
structure Suffixed (t : Task) (s : Store) (hop : Hop) (d : Demand) : Prop where
  owner_eq : d.owner = hop.object
  canOwn : s.CanOwn d.owner d.part
  name_eq : ∃ heading, d.name = Naming.pinName (t.nameAt hop) heading

include ht

/-- Without forced names, the demands below the top have names with suffixes: at an instance after
the name of its hop, and at a module as it is handed down. -/
theorem demands_suffixed (hs : s.Coherent) {tree : HopTree} (hhangs : tree.Hangs s)
    (hunforked : tree.Unforked s) (hfree : ∀ hop, tree.Passes hop → hop.forced = false)
    {above : String} (hclean : t.Clean s (some above) tree)
    (habove : (s.frame tree.hop.object).isSome →
      ∃ heading, above = Naming.pinName (t.nameAt tree.hop) heading) :
    List.Forall₂ (Suffixed t s) tree.hops (t.demands s (some above) tree) := by
  induction hhangs generalizing above with
  | @node hop branches hplace _ _ ih =>
    obtain ⟨d, hasks, hcleans, hdemands⟩ := demands_node ht hclean
    cases hunforked with
    | node hdefault _ hunforked =>
    have hd : Suffixed t s hop d := by
      refine ⟨hasks.owner_eq, hasks.canOwn, ?_⟩
      generalize hsome : some above = above? at hasks
      cases hasks with
      | declaration => cases hsome
      | port name ho hm =>
        cases hsome
        exact habove (by rw [HopTree.hop, frame_of_module ho hm, Option.isSome_some])
      | pin connection ho hi =>
        refine ⟨hop.heading, ?_⟩
        rw [ownName, hfree hop .top]
        rfl
    rw [hdemands, HopTree.hops_node]
    refine .cons hd (forall₂_flatMap fun b hb => ?_)
    refine ih b hb (hunforked b hb) (fun hop' hp => hfree hop' (.branch hb hp)) (hcleans b hb) ?_
    intro hmodule
    -- The module has the name of its default instance.
    obtain ⟨f, hf⟩ := Option.isSome_iff_exists.1 hmodule
    obtain ⟨only, rfl, hname⟩ := hdefault _ (hs.frame_of_above? hf (hplace b hb))
    obtain rfl := List.mem_singleton.1 hb
    obtain ⟨heading, hheading⟩ := hd.name_eq
    exact ⟨heading, by rw [hheading, nameAt, nameAt, hname]⟩

end Task

section Tree

variable {s : Store} (hs : s.Reachable) (hfresh : s.IsFresh) {t : Task} (ht : t.mode = .signal)
  {tree : HopTree} (hhangs : tree.Hangs s) (hunforked : tree.Unforked s)
  (hfree : ∀ hop, tree.Passes hop → hop.forced = false) {P : Handle → String → Prop}
  (hbase : ∀ {x n}, P x n → Naming.stripDirection n = n)
  (hapart : tree.hops.Pairwise (HopTree.Apart P)) {d : Option Handle}
  (hmodule : s.frame tree.hop.object = some (false, d))

include hs hfresh ht hhangs hunforked hfree hbase hapart hmodule

/-- Where hops at one place have different names, the demands have different ids. -/
theorem Task.demandIds_pairwise :
    (t.demands s none tree).Pairwise fun d d' => s.demandId d ≠ s.demandId d' := by
  have hclean := clean_of_frame ht hhangs hmodule
  have htrees := hhangs
  cases hhangs with
  | @node hop branches hplace _ hbranches =>
  cases hunforked with
  | node _ _ hunforked =>
    obtain ⟨top, hasks, hcleans, hdemands⟩ := demands_node ht hclean
    have hbelow : List.Forall₂ (Suffixed t s) (branches.flatMap HopTree.hops)
        (branches.flatMap (t.demands s (some top.name))) := by
      refine Store.forall₂_flatMap fun b hb => ?_
      refine demands_suffixed ht hs.coherent (hbranches b hb) (hunforked b hb)
        (fun hop' hp => hfree hop' (.branch hb hp)) (hcleans b hb) fun hbelow => ?_
      -- Below a module there is no module.
      obtain ⟨f, hf⟩ := Option.isSome_iff_exists.1 hbelow
      have hnone := hs.coherent.frame_default (hs.coherent.frame_of_above? hf (hplace b hb))
      rw [HopTree.hop, hnone] at hmodule
      cases hmodule
    rw [HopTree.hops_node, List.pairwise_cons] at hapart
    rw [hdemands, List.pairwise_cons]
    constructor
    · intro e he heq
      obtain ⟨hop', hhop', he⟩ := Store.exists_left_of_mem hbelow he
      obtain ⟨b, hb, hmem⟩ := List.mem_flatMap.1 hhop'
      refine htrees.ne_top hs hb (HopTree.mem_hops.1 hmem) ?_
      rw [← he.owner_eq, ← hasks.owner_eq]
      exact (hfresh.eq_of_demandId_eq hs.coherent hasks.canOwn he.canOwn heq).1.symm
    · refine Store.pairwise_of_forall₂ hbelow hapart.2 fun {a b e e'} he he' hab heq => ?_
      obtain ⟨howner, hname⟩ :=
        hfresh.eq_of_demandId_eq hs.coherent he.canOwn he'.canOwn heq
      obtain ⟨m, n, hne, hm, hn, hPm, hPn⟩ :=
        hab (he.owner_eq.symm.trans (howner.trans he'.owner_eq))
      obtain ⟨heading, heq⟩ := he.name_eq
      obtain ⟨heading', heq'⟩ := he'.name_eq
      rw [nameAt, hm, Option.getD_some] at heq
      rw [nameAt, hn, Option.getD_some] at heq'
      exact hne (Naming.pinName_inj (hbase hPm) (hbase hPn) (heq.symm.trans (hname.trans heq')))

/-- Then each hop gets its object, and nothing but clashes of headings is reported. -/
theorem Store.Reachable.realize_free
    (hnamed : ∀ hop, tree.Passes hop → (s.above? hop.object).isSome ∧ t.nameAt hop ≠ "")
    (texts : StringTable) :
    ∀ n ∈ Notice.diagnostics ((s.withTexts texts).realize t tree).notices,
      ∃ id, n = Report.headingClash t.request id := by
  have hclean := Task.clean_of_frame ht hhangs hmodule
  have hsound : ∀ step ∈ t.plan s none tree, s.IsSound step :=
    Task.sound_plan hhangs hnamed nofun
  have hids : (s.withTexts texts).IdsFree (t.demands s none tree) :=
    ⟨fun d _ => hfresh.free hs.coherent.toIndexed hs.identified d,
      Task.demandIds_pairwise hs hfresh ht hhangs hunforked hfree hbase hapart hmodule⟩
  intro n hn
  rw [realize, Store.plan_withTexts] at hn
  have hcoherent := hs.coherent.withTexts texts
  have hsame : SameHierarchy s (s.withTexts texts) := ⟨rfl, rfl, rfl⟩
  rcases carryOut_free hcoherent (isNew_plan t s none tree)
    (fun step hstep => (hsound step hstep).congr hsame) hids n hn with hreport | hclash
  · cases hclean _ hreport
  · exact hclash

end Tree

end Interconnect
