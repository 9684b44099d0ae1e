import Interconnect.Proofs.Route.Reducing
import Interconnect.Proofs.Route.Separation

/-!
# Where a tree forks

Below a default instance there is only its module, and so chains fork there only if they do not
agree about its name.  The chains of a group do agree.  Only the chains that a tree starts from are
not grouped by anything but their place, and so a tree forks at a default instance on top or
nowhere.

Reducing a tree stops where the tree forks or at a hop that the caller chose.  If the tree does not
fork on top, neither is the case at an instance: above an instance that was chosen the module counts
as chosen, too.
-/

namespace Interconnect

namespace Store

theorem isSome_frame_iff {s : Store} {h : Handle} :
    (s.frame h).isSome ↔ s.kind? h = some .module := by
  constructor
  · intro hf
    obtain ⟨f, hf⟩ := Option.isSome_iff_exists.1 hf
    obtain ⟨m, hm, -⟩ := exists_module_of_frame hf
    obtain ⟨o, ho, hbody⟩ := Option.bind_eq_some_iff.1 hm
    rw [kind?, ho, Option.map_some, Object.kind, Object.module?_eq_some.1 hbody, Body.kind]
  · intro hk
    obtain ⟨o, ho, hkind⟩ := Option.map_eq_some_iff.1 hk
    obtain ⟨handle, id, name, attributes, body⟩ := o
    cases body with
    | module m => rw [frame_of_module ho rfl, Option.isSome_some]
    | inst i => cases hkind
    | net members => cases hkind
    | part owner p => cases p <;> cases hkind

/-- What is directly below an instance is the module whose default instance it is. -/
theorem Coherent.default_of_above? {s : Store} (hs : s.Coherent) {x y : Handle}
    (h : s.above? x = some (some y)) (hy : s.frame y = none) :
    s.frame x = some (false, some y) := by
  rcases hs.alternate h with ⟨hx, -⟩ | ⟨-, hmodule⟩
  · obtain ⟨f, hf⟩ := Option.isSome_iff_exists.1 (isSome_frame_iff.2 hx)
    exact hs.frame_of_above? hf h
  · rw [← isSome_frame_iff, hy] at hmodule
    cases hmodule

end Store

namespace Chain

/-- Chains that agree have one name or none at their first hop. -/
theorem Agrees.called_or_bare {chains : List Chain} (h : Agrees chains) :
    (∃ n, Called n chains) ∨ ∀ c ∈ chains, c.head.name = none := by
  by_cases hnamed : ∃ c ∈ chains, ∃ n, c.head.name = some n
  · obtain ⟨c, hc, n, hn⟩ := hnamed
    exact Or.inl ⟨n, ⟨c, hc, hn⟩, fun c' hc' m hm => h c' hc' c hc hm hn⟩
  · refine Or.inr fun c hc => ?_
    cases hname : c.head.name with
    | none => rfl
    | some n => exact absurd ⟨c, hc, n, hname⟩ hnamed

theorem agrees_of_mem_byName {chains group : List Chain} (hg : group ∈ byName chains) :
    Agrees group := by
  intro c hc c' hc' m n hm hn
  unfold byName at hg
  split at hg
  · rename_i hnames
    rw [List.mem_singleton.1 hg] at hc
    have hmem : m ∈ ascending (chains.filterMap fun c => c.head.name) :=
      mem_ascending.2 (List.mem_filterMap.2 ⟨c, hc, hm⟩)
    rw [hnames] at hmem
    cases hmem
  · obtain ⟨name, -, rfl⟩ := List.mem_map.1 hg
    have hname := (List.mem_filter.1 hc).2
    have hname' := (List.mem_filter.1 hc').2
    simp only [hm, hn, Option.getD_some, decide_eq_true_eq] at hname hname'
    rw [hname, hname']

/-- The chains of a group agree. -/
theorem agrees_of_mem_groups {chains group : List Chain} (hg : group ∈ groups chains) :
    Agrees group := by
  obtain ⟨atObject, -, hname⟩ := List.mem_flatMap.1 hg
  exact agrees_of_mem_byName hname

/-- Chains that do not agree about the name at a default instance form several groups below it. -/
theorem one_lt_length_groups {s : Store} (hs : s.Coherent) {chains : List Chain} {y m : Handle}
    (hstart : ∀ c ∈ chains, c.head.object = y) (hruns : ∀ c ∈ chains, c.Runs s)
    (hm : s.frame m = some (false, some y)) (h : ¬ Agrees chains) : 1 < (groups chains).length := by
  by_contra hfew
  refine h fun c hc c' hc' k n hk hn => ?_
  obtain ⟨d, g, -, hg, hd, heq⟩ := exists_lower_of_mem hs hstart hruns hm hc
  obtain ⟨d', g', -, hg', hd', heq'⟩ := exists_lower_of_mem hs hstart hruns hm hc'
  match hgroups : groups chains with
  | [] =>
    rw [hgroups] at hg
    cases hg
  | [only] =>
    have honly : only ∈ groups chains := by simp [hgroups]
    rw [hgroups, List.mem_singleton] at hg hg'
    subst hg hg'
    exact agrees_of_mem_groups honly d hd d' hd' (heq.symm.trans hk) (heq'.symm.trans hn)
  | _ :: _ :: _ => simp [hgroups] at hfew

end Chain

/-- A tree of chains from a default instance on is not of height zero. -/
theorem Seeds.height_pos {s : Store} (hs : s.Coherent) {P : Handle → String → Prop} {y : Handle}
    {height : Nat} {chains : List Chain} (h : Seeds s P y height chains) {m : Handle}
    (hm : s.frame m = some (false, some y)) {c : Chain} (hc : c ∈ chains) : 0 < height := by
  obtain ⟨c', -, hbelow, -⟩ := Chain.exists_lower_of_mem hs h.start h.runs hm hc
  have hlength := h.height c hc
  rw [Chain.below?_eq_some.1 hbelow, List.length_cons] at hlength
  exact Nat.lt_of_lt_of_le (Nat.succ_pos _) hlength

namespace HopTree

/-- The tree does not fork at a default instance, whose module has its name, and above an instance
that the caller chose the hop counts as chosen. -/
inductive Unforked (s : Store) : HopTree → Prop where
  | node {hop : Hop} {branches : List HopTree} :
    (∀ m, s.frame m = some (false, some hop.object) →
      ∃ b, branches = [b] ∧ b.hop.name = hop.name) →
    (∀ b ∈ branches, s.frame b.hop.object = none → b.hop.explicit = true →
      hop.explicit = true) →
    (∀ b ∈ branches, Unforked s b) → Unforked s (.node hop branches)

theorem Within.unforked {s : Store} {t tree : HopTree} (h : Within t tree)
    (htree : tree.Unforked s) : t.Unforked s := by
  induction h with
  | refl => exact htree
  | branch hb _ ih =>
    cases htree with
    | node _ _ hbranches => exact ih (hbranches _ hb)

section Grow

variable {request : String} {height : Nat} {chains : List Chain} {tree : HopTree}

/-- Chains without a name have the name of the request. -/
theorem name_hop_of_bare (hbare : ∀ c ∈ chains, c.head.name = none)
    (hgrow : grow request height chains = some tree) : tree.hop.name = some request := by
  obtain ⟨first, others, branches, rfl, rfl, -⟩ := exists_node_of_grow hgrow
  rcases Chain.name_jointHop request first others with ⟨-, hname⟩ | ⟨c, hc, n, hn, -⟩
  · exact hname
  · rw [hbare c hc] at hn
    cases hn

/-- Each group below becomes a branch. -/
theorem branches_of_grow (hgrow : grow request (height + 1) chains = some tree) :
    List.Forall₂ (fun group b => grow request height group = some b) (Chain.groups chains)
      tree.branches := by
  have hall : ∀ {groups : List (List Chain)}, (∀ group ∈ groups, group ≠ []) →
      List.Forall₂ (fun group b => grow request height group = some b) groups
        (groups.filterMap (grow request height)) := by
    intro groups hne
    induction groups with
    | nil => exact .nil
    | cons group rest ih =>
      obtain ⟨first, others, rfl⟩ := List.exists_cons_of_ne_nil (hne group List.mem_cons_self)
      obtain ⟨b, hb⟩ := Option.isSome_iff_exists.1 (grow_isSome request height first others)
      rw [List.filterMap_cons_some hb]
      exact .cons hb (ih fun group hg => hne group (List.mem_cons_of_mem _ hg))
  cases chains with
  | nil => cases hgrow
  | cons first others =>
    cases hgrow
    exact hall fun group hg => Chain.ne_nil_of_mem_groups hg

section Seeds

variable {s : Store} {P : Handle → String → Prop} {y : Handle} (hseeds : Seeds s P y height chains)
  (hgrow : grow request height chains = some tree)

include hseeds hgrow

/-- Below a default instance, chains that agree become one branch, at its module and with its
name. -/
theorem exists_only_branch (hs : s.Reachable) (hagrees : Chain.Agrees chains) {m : Handle}
    (hm : s.frame m = some (false, some y)) :
    ∃ b, tree.branches = [b] ∧ b.hop.name = tree.hop.name := by
  have hne : chains ≠ [] := by
    obtain ⟨first, others, -, rfl, -⟩ := exists_node_of_grow hgrow
    exact List.cons_ne_nil first others
  obtain ⟨c, hc⟩ := List.exists_mem_of_ne_nil chains hne
  obtain ⟨lower, rfl⟩ := Nat.exists_eq_add_one.2 (hseeds.height_pos hs.coherent hm hc)
  obtain ⟨group, hgroups⟩ := hagrees.exists_group hs.coherent hseeds.start hseeds.runs hne hm
  have hg : group ∈ Chain.groups chains := by simp [hgroups]
  obtain ⟨z, -, hlower⟩ := hseeds.group hg
  have hbranches := branches_of_grow hgrow
  rw [hgroups] at hbranches
  generalize tree.branches = branches at hbranches
  cases hbranches with
  | @cons _ b _ _ hb hnil =>
  cases hnil with
  | nil =>
  refine ⟨b, rfl, ?_⟩
  rcases hagrees.called_or_bare with ⟨n, hcalled⟩ | hbare
  · have hcalled' :=
      Chain.called_of_mem_groups hs.coherent hseeds.start hseeds.runs hcalled hm hg
    rw [(name_hop_of_called hs hlower hcalled' hb).1]
    exact (name_hop_of_called hs hseeds hcalled hgrow).1.symm
  · have hbare' : ∀ c' ∈ group, c'.head.name = none := by
      intro c' hc'
      obtain ⟨c, hc, -, heq⟩ :=
        Chain.exists_upper_of_mem_groups hs.coherent hseeds.start hseeds.runs hm hg hc'
      exact heq.symm.trans (hbare c hc)
    rw [name_hop_of_bare hbare' hb, name_hop_of_bare hbare hgrow]

/-- Above an instance that the caller chose, the hop counts as chosen. -/
theorem explicit_hop_of_grow {b : HopTree} (hb : b ∈ tree.branches)
    (hf : s.frame b.hop.object = none) (hexplicit : b.hop.explicit = true) :
    tree.hop.explicit = true := by
  obtain ⟨first, others, branches, rfl, rfl, hbranches⟩ := exists_node_of_grow hgrow
  obtain ⟨lower, group, rfl, hg, hb⟩ := hbranches b hb
  obtain ⟨start, rest, branches', rfl, rfl, -⟩ := exists_node_of_grow hb
  obtain ⟨c', hc', hchosen⟩ := Chain.exists_of_explicit_jointHop hexplicit
  obtain ⟨c, hc, hbelow⟩ := Chain.exists_of_mem_groups hg hc'
  obtain ⟨z, -, hlower⟩ := hseeds.group hg
  refine Chain.explicit_jointHop hc (((hseeds.runs c hc).below hbelow).2.1.explicit ?_ hchosen)
  rw [hop, Chain.object_jointHop, hlower.start start List.mem_cons_self] at hf
  rwa [hlower.start c' hc']

/-- The caller does not choose default instances. -/
theorem not_explicit_hop_of_grow (hs : s.Coherent) {m : Handle}
    (hm : s.frame m = some (false, some y)) : tree.hop.explicit = false := by
  obtain ⟨first, others, branches, rfl, rfl, -⟩ := exists_node_of_grow hgrow
  refine Bool.eq_false_iff.2 fun hexplicit => ?_
  obtain ⟨c, hc, hchosen⟩ := Chain.exists_of_explicit_jointHop hexplicit
  obtain ⟨c', group, hbelow, hg, hc', -⟩ :=
    Chain.exists_lower_of_mem hs hseeds.start hseeds.runs hm hc
  have hmodule : (s.frame c'.head.object).isSome := by
    rw [Chain.start_of_mem_groups hs hseeds.start hseeds.runs hm hg c' hc', hm,
      Option.isSome_some]
  rw [((hseeds.runs c hc).below hbelow).2.1.not_explicit hmodule] at hchosen
  cases hchosen

/-- A tree of chains that agree about their first hop does not fork at default instances. -/
theorem grow_unforked (hs : s.Reachable) (hagrees : Chain.Agrees chains) : tree.Unforked s := by
  obtain ⟨hobject, hhangs⟩ := hseeds.hangs hs.coherent hgrow
  induction hhangs generalizing height chains y with
  | @node hop branches _ _ _ ih =>
    refine .node (fun m hm => ?_) (fun b => explicit_hop_of_grow hseeds hgrow) fun b hb => ?_
    · exact exists_only_branch hseeds hgrow hs hagrees (hobject ▸ hm)
    · obtain ⟨first, others, _, rfl, heq, hbranches⟩ := exists_node_of_grow hgrow
      cases heq
      obtain ⟨lower, group, rfl, hg, hb'⟩ := hbranches b hb
      obtain ⟨z, -, hlower⟩ := hseeds.group hg
      exact ih b hb hlower hb' (Chain.agrees_of_mem_groups hg) (hlower.hangs hs.coherent hb').1

end Seeds

end Grow

/-- What is left of a tree that does not fork at default instances starts at a module. -/
theorem isSome_frame_of_reduce {s : Store} (hs : s.Coherent) {tree t : HopTree}
    (hunforked : tree.Unforked s) (hhangs : tree.Hangs s)
    (htop : s.frame tree.hop.object = none → tree.hop.explicit = false)
    (hok : tree.reduce = some t) : (s.frame t.hop.object).isSome := by
  fun_induction reduce tree with
  | case1 hop branch hexplicit =>
    cases hok
    rw [Option.isSome_iff_ne_none]
    intro hf
    rw [show hop.explicit = false from htop hf] at hexplicit
    cases hexplicit
  | case2 hop branch hnot ih =>
    cases hunforked with
    | node _ hchosen hbranches =>
    cases hhangs with
    | node _ _ hhangs =>
    have hb := List.mem_singleton_self branch
    refine ih (hbranches branch hb) (hhangs branch hb) (fun hf => ?_) hok
    exact Bool.eq_false_iff.2 fun hexplicit => hnot (hchosen branch hb hf hexplicit)
  | case3 hop branches hbranches hkeep =>
    cases hok
    rw [Option.isSome_iff_ne_none]
    intro hf
    rw [show hop.explicit = false from htop hf, Bool.false_or, decide_eq_true_eq] at hkeep
    cases hunforked with
    | node hdefault _ _ =>
    cases hhangs with
    | node habove _ _ =>
    -- There is a branch below the instance, and so there is only one.
    obtain ⟨b, hb⟩ := List.exists_mem_of_length_pos (Nat.lt_trans Nat.zero_lt_one hkeep)
    obtain ⟨only, rfl, -⟩ := hdefault _ (hs.default_of_above? (habove b hb) hf)
    exact absurd hkeep (Nat.lt_irrefl 1)
  | case4 hop branches hbranches hdrop => cases hok

/-- Nothing is cut off where chains from a default instance on do not agree. -/
theorem reduce_grow_eq_self {s : Store} (hs : s.Coherent) {P : Handle → String → Prop}
    {request : String} {y : Handle} {height : Nat} {chains : List Chain} {tree : HopTree}
    (hseeds : Seeds s P y height chains) {m : Handle} (hm : s.frame m = some (false, some y))
    (hagrees : ¬ Chain.Agrees chains) (hgrow : grow request height chains = some tree) :
    tree.reduce = some tree := by
  have hmany := Chain.one_lt_length_groups hs hseeds.start hseeds.runs hm hagrees
  obtain ⟨first, others, branches, rfl, rfl, -⟩ := exists_node_of_grow hgrow
  obtain ⟨lower, rfl⟩ := Nat.exists_eq_add_one.2 (hseeds.height_pos hs hm List.mem_cons_self)
  rw [(branches_of_grow hgrow).length_eq] at hmany
  exact IsTop.reduce_eq (Or.inr hmany)

end HopTree

end Interconnect
