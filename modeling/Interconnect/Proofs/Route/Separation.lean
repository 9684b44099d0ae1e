import Interconnect.Proofs.Route.Joining
import Interconnect.Proofs.Store.Hierarchy
import Mathlib.Data.List.Flatten
import Mathlib.Logic.Relation

/-!
# Hops at one place are told apart by their names

A tree that hangs in the hierarchy passes a place twice only where chains were grouped by their
names.  Then the hops at that place have different names, and each of them is the name of a hop of
some chain there.

The chains that a group is made of agree about names as far as it matters.  Either some of them
have the name of the group and the others have none, or all of them have it; and a chain that has a
name at its first hop goes no farther than from a default instance to its module.  `Called` and
`AllNamed` say this of a group, and `Handed` of two hops in a row.
-/

namespace Interconnect

namespace Store

/-! ## Above and below -/

/-- One place is the other or lies below it. -/
def Below (s : Store) : Handle → Handle → Prop :=
  Relation.ReflTransGen fun lower upper => s.above? lower = some (some upper)

/-- What is above a place is on its climb. -/
theorem mem_of_below {s : Store} {x y : Handle} (h : s.Below x y) {path : List Handle}
    (hc : Climbs s.above? x path) : y ∈ path := by
  induction h using Relation.ReflTransGen.head_induction_on generalizing path with
  | refl => exact List.mem_of_head? hc.head?_eq
  | @head x z hstep _ ih =>
    cases hc with
    | root hroot =>
      rw [hroot] at hstep
      cases hstep
    | step hstep' hrest =>
      rw [hstep'] at hstep
      cases hstep
      exact List.mem_cons_of_mem x (ih hrest)

/-- No place is above itself. -/
theorem Reachable.not_below {s : Store} (hs : s.Reachable) {x y : Handle}
    (hstep : s.above? x = some (some y)) : ¬ s.Below y x := by
  intro hbelow
  obtain ⟨path, hc⟩ := hs.rooted x (by rw [hstep, Option.isSome_some])
  cases hc with
  | root hroot =>
    rw [hroot] at hstep
    cases hstep
  | @step _ _ rest hstep' hrest =>
    rw [hstep'] at hstep
    cases hstep
    exact (List.nodup_cons.1 (Climbs.step hstep' hrest).nodup).1 (mem_of_below hbelow hrest)

/-- Nothing lies below two places that are directly below one. -/
theorem Reachable.eq_of_below {s : Store} (hs : s.Reachable) {x y y' z : Handle}
    (hy : s.above? y = some (some x)) (hy' : s.above? y' = some (some x)) (h : s.Below z y)
    (h' : s.Below z y') : y = y' := by
  have hunique : Relator.RightUnique fun lower upper => s.above? lower = some (some upper) := by
    intro a b c hb hc
    rw [hb] at hc
    cases hc
    rfl
  -- Otherwise the one is below the other, and so `x` is below itself.
  have hne : ∀ {a b : Handle}, s.above? a = some (some x) → s.above? b = some (some x) →
      s.Below a b → a = b := by
    intro a b ha hb hab
    rcases Relation.ReflTransGen.cases_head hab with heq | ⟨c, hc, hcb⟩
    · exact heq
    · rw [ha] at hc
      cases hc
      exact absurd hcb (hs.not_below hb)
  rcases Relation.ReflTransGen.total_of_right_unique hunique h h' with hyy | hyy
  · exact hne hy hy' hyy
  · exact (hne hy' hy hyy).symm

/-- What is directly above a module is its default instance. -/
theorem Coherent.frame_of_above? {s : Store} (hs : s.Coherent) {x y : Handle}
    {f : Bool × Option Handle} (hf : s.frame x = some f) (h : s.above? x = some (some y)) :
    s.frame x = some (false, some y) := by
  obtain ⟨r, d⟩ := f
  have hd := above?_of_frame hf
  rw [h] at hd
  cases hd
  cases r with
  | false => exact hf
  | true => cases (hs.resource hf).1

/-- A default instance is no module. -/
theorem Coherent.frame_default {s : Store} (hs : s.Coherent) {m inst : Handle}
    (hm : s.frame m = some (false, some inst)) : s.frame inst = none := by
  cases hf : s.frame inst with
  | none => rfl
  | some f =>
    have htarget := Chain.target_of_default hs hm
    rw [target_eq_none_of_frame hf] at htarget
    cases htarget

/-- Nothing is directly below a resource. -/
theorem Coherent.frame_ne_of_above? {s : Store} (hs : s.Coherent) {x y : Handle}
    (h : s.above? x = some (some y)) (d : Option Handle) : s.frame y ≠ some (true, d) := by
  intro hf
  obtain ⟨o, ho, habove⟩ := Option.bind_eq_some_iff.1 h
  unfold Object.above? at habove
  split at habove
  · rename_i m hm
    -- What is above a module is its default instance.
    have hdefault := frame_of_module ho hm
    rw [Option.some.inj habove] at hdefault
    have hx := hs.frame_of_above? hdefault h
    rw [hs.frame_default hx] at hf
    cases hf
  · rename_i i hi
    have htarget : s.target .child x = some y :=
      target_eq_some_iff.2 ⟨o, ho, Object.target_child_eq_some.2 ⟨i, hi, Option.some.inj habove⟩⟩
    have hmem := (hs.linked .child).mem_links.2 htarget
    rw [(hs.resource hf).2 .child rfl] at hmem
    cases hmem
  · cases habove

end Store

namespace HopTree

/-! ## Places of a tree -/

/-- A part of a tree has some of its hops. -/
theorem Within.hops_sublist {t tree : HopTree} (h : Within t tree) : t.hops.Sublist tree.hops := by
  induction h with
  | refl => exact .refl _
  | @branch b hop branches hb _ ih =>
    have hsub := (List.singleton_sublist.2 hb).flatMap hops
    rw [List.flatMap_singleton] at hsub
    rw [hops_node]
    exact (ih.trans hsub).cons hop

section Hangs

variable {s : Store} {t : HopTree} {hop : Hop}

/-- A part of a tree that hangs in the hierarchy hangs in it. -/
theorem Within.hangs {tree : HopTree} (h : Within t tree) (htree : tree.Hangs s) : t.Hangs s := by
  induction h with
  | refl => exact htree
  | branch hb _ ih =>
    cases htree with
    | node _ _ hbranches => exact ih (hbranches _ hb)

/-- A branch lies directly below its hop. -/
theorem Within.above?_eq {tree b : HopTree} {branches : List HopTree}
    (h : Within (.node hop branches) tree) (htree : tree.Hangs s) (hb : b ∈ branches) :
    s.above? b.hop.object = some (some hop.object) := by
  cases h.hangs htree with
  | node habove _ _ => exact habove b hb

/-- Every hop of a tree that hangs is at or below the place of the topmost one. -/
theorem Hangs.below_top (ht : t.Hangs s) (hp : t.Passes hop) : s.Below hop.object t.hop.object := by
  induction hp with
  | top => exact .refl
  | branch hb _ ih =>
    cases ht with
    | node habove _ hbranches => exact (ih (hbranches _ hb)).tail (habove _ hb)

variable (hs : s.Reachable)

include hs

/-- The hops in the branches are at other places than the topmost one. -/
theorem Hangs.ne_top {top : Hop} {branches : List HopTree}
    (ht : (HopTree.node top branches).Hangs s) {b : HopTree} (hb : b ∈ branches)
    (hp : b.Passes hop) : hop.object ≠ top.object := by
  intro heq
  cases ht with
  | node habove _ hbranches =>
    refine hs.not_below (habove b hb) ?_
    rw [← heq]
    exact (hbranches b hb).below_top hp

/-- A hop at the topmost place is the topmost one. -/
theorem Hangs.eq_top (ht : t.Hangs s) (hp : t.Passes hop) (heq : hop.object = t.hop.object) :
    hop = t.hop := by
  cases hp with
  | top => rfl
  | branch hb hp => exact absurd heq (ht.ne_top hs hb hp)

end Hangs

end HopTree

/-! ## Names along a chain -/

/-- What hops in a row say.  A module has the name of its default instance, forced or not, and the
caller did not choose the instance.  Above an instance there is no name, and if the caller chose the
instance then what is above it counts as chosen, too. -/
structure Handed (s : Store) (upper lower : Hop) : Prop where
  name_eq : (s.frame lower.object).isSome → upper.name = lower.name
  forced_eq : (s.frame lower.object).isSome → upper.forced = lower.forced
  not_explicit : (s.frame lower.object).isSome → upper.explicit = false
  name_eq_none : s.frame lower.object = none → upper.name = none
  explicit : s.frame lower.object = none → lower.explicit = true → upper.explicit = true

namespace Chain

/-- The chain goes down the hierarchy, with names as they are handed up. -/
structure Runs (s : Store) (c : Chain) : Prop where
  descends : c.Descends s
  handed : (c.head :: c.tail).IsChain (Handed s)

theorem Runs.below {s : Store} {c c' : Chain} (hc : c.Runs s) (h : c.below? = some c') :
    s.above? c'.head.object = some (some c.head.object) ∧ Handed s c.head c'.head ∧ c'.Runs s := by
  obtain ⟨hdescends, hhanded⟩ := hc
  obtain ⟨habove, hbelow⟩ := hdescends.below h
  rw [below?_eq_some.1 h] at hhanded
  obtain ⟨hfirst, hrest⟩ := List.isChain_cons_cons.1 hhanded
  exact ⟨habove, hfirst, hbelow, hrest⟩

/-- A chain that has a name at its first hop goes no farther than to the module of a default
instance, where it has that name, too. -/
theorem Runs.tail_of_name {s : Store} (hs : s.Coherent) {c : Chain} (hc : c.Runs s) {n : String}
    (hn : c.head.name = some n) :
    ∀ hop ∈ c.tail, hop.name = some n ∧ s.frame hop.object = some (false, some c.head.object) := by
  cases hbelow : c.below? with
  | none => simp [below?_eq_none.1 hbelow]
  | some c' =>
    obtain ⟨habove, hhanded, hrest⟩ := hc.below hbelow
    have hmodule : c'.head.name = some n ∧
        s.frame c'.head.object = some (false, some c.head.object) := by
      cases hf : s.frame c'.head.object with
      | none =>
        rw [hhanded.name_eq_none hf] at hn
        cases hn
      | some f =>
        have hsome : (s.frame c'.head.object).isSome := by rw [hf, Option.isSome_some]
        rw [← hf]
        exact ⟨(hhanded.name_eq hsome).symm.trans hn, hs.frame_of_above? hf habove⟩
    have hend : c'.tail = [] := by
      rw [← below?_eq_none]
      cases hbelow' : c'.below? with
      | none => rfl
      | some c'' =>
        -- What is below a module is an instance, which leaves the module without a name.
        obtain ⟨habove', hhanded', -⟩ := hrest.below hbelow'
        cases hf : s.frame c''.head.object with
        | none =>
          rw [hhanded'.name_eq_none hf] at hmodule
          cases hmodule.1
        | some f =>
          have hnone := hs.frame_default (hs.frame_of_above? hf habove')
          rw [hnone] at hmodule
          cases hmodule.2
    rw [below?_eq_some.1 hbelow, hend]
    simpa using hmodule

/-! ## Groups -/

/-- Some of the chains have the name at their first hop, and none of them has another. -/
structure Called (n : String) (chains : List Chain) : Prop where
  supplied : ∃ c ∈ chains, c.head.name = some n
  only : ∀ c ∈ chains, ∀ m, c.head.name = some m → m = n

/-- All chains have the name at their first hop. -/
def AllNamed (n : String) (chains : List Chain) : Prop :=
  ∀ c ∈ chains, c.head.name = some n

/-- No two of the chains have different names at their first hop. -/
def Agrees (chains : List Chain) : Prop :=
  ∀ c ∈ chains, ∀ c' ∈ chains, ∀ {m n : String}, c.head.name = some m → c'.head.name = some n →
    m = n

theorem Called.agrees {n : String} {chains : List Chain} (hn : Called n chains) : Agrees chains :=
  fun c hc c' hc' _ _ hm hk => (hn.only c hc _ hm).trans (hn.only c' hc' _ hk).symm

/-- The one group stands before the other: it starts at a smaller place, or at the same place with a
smaller name, and then the other has no chain without a name. -/
inductive GroupsAscend (g g' : List Chain) : Prop where
  | places {c c' : Chain} : c ∈ g → c' ∈ g' → c.head.object < c'.head.object → GroupsAscend g g'
  | names {m n : String} : (∀ c ∈ g, ∀ c' ∈ g', c.head.object = c'.head.object) → m < n →
    Called m g → Called n g' → AllNamed n g' → GroupsAscend g g'

/-- The groups start at different places or have different names, and then one of them has no
chain without a name. -/
inductive GroupsApart (g g' : List Chain) : Prop where
  | places {c c' : Chain} : c ∈ g → c' ∈ g' → c.head.object ≠ c'.head.object → GroupsApart g g'
  | names {m n : String} : m ≠ n → Called m g → Called n g' → AllNamed m g ∨ AllNamed n g' →
    GroupsApart g g'

instance : Std.Symm GroupsApart where
  symm _ _ h := by
    cases h with
    | places hc hc' hne => exact .places hc' hc hne.symm
    | names hne hm hn hall => exact .names hne.symm hn hm hall.symm

theorem GroupsAscend.apart {g g' : List Chain} (h : GroupsAscend g g') : GroupsApart g g' := by
  cases h with
  | places hc hc' hlt => exact .places hc hc' (Nat.ne_of_lt hlt)
  | names _ hlt hm hn hall =>
    exact .names (fun heq => Std.Irrefl.irrefl _ (heq ▸ hlt)) hm hn (Or.inr hall)

theorem byName_ascending {chains : List Chain} (hone : OneStart chains) :
    (byName chains).Pairwise GroupsAscend := by
  obtain ⟨object, hobject⟩ := hone
  unfold byName
  split
  · exact List.pairwise_singleton _ _
  · rename_i smallest others hnames
    have hlt := pairwise_ascending (chains.filterMap fun c => c.head.name)
    rw [hnames] at hlt
    have hcalled : ∀ n ∈ smallest :: others,
        Called n (chains.filter fun c => c.head.name.getD smallest = n) := by
      intro n hn
      rw [← hnames, mem_ascending] at hn
      obtain ⟨c, hc, hname⟩ := List.mem_filterMap.1 hn
      refine ⟨⟨c, List.mem_filter.2 ⟨hc, by simp [hname]⟩, hname⟩, fun c' hc' m hm => ?_⟩
      simpa [hm] using (List.mem_filter.1 hc').2
    rw [List.pairwise_map]
    refine hlt.imp_of_mem fun {m n} hm hn hmn => ?_
    have hother : smallest ≠ n := by
      rintro rfl
      rcases List.mem_cons.1 hm with rfl | hm
      · exact absurd hmn (Std.Irrefl.irrefl m)
      · exact Std.Asymm.asymm _ _ hmn ((List.pairwise_cons.1 hlt).1 m hm)
    refine .names (fun c hc c' hc' => ?_) hmn (hcalled m hm) (hcalled n hn) fun c hc => ?_
    · rw [hobject c (List.mem_filter.1 hc).1, hobject c' (List.mem_filter.1 hc').1]
    · have hname := (List.mem_filter.1 hc).2
      cases hhead : c.head.name with
      | none => simp [hhead, hother] at hname
      | some k => simpa [hhead] using hname

/-- The groups below some chains stand in order. -/
theorem groups_ascending (chains : List Chain) : (groups chains).Pairwise GroupsAscend := by
  unfold groups
  refine List.pairwise_flatMap.2
    ⟨fun atObject hg => byName_ascending (oneStart_of_mem_byObject hg), ?_⟩
  unfold byObject
  rw [List.pairwise_map]
  refine (pairwise_ascending _).imp_of_mem fun {x y} hx hy hlt g hg g' hg' => ?_
  have hstart : ∀ {z : Handle} {g : List Chain}, z ∈ ascending ((chains.filterMap below?).map
      fun c => c.head.object) → g ∈ byName ((chains.filterMap below?).filter
        fun c => c.head.object = z) → ∃ c ∈ g, c.head.object = z := by
    intro z g hz hg
    obtain ⟨c, hc, hhead⟩ := List.mem_map.1 (mem_ascending.1 hz)
    have hne := ne_nil_of_mem_byName (List.ne_nil_of_mem (List.mem_filter.2
      ⟨hc, by simpa using hhead⟩)) hg
    obtain ⟨c', hc'⟩ := List.exists_mem_of_ne_nil g hne
    exact ⟨c', hc', by simpa using (List.mem_filter.1 (mem_of_mem_byName hg hc')).2⟩
  obtain ⟨c, hc, rfl⟩ := hstart hx hg
  obtain ⟨c', hc', rfl⟩ := hstart hy hg'
  exact .places hc hc' hlt

/-- The groups below some chains are apart. -/
theorem groups_pairwise (chains : List Chain) : (groups chains).Pairwise GroupsApart :=
  (groups_ascending chains).imp GroupsAscend.apart

section Below

variable {s : Store} (hs : s.Coherent) {chains : List Chain} {y : Handle}
  (hstart : ∀ c ∈ chains, c.head.object = y) (hruns : ∀ c ∈ chains, c.Runs s)

include hs hstart hruns

/-- Below chains that start at a default instance, the chains start at its module. -/
theorem start_of_mem_groups {m : Handle} (hm : s.frame m = some (false, some y))
    {group : List Chain} (hg : group ∈ groups chains) : ∀ c ∈ group, c.head.object = m := by
  intro c' hc'
  obtain ⟨c, hc, hbelow⟩ := exists_of_mem_groups hg hc'
  refine HopTree.eq_of_above?_default hs hm ?_
  rw [← hstart c hc]
  exact ((hruns c hc).below hbelow).1

/-- At the module of a default instance the chains have the names that they have at the default
instance. -/
theorem exists_upper_of_mem_groups {m : Handle} (hm : s.frame m = some (false, some y))
    {group : List Chain} (hg : group ∈ groups chains) {c' : Chain} (hc' : c' ∈ group) :
    ∃ c ∈ chains, c.below? = some c' ∧ c.head.name = c'.head.name := by
  obtain ⟨c, hc, hbelow⟩ := exists_of_mem_groups hg hc'
  refine ⟨c, hc, hbelow, ((hruns c hc).below hbelow).2.1.name_eq ?_⟩
  rw [start_of_mem_groups hs hstart hruns hm hg c' hc', hm, Option.isSome_some]

/-- Every chain goes on below a default instance. -/
theorem exists_lower_of_mem {m : Handle} (hm : s.frame m = some (false, some y)) {c : Chain}
    (hc : c ∈ chains) : ∃ c' group, c.below? = some c' ∧ group ∈ groups chains ∧ c' ∈ group ∧
      c.head.name = c'.head.name := by
  cases hbelow : c.below? with
  | none =>
    refine absurd hm (hstart c hc ▸ (hruns c hc).descends.lands c.head ?_ m)
    rw [below?_eq_none.1 hbelow]
    rfl
  | some c' =>
    obtain ⟨group, hg, hc'⟩ := exists_mem_groups hc hbelow
    refine ⟨c', group, rfl, hg, hc', ((hruns c hc).below hbelow).2.1.name_eq ?_⟩
    rw [start_of_mem_groups hs hstart hruns hm hg c' hc', hm, Option.isSome_some]

/-- Chains that agree about the name at a default instance form one group at its module. -/
theorem Agrees.exists_group (hagrees : Agrees chains) (hne : chains ≠ []) {m : Handle}
    (hm : s.frame m = some (false, some y)) : ∃ group, groups chains = [group] := by
  have hapart := groups_pairwise chains
  match hgroups : groups chains with
  | [] =>
    obtain ⟨c, hc⟩ := List.exists_mem_of_ne_nil chains hne
    obtain ⟨-, group, -, hg, -⟩ := exists_lower_of_mem hs hstart hruns hm hc
    rw [hgroups] at hg
    cases hg
  | [group] => exact ⟨group, rfl⟩
  | g :: g' :: rest =>
    have hg : g ∈ groups chains := by simp [hgroups]
    have hg' : g' ∈ groups chains := by simp [hgroups]
    rw [hgroups] at hapart
    cases (List.pairwise_cons.1 hapart).1 g' List.mem_cons_self with
    | places ha hb hne =>
      exact absurd ((start_of_mem_groups hs hstart hruns hm hg _ ha).trans
        (start_of_mem_groups hs hstart hruns hm hg' _ hb).symm) hne
    | names hne hk hk' _ =>
      obtain ⟨a, ha, hak⟩ := hk.supplied
      obtain ⟨b, hb, hbk⟩ := hk'.supplied
      obtain ⟨c, hc, -, hca⟩ := exists_upper_of_mem_groups hs hstart hruns hm hg ha
      obtain ⟨c', hc', -, hcb⟩ := exists_upper_of_mem_groups hs hstart hruns hm hg' hb
      exact absurd (hagrees c hc c' hc' (hca.trans hak) (hcb.trans hbk)) hne

/-- The group at the module of a default instance has the name that the chains have at the default
instance. -/
theorem called_of_mem_groups {n : String} (hcalled : Called n chains) {m : Handle}
    (hm : s.frame m = some (false, some y)) {group : List Chain} (hg : group ∈ groups chains) :
    Called n group := by
  obtain ⟨c, hc, hn⟩ := hcalled.supplied
  obtain ⟨only, hgroups⟩ :=
    hcalled.agrees.exists_group hs hstart hruns (List.ne_nil_of_mem hc) hm
  obtain ⟨c', group', -, hg', hc', hname⟩ := exists_lower_of_mem hs hstart hruns hm hc
  rw [hgroups, List.mem_singleton] at hg'
  refine ⟨⟨c', ?_, hname.symm.trans hn⟩, fun d' hd' k hk => ?_⟩
  · rw [hgroups, List.mem_singleton] at hg
    rw [hg, ← hg']
    exact hc'
  · obtain ⟨d, hd, -, heq⟩ := exists_upper_of_mem_groups hs hstart hruns hm hg hd'
    exact hcalled.only d hd k (heq.trans hk)

end Below

/-- A hop that joins chains with one name has it. -/
theorem name_jointHop_of_called {request n : String} {first : Chain} {others : List Chain}
    (hcalled : Called n (first :: others)) : (jointHop request first others).name = some n := by
  rcases name_jointHop request first others with ⟨hnone, -⟩ | ⟨c, hc, k, hk, heq⟩
  · obtain ⟨c, hc, hn⟩ := hcalled.supplied
    rw [hnone c hc] at hn
    cases hn
  · rw [heq, hcalled.only c hc k hk]

end Chain

/-! ## Growing -/

/-- Chains from `y` on that a tree of some height can be grown from.  Their names are from `P`. -/
structure Seeds (s : Store) (P : Handle → String → Prop) (y : Handle) (height : Nat)
    (chains : List Chain) : Prop where
  start : ∀ c ∈ chains, c.head.object = y
  runs : ∀ c ∈ chains, c.Runs s
  height : ∀ c ∈ chains, c.tail.length ≤ height
  supplied : ∀ c ∈ chains, ∀ hop ∈ c.head :: c.tail, ∀ n, hop.name = some n → P hop.object n

namespace Seeds

variable {s : Store} {P : Handle → String → Prop} {y : Handle} {height : Nat}
  {chains : List Chain}

/-- A tree can be grown from each group below. -/
theorem group (h : Seeds s P y (height + 1) chains) {group : List Chain}
    (hg : group ∈ Chain.groups chains) :
    ∃ z, s.above? z = some (some y) ∧ Seeds s P z height group := by
  obtain ⟨z, hz⟩ := Chain.oneStart_of_mem_groups hg
  have hof := fun c (hc : c ∈ group) => Chain.exists_of_mem_groups hg hc
  refine ⟨z, ?_, hz, fun c hc => ?_, fun c hc => ?_, fun c hc => ?_⟩
  · obtain ⟨c, hc⟩ := List.exists_mem_of_ne_nil group (Chain.ne_nil_of_mem_groups hg)
    obtain ⟨whole, hwhole, hbelow⟩ := hof c hc
    rw [← hz c hc, ← h.start whole hwhole]
    exact ((h.runs whole hwhole).below hbelow).1
  · obtain ⟨whole, hwhole, hbelow⟩ := hof c hc
    exact ((h.runs whole hwhole).below hbelow).2.2
  · obtain ⟨whole, hwhole, hbelow⟩ := hof c hc
    have hlength := h.height whole hwhole
    rw [Chain.below?_eq_some.1 hbelow, List.length_cons] at hlength
    exact Nat.le_of_succ_le_succ hlength
  · obtain ⟨whole, hwhole, hbelow⟩ := hof c hc
    intro hop hhop
    refine h.supplied whole hwhole hop ?_
    rw [Chain.below?_eq_some.1 hbelow]
    exact List.mem_cons_of_mem _ hhop

/-- The tree hangs from the place where the chains start. -/
theorem hangs (h : Seeds s P y height chains) (hs : s.Coherent) {request : String}
    {tree : HopTree} (hgrow : HopTree.grow request height chains = some tree) :
    tree.hop.object = y ∧ tree.Hangs s := by
  obtain ⟨tree', hgrow', hobject, hhangs, -⟩ := HopTree.grow_spec hs request
    (HopTree.ne_nil_of_grow hgrow) h.start (fun c hc => (h.runs c hc).descends) h.height
  rw [hgrow] at hgrow'
  cases hgrow'
  exact ⟨hobject, hhangs⟩

end Seeds

namespace HopTree

/-- The hops are at different places, or they have different names, both from `P`. -/
def Apart (P : Handle → String → Prop) (a b : Hop) : Prop :=
  a.object = b.object → ∃ m n, m ≠ n ∧ a.name = some m ∧ b.name = some n ∧
    P a.object m ∧ P b.object n

/-- Growing at least one chain gives a node. -/
theorem exists_node_of_grow {request : String} {height : Nat} {chains : List Chain}
    {tree : HopTree} (hgrow : grow request height chains = some tree) :
    ∃ first others branches, chains = first :: others ∧
      tree = node (Chain.jointHop request first others) branches ∧
      ∀ b ∈ branches, ∃ lower group, height = lower + 1 ∧ group ∈ Chain.groups chains ∧
        grow request lower group = some b := by
  obtain ⟨first, others, rfl⟩ := List.exists_cons_of_ne_nil (ne_nil_of_grow hgrow)
  cases height with
  | zero =>
    cases hgrow
    exact ⟨first, others, [], rfl, rfl, nofun⟩
  | succ height =>
    cases hgrow
    refine ⟨first, others, _, rfl, rfl, fun b hb => ?_⟩
    obtain ⟨group, hg, hb⟩ := List.mem_filterMap.1 hb
    exact ⟨height, group, rfl, hg, hb⟩

/-- A tree starts with the name of its chains. -/
theorem name_of_grow {request n : String} {height : Nat} {chains : List Chain} {tree : HopTree}
    (hcalled : Chain.Called n chains) (hgrow : grow request height chains = some tree) :
    tree.hop.name = some n := by
  obtain ⟨first, others, branches, rfl, rfl, -⟩ := exists_node_of_grow hgrow
  exact Chain.name_jointHop_of_called hcalled

section Grow

variable {s : Store} (hs : s.Reachable) {request : String} {P : Handle → String → Prop}
  {height : Nat} {chains : List Chain} {y : Handle} {tree : HopTree}

include hs

/-- The topmost hop of chains with one name has that name. -/
theorem name_hop_of_called {n : String} (hseeds : Seeds s P y height chains)
    (hcalled : Chain.Called n chains) (hgrow : grow request height chains = some tree) :
    tree.hop.name = some n ∧ P tree.hop.object n := by
  obtain ⟨c, hc, hn⟩ := hcalled.supplied
  refine ⟨name_of_grow hcalled hgrow, ?_⟩
  rw [(hseeds.hangs hs.coherent hgrow).1, ← hseeds.start c hc]
  exact hseeds.supplied c hc c.head List.mem_cons_self n hn

/-- Where chains with one name go from a default instance to its module, the hops have that
name. -/
theorem name_of_called {n : String} (hseeds : Seeds s P y height chains)
    (hcalled : Chain.Called n chains) (hgrow : grow request height chains = some tree) {hop : Hop}
    (hp : tree.Passes hop)
    (hplace : hop.object = y ∨ s.frame hop.object = some (false, some y)) :
    hop.name = some n ∧ P hop.object n := by
  have htop := name_hop_of_called hs hseeds hcalled hgrow
  obtain ⟨hobject, hhangs⟩ := hseeds.hangs hs.coherent hgrow
  obtain ⟨first, others, branches, rfl, rfl, hbranches⟩ := exists_node_of_grow hgrow
  cases hp with
  | top => exact htop
  | @branch _ _ _ b hb hp =>
    have hne : hop.object ≠ y := hobject ▸ hhangs.ne_top hs hb hp
    have hframe := hplace.resolve_left hne
    obtain ⟨lower, group, rfl, hgroup, hgrow⟩ := hbranches b hb
    have hlower :=
      Chain.called_of_mem_groups hs.coherent hseeds.start hseeds.runs hcalled hframe hgroup
    obtain ⟨z, habove, hseeds'⟩ := hseeds.group hgroup
    obtain ⟨hbobject, hbhangs⟩ := hseeds'.hangs hs.coherent hgrow
    -- The hop is the topmost one of its branch, as nothing else there is at the module.
    have hmodule : hop.object = z :=
      (eq_of_above?_default hs.coherent hframe habove).symm
    rw [hbhangs.eq_top hs hp (hmodule.trans hbobject.symm)]
    exact name_hop_of_called hs hseeds' hlower hgrow

/-- What all chains with one name pass is a default instance and its module. -/
theorem place_of_allNamed {n : String} (hseeds : Seeds s P y height chains)
    (hnamed : Chain.AllNamed n chains) (hgrow : grow request height chains = some tree) {hop : Hop}
    (hp : tree.Passes hop) :
    hop.object = y ∨ s.frame hop.object = some (false, some y) := by
  obtain ⟨first, others, rfl, -, hrest⟩ := isJoint_of_passes ⟨y, hseeds.start⟩ hgrow hp
  obtain ⟨c, hc, hmem⟩ := (hrest first List.mem_cons_self).head_mem
  rw [Chain.object_jointHop]
  rcases List.mem_cons.1 hmem with heq | hmem
  · exact Or.inl (heq ▸ hseeds.start c hc)
  · have htail := (hseeds.runs c hc).tail_of_name hs.coherent (hnamed c hc) _ hmem
    exact Or.inr (hseeds.start c hc ▸ htail.2)

/-- The trees of groups that are apart have no hops at one place but such with different names. -/
theorem apart_of_groupsApart {x z z' : Handle} {g g' : List Chain}
    (hseeds : Seeds s P z height g) (hseeds' : Seeds s P z' height g')
    (hapart : Chain.GroupsApart g g') (habove : s.above? z = some (some x))
    (habove' : s.above? z' = some (some x)) {b b' : HopTree}
    (hb : grow request height g = some b) (hb' : grow request height g' = some b') {hop hop' : Hop}
    (hp : b.Passes hop) (hp' : b'.Passes hop') : Apart P hop hop' := by
  intro heq
  obtain ⟨rfl, hhangs⟩ := hseeds.hangs hs.coherent hb
  obtain ⟨rfl, hhangs'⟩ := hseeds'.hangs hs.coherent hb'
  -- A place lies in both trees only if they start at one place.
  have hsame : b.hop.object = b'.hop.object :=
    hs.eq_of_below habove habove' (hhangs.below_top hp) (heq ▸ hhangs'.below_top hp')
  cases hapart with
  | places hc hc' hne =>
    rw [hseeds.start _ hc, hseeds'.start _ hc'] at hne
    exact absurd hsame hne
  | @names m n hne hm hn hall =>
    have hplace : hop.object = b.hop.object ∨
        s.frame hop.object = some (false, some b.hop.object) := by
      rcases hall with hnamed | hnamed
      · exact place_of_allNamed hs hseeds hnamed hb hp
      · rw [heq, hsame]
        exact place_of_allNamed hs hseeds' hnamed hb' hp'
    obtain ⟨hname, hPm⟩ := name_of_called hs hseeds hm hb hp hplace
    rw [heq, hsame] at hplace
    obtain ⟨hname', hPn⟩ := name_of_called hs hseeds' hn hb' hp' hplace
    exact ⟨m, n, hne, hname, hname', hPm, hPn⟩

/-- The hops of a tree that chains grow into are apart. -/
theorem grow_apart (hseeds : Seeds s P y height chains)
    (hgrow : grow request height chains = some tree) : tree.hops.Pairwise (Apart P) := by
  induction height generalizing chains y tree with
  | zero =>
    cases chains with
    | nil => cases hgrow
    | cons first others =>
      cases hgrow
      rw [hops_node]
      exact List.pairwise_singleton _ _
  | succ height ih =>
    have hhangs := (hseeds.hangs hs.coherent hgrow).2
    cases chains with
    | nil => cases hgrow
    | cons first others =>
      cases hgrow
      rw [hops_node, List.pairwise_cons, List.pairwise_flatMap, List.pairwise_filterMap]
      refine ⟨fun hop hmem heq => ?_, fun b hb => ?_, ?_⟩
      · obtain ⟨b, hb, hmem⟩ := List.mem_flatMap.1 hmem
        exact absurd heq.symm (hhangs.ne_top hs hb (mem_hops.1 hmem))
      · obtain ⟨group, hg, hb⟩ := List.mem_filterMap.1 hb
        obtain ⟨z, -, hseeds'⟩ := hseeds.group hg
        exact ih hseeds' hb
      · refine (Chain.groups_pairwise _).imp_of_mem fun {g g'} hg hg' hapart b hb b' hb' hop hmem
          hop' hmem' => ?_
        obtain ⟨z, habove, hseeds'⟩ := hseeds.group hg
        obtain ⟨z', habove', hseeds''⟩ := hseeds.group hg'
        exact apart_of_groupsApart hs hseeds' hseeds'' hapart habove habove' hb hb'
          (mem_hops.1 hmem) (mem_hops.1 hmem')

end Grow

end HopTree

end Interconnect
