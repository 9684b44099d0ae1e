import Interconnect.Proofs.Route.Hanging

/-!
# What the hops of a tree are made of

Each hop of a merged tree joins the first hops of some rests of the chains, and each hop of a
chain is joined into one.  The joint hop is inverted or forced if one of the hops is, and it has
the name of one of them unless none has a name.
-/

namespace Interconnect

namespace Chain

/-- What is left of one of the chains from some hop on. -/
def IsRest (chains : List Chain) (c : Chain) : Prop :=
  ∃ whole ∈ chains, (c.head :: c.tail) <:+ (whole.head :: whole.tail)

theorem IsRest.of_mem {chains : List Chain} {c : Chain} (hc : c ∈ chains) : IsRest chains c :=
  ⟨c, hc, List.suffix_rfl⟩

/-- A rest of what lies below the first hops is a rest. -/
theorem IsRest.of_group {chains group : List Chain} (hg : group ∈ groups chains) {c : Chain}
    (hc : IsRest group c) : IsRest chains c := by
  obtain ⟨below, hbelow, hrest⟩ := hc
  obtain ⟨whole, hwhole, hstep⟩ := exists_of_mem_groups hg hbelow
  refine ⟨whole, hwhole, hrest.trans ?_⟩
  rw [← below?_eq_some.1 hstep]
  exact List.suffix_cons _ _

/-- The first hop of a rest is a hop of one of the chains. -/
theorem IsRest.head_mem {chains : List Chain} {c : Chain} (hc : IsRest chains c) :
    ∃ whole ∈ chains, c.head ∈ whole.head :: whole.tail := by
  obtain ⟨whole, hwhole, hrest⟩ := hc
  exact ⟨whole, hwhole, hrest.subset List.mem_cons_self⟩

/-! ## The fields of a joint hop -/

/-- A flag that `absorb` joins by or is set if it is set at one of the hops. -/
theorem flag_foldl_absorb (flag : Hop → Bool)
    (hflag : ∀ a b : Hop, flag (a.absorb b) = (flag a || flag b)) (hop : Hop)
    (chains : List Chain) :
    flag (chains.foldl (fun hop c => hop.absorb c.head) hop) = true ↔
      flag hop = true ∨ ∃ c ∈ chains, flag c.head = true := by
  induction chains generalizing hop with
  | nil => simp
  | cons c rest ih =>
    rw [List.foldl_cons, ih, hflag]
    simp only [Bool.or_eq_true, List.mem_cons, exists_eq_or_imp, or_assoc]

theorem inverted_jointHop {request : String} {first : Chain} {others : List Chain} :
    (jointHop request first others).inverted = true ↔
      ∃ c ∈ first :: others, c.head.inverted = true := by
  have hfold := flag_foldl_absorb Hop.inverted (fun _ _ => rfl) first.head others
  simp only [List.mem_cons, exists_eq_or_imp]
  exact hfold

theorem forced_jointHop {request : String} {first : Chain} {others : List Chain} :
    (jointHop request first others).forced = true ↔
      ∃ c ∈ first :: others, c.head.forced = true := by
  have hfold := flag_foldl_absorb Hop.forced (fun _ _ => rfl) first.head others
  simp only [List.mem_cons, exists_eq_or_imp]
  exact hfold

/-- The caller chose a joint hop only if one of the hops was chosen. -/
theorem exists_of_explicit_jointHop {request : String} {first : Chain} {others : List Chain}
    (h : (jointHop request first others).explicit = true) :
    ∃ c ∈ first :: others, c.head.explicit = true := by
  have hfold := (explicit_foldl_absorb first.head others).1 h
  simpa only [List.mem_cons, exists_eq_or_imp] using hfold

/-- A smaller name is one of the two. -/
theorem smallerName_eq (a b : Option String) : smallerName a b = a ∨ smallerName a b = b := by
  cases a with
  | none => cases b <;> simp [smallerName]
  | some a =>
    cases b with
    | none => simp [smallerName]
    | some b => by_cases h : b < a <;> simp [smallerName, h]

theorem smallerName_eq_none {a b : Option String} :
    smallerName a b = none ↔ a = none ∧ b = none := by
  cases a with
  | none => cases b <;> simp [smallerName]
  | some a =>
    cases b with
    | none => simp [smallerName]
    | some b => by_cases h : b < a <;> simp [smallerName, h]

theorem name_foldl_absorb (hop : Hop) (chains : List Chain) :
    let joint := chains.foldl (fun hop c => hop.absorb c.head) hop
    (joint.name = none ↔ hop.name = none ∧ ∀ c ∈ chains, c.head.name = none) ∧
      ∀ n, joint.name = some n → hop.name = some n ∨ ∃ c ∈ chains, c.head.name = some n := by
  induction chains generalizing hop with
  | nil => simp
  | cons c rest ih =>
    obtain ⟨hnone, hsome⟩ := ih (hop.absorb c.head)
    rw [List.foldl_cons]
    refine ⟨?_, fun n hn => ?_⟩
    · rw [hnone]
      simp only [Hop.absorb, smallerName_eq_none, List.mem_cons, forall_eq_or_imp, and_assoc]
    · rcases hsome n hn with h | ⟨c', hc', h⟩
      · rcases smallerName_eq hop.name c.head.name with heq | heq
        · exact Or.inl (heq.symm.trans h)
        · exact Or.inr ⟨c, List.mem_cons_self, heq.symm.trans h⟩
      · exact Or.inr ⟨c', List.mem_cons_of_mem c hc', h⟩

/-- The joint hop has the name of one of the hops, or the name of the request if none has one. -/
theorem name_jointHop (request : String) (first : Chain) (others : List Chain) :
    ((∀ c ∈ first :: others, c.head.name = none) ∧
      (jointHop request first others).name = some request) ∨
    ∃ c ∈ first :: others, ∃ n, c.head.name = some n ∧
      (jointHop request first others).name = some n := by
  obtain ⟨hnone, hsome⟩ := name_foldl_absorb first.head others
  unfold jointHop
  cases hname : (others.foldl (fun hop c => hop.absorb c.head) first.head).name with
  | none =>
    obtain ⟨hfirst, hothers⟩ := hnone.1 hname
    exact Or.inl ⟨by simpa using ⟨hfirst, hothers⟩, by simp [hname]⟩
  | some n =>
    refine Or.inr ?_
    rcases hsome n hname with h | ⟨c, hc, h⟩
    · exact ⟨first, List.mem_cons_self, n, h, by simp [hname]⟩
    · exact ⟨c, List.mem_cons_of_mem first hc, n, h, by simp [hname]⟩

end Chain

namespace HopTree

/-! ## The hops of a tree -/

/-- The hop joins the first hops of some rests of the chains that lie at one place. -/
def IsJoint (request : String) (chains : List Chain) (hop : Hop) : Prop :=
  ∃ first others, hop = Chain.jointHop request first others ∧
    Chain.OneStart (first :: others) ∧ ∀ c ∈ first :: others, Chain.IsRest chains c

/-- Each hop of the tree joins hops of the chains. -/
theorem isJoint_of_passes {request : String} {height : Nat} {chains : List Chain}
    {tree : HopTree} (hone : Chain.OneStart chains) (hgrow : grow request height chains = some tree)
    {hop : Hop} (hp : Passes tree hop) : IsJoint request chains hop := by
  induction height generalizing chains tree with
  | zero =>
    cases chains with
    | nil => cases hgrow
    | cons first others =>
      cases hgrow
      cases hp with
      | top => exact ⟨first, others, rfl, hone, fun c => .of_mem⟩
      | branch hb _ => cases hb
  | succ height ih =>
    cases chains with
    | nil => cases hgrow
    | cons first others =>
      cases hgrow
      cases hp with
      | top => exact ⟨first, others, rfl, hone, fun c => .of_mem⟩
      | branch hb hp =>
        obtain ⟨group, hgroup, hb⟩ := List.mem_filterMap.1 hb
        obtain ⟨first', others', rfl, hone', hrest⟩ :=
          ih (Chain.oneStart_of_mem_groups hgroup) hb hp
        exact ⟨first', others', rfl, hone', fun c hc => (hrest c hc).of_group hgroup⟩

/-- Each hop of a chain is joined into a hop of the tree. -/
theorem exists_joint_of_mem {request : String} {height : Nat} {chains : List Chain}
    {tree : HopTree} (hone : Chain.OneStart chains) (hgrow : grow request height chains = some tree)
    (hheight : ∀ c ∈ chains, c.tail.length ≤ height) {c : Chain} (hc : c ∈ chains) {hop : Hop}
    (hhop : hop ∈ c.head :: c.tail) :
    ∃ first others, Passes tree (Chain.jointHop request first others) ∧
      Chain.OneStart (first :: others) ∧ ∃ c' ∈ first :: others, c'.head = hop := by
  induction height generalizing chains tree c with
  | zero =>
    obtain ⟨first, others, rfl⟩ := List.exists_cons_of_ne_nil (List.ne_nil_of_mem hc)
    cases hgrow
    rw [List.length_eq_zero_iff.1 (Nat.le_zero.1 (hheight c hc)), List.mem_singleton] at hhop
    exact ⟨first, others, .top, hone, c, hc, hhop.symm⟩
  | succ height ih =>
    obtain ⟨first, others, rfl⟩ := List.exists_cons_of_ne_nil (List.ne_nil_of_mem hc)
    cases hgrow
    rcases List.mem_cons.1 hhop with rfl | hhop
    · exact ⟨first, others, .top, hone, c, hc, rfl⟩
    · cases hbelow : c.below? with
      | none =>
        rw [Chain.below?_eq_none.1 hbelow] at hhop
        cases hhop
      | some below =>
        rw [Chain.below?_eq_some.1 hbelow] at hhop
        obtain ⟨group, hgroup, hmem⟩ := Chain.exists_mem_groups hc hbelow
        obtain ⟨start, rest, rfl⟩ :=
          List.exists_cons_of_ne_nil (Chain.ne_nil_of_mem_groups hgroup)
        have hlower : ∀ c' ∈ start :: rest, c'.tail.length ≤ height := by
          intro c' hc'
          obtain ⟨whole, hwhole, hstep⟩ := Chain.exists_of_mem_groups hgroup hc'
          have hlength := hheight whole hwhole
          rw [Chain.below?_eq_some.1 hstep, List.length_cons] at hlength
          exact Nat.le_of_succ_le_succ hlength
        cases hb : grow request height (start :: rest) with
        | none => cases height <;> cases hb
        | some b =>
          obtain ⟨first', others', hpasses, hjoined⟩ :=
            ih (Chain.oneStart_of_mem_groups hgroup) hb hlower hmem hhop
          have hbranch : b ∈ (Chain.groups (first :: others)).filterMap (grow request height) :=
            List.mem_filterMap.2 ⟨_, hgroup, hb⟩
          exact ⟨first', others', .branch hbranch hpasses, hjoined⟩

/-! ## Parts of a tree -/

/-- The one tree is a part of the other. -/
inductive Within : HopTree → HopTree → Prop where
  | refl (t : HopTree) : Within t t
  | branch {t b : HopTree} {hop : Hop} {branches : List HopTree} :
    b ∈ branches → Within t b → Within t (.node hop branches)

/-- What is left of a tree is a part of it. -/
theorem within_of_reduce {tree t : HopTree} (hok : tree.reduce = some t) : Within t tree := by
  fun_induction reduce tree with
  | case1 hop branch hexplicit =>
    cases hok
    exact .refl _
  | case2 hop branch hnot ih => exact .branch (List.mem_singleton_self branch) (ih hok)
  | case3 hop branches hbranches hkeep =>
    cases hok
    exact .refl _
  | case4 hop branches hbranches hdrop => cases hok

theorem Within.trans {t t' tree : HopTree} (h : Within t t') (h' : Within t' tree) :
    Within t tree := by
  induction h' with
  | refl => exact h
  | branch hb _ ih => exact .branch hb ih

theorem Within.passes {t tree : HopTree} (h : Within t tree) {hop : Hop} (hp : Passes t hop) :
    Passes tree hop := by
  induction h with
  | refl => exact hp
  | branch hb _ ih => exact .branch hb ih

end HopTree

end Interconnect
