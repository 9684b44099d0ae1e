import Interconnect.Proofs.Request.Spanning
import Interconnect.Proofs.Route.Carrying
import Interconnect.Proofs.Route.Separation

/-!
# Where hops have from what they carry

An endpoint speaks for its place and for the default instance of its place.  There its hops carry
what it asks for: its name, whether the name is forced, and whether the signal is inverted.  Its
other hops are bare.  So what a hop of the tree carries comes from the endpoints that speak for the
place of the hop, and with different places, no two endpoints speak for one.
-/

namespace Interconnect

namespace Store

/-- What is at the place `x` speaks for `y`: this is the place itself or its default instance. -/
def SpeaksFor (s : Store) (x y : Handle) : Prop :=
  y = x ∨ s.frame x = some (false, some y)

/-- An endpoint has one place. -/
theorem IsPlace.unique {s : Store} {h x x' : Handle} (hx : s.IsPlace h x) (hx' : s.IsPlace h x') :
    x = x' := by
  cases hx with
  | itself hf =>
    cases hx' with
    | itself _ => rfl
    | inst ht _ =>
      rw [target_eq_none_of_frame hf] at ht
      cases ht
    | placement _ _ => rfl
  | inst ht hf =>
    cases hx' with
    | itself hf' =>
      rw [target_eq_none_of_frame hf'] at ht
      cases ht
    | inst ht' _ =>
      rw [ht] at ht'
      exact Option.some.inj ht'
    | placement ht' hf' =>
      rw [ht] at ht'
      cases ht'
      rw [hf] at hf'
      cases hf'
  | placement ht hf =>
    cases hx' with
    | itself _ => rfl
    | inst ht' hf' =>
      rw [ht] at ht'
      cases ht'
      rw [hf] at hf'
      cases hf'
    | placement _ _ => rfl

/-- Only one place speaks for another. -/
theorem SpeaksFor.unique {s : Store} (hs : s.Coherent) {h h' x x' y : Handle}
    (hx : s.IsPlace h x) (hx' : s.IsPlace h' x') (hy : s.SpeaksFor x y) (hy' : s.SpeaksFor x' y) :
    x = x' := by
  rcases hy with rfl | hm
  · rcases hy' with rfl | hm'
    · rfl
    · exact absurd hm' (Chain.not_default_of_isPlace hs hx x')
  · rcases hy' with rfl | hm'
    · exact absurd hm (Chain.not_default_of_isPlace hs hx' x)
    · have htarget := Chain.target_of_default hs hm
      rw [Chain.target_of_default hs hm'] at htarget
      exact (Option.some.inj htarget).symm

/-! ## Walks -/

/-- A walk by the kind of its place: a resource, another module, or an instance of a resource, which
is placed in a module. -/
inductive Speaks (s : Store) (e : Endpoint) (heading : Heading) (x : Handle) : List Hop → Prop where
  | resource : s.frame x = some (true, none) → Speaks s e heading x [e.hop heading x .endpoint]
  | ordinary {y : Handle} {path : List Handle} : s.frame x = some (false, some y) →
    Speaks s e heading x
      (e.hop heading x .endpoint :: e.hop heading y .doorstep
        :: e.hops heading (.beyond false) path)
  | placement {y : Handle} {path : List Handle} : s.frame x = none → (s.frame y).isSome →
    Speaks s e heading x
      (e.hop heading x .endpoint :: e.hop heading y (.beyond true)
        :: e.hops heading (.beyond false) path)

variable {s : Store} {e : Endpoint} {heading : Heading} {hops : List Hop} {x : Handle}

/-- A place that is no module is placed in one. -/
theorem IsPlace.exists_parent (hs : s.Coherent) {h : Handle} (hx : s.IsPlace h x)
    (hf : s.frame x = none) : ∃ y, s.above? x = some (some y) ∧ (s.frame y).isSome := by
  cases hx with
  | itself hf' | inst _ hf' =>
    rw [hf] at hf'
    cases hf'
  | placement ht hf' =>
    obtain ⟨y, hy⟩ := Option.isSome_iff_exists.1 (hs.placed ht hf')
    rw [target_child_eq] at hy
    obtain ⟨i, hi, hparent⟩ := Option.bind_eq_some_iff.1 hy
    obtain ⟨o, ho, hbody⟩ := Option.bind_eq_some_iff.1 hi
    have hinst := Object.instance?_eq_some.1 hbody
    obtain ⟨p, m, hp, hm, -⟩ := hs.wellFormed.parent ho hinst hparent
    refine ⟨y, ?_, ?_⟩
    · rw [above?_of_instance ho hinst, hparent]
    · rw [frame_of_module hp hm, Option.isSome_some]

theorem Walks.speaks (hs : s.Coherent) (hw : s.Walks e heading hops) :
    ∃ x, s.IsPlace e.object x ∧ s.Speaks e heading x hops := by
  cases hw with
  | @climb x path hplace hclimbs =>
    refine ⟨x, hplace, ?_⟩
    cases hf : s.frame x with
    | none =>
      obtain ⟨y, habove, hy⟩ := hplace.exists_parent hs hf
      rw [stageAbove, hf]
      cases hclimbs with
      | root hroot =>
        rw [hroot] at habove
        cases habove
      | step hstep hrest =>
        rw [hstep] at habove
        cases habove
        obtain ⟨rest, rfl⟩ := List.head?_eq_some_iff.1 hrest.head?_eq
        exact .placement hf hy
    | some f =>
      obtain ⟨r, d⟩ := f
      rw [stageAbove_of_frame hf]
      have habove := above?_of_frame hf
      cases r with
      | true =>
        obtain rfl := (hs.resource hf).1
        cases hclimbs with
        | root _ => exact .resource hf
        | step hstep _ =>
          rw [hstep] at habove
          cases habove
      | false =>
        obtain ⟨y, rfl, -⟩ := hs.ordinary hf
        cases hclimbs with
        | root hroot =>
          rw [hroot] at habove
          cases habove
        | step hstep hrest =>
          rw [hstep] at habove
          cases habove
          obtain ⟨rest, rfl⟩ := List.head?_eq_some_iff.1 hrest.head?_eq
          exact .ordinary hf

/-- A hop of a walk carries what the endpoint asks for if the place speaks for it, and it is bare
otherwise. -/
theorem Speaks.says_or_isBare (h : s.Speaks e heading x hops) {hop : Hop} (hhop : hop ∈ hops) :
    (s.SpeaksFor x hop.object ∧ hop.Says e) ∨ hop.IsBare := by
  cases h with
  | resource _ =>
    rw [List.mem_singleton.1 hhop]
    exact Or.inl ⟨Or.inl rfl, rfl, rfl, rfl⟩
  | ordinary hf =>
    rcases List.mem_cons.1 hhop with rfl | hhop
    · exact Or.inl ⟨Or.inl rfl, rfl, rfl, rfl⟩
    rcases List.mem_cons.1 hhop with rfl | hhop
    · exact Or.inl ⟨Or.inr hf, rfl, rfl, rfl⟩
    · exact Or.inr (e.isBare_of_mem_hops hhop).1
  | placement _ _ =>
    rcases List.mem_cons.1 hhop with rfl | hhop
    · exact Or.inl ⟨Or.inl rfl, rfl, rfl, rfl⟩
    rcases List.mem_cons.1 hhop with rfl | hhop
    · exact Or.inr ⟨rfl, rfl, rfl⟩
    · exact Or.inr (e.isBare_of_mem_hops hhop).1

/-- Wherever the place of an endpoint speaks for, the walk has a hop that carries what the endpoint
asks for. -/
theorem Speaks.exists_said (h : s.Speaks e heading x hops) {y : Handle} (hy : s.SpeaksFor x y) :
    ∃ hop ∈ hops, hop.object = y ∧ hop.Says e := by
  rcases hy with rfl | hm
  · cases h <;> exact ⟨_, List.mem_cons_self, rfl, rfl, rfl, rfl⟩
  · cases h with
    | resource hf | placement hf _ =>
      rw [hf] at hm
      cases hm
    | ordinary hf =>
      rw [hf] at hm
      cases hm
      exact ⟨_, List.mem_cons_of_mem _ List.mem_cons_self, rfl, rfl, rfl, rfl⟩

/-- Names and choices are handed up along a walk. -/
theorem Speaks.handed (hs : s.Coherent) (h : s.Speaks e heading x hops) :
    hops.IsChain fun lower upper => Handed s upper lower := by
  -- From a hop on that is bare, or that nothing is handed up from, all hops are bare.
  have hrest : ∀ {lower : Hop} {path : List Handle},
      ((s.frame lower.object).isSome → lower.IsBare) →
      (s.frame lower.object = none → lower.explicit = false) →
      (lower :: e.hops heading (.beyond false) path).IsChain
        fun lower upper => Handed s upper lower := by
    intro lower path hlower hexplicit
    refine (List.pairwise_cons.2 ⟨fun upper hupper => ?_,
      List.pairwise_of_forall_mem_list fun a ha b hb => ?_⟩).isChain
    · obtain ⟨hbare, hnot⟩ := e.isBare_of_mem_hops hupper
      exact ⟨fun h => hbare.name.trans (hlower h).name.symm,
        fun h => hbare.forced.trans (hlower h).forced.symm, fun _ => hnot, fun _ => hbare.name,
        fun hf hchosen => absurd hchosen (by rw [hexplicit hf]; nofun)⟩
    · obtain ⟨hbare, hnot⟩ := e.isBare_of_mem_hops ha
      obtain ⟨hbare', hnot'⟩ := e.isBare_of_mem_hops hb
      exact ⟨fun _ => hbare'.name.trans hbare.name.symm,
        fun _ => hbare'.forced.trans hbare.forced.symm, fun _ => hnot', fun _ => hbare'.name,
        fun _ hchosen => absurd hchosen (by rw [hnot]; nofun)⟩
  cases h with
  | resource _ => exact List.isChain_singleton _
  | ordinary hf =>
    have hnone := hs.frame_default hf
    refine List.isChain_cons_cons.2 ⟨⟨fun _ => rfl, fun _ => rfl, fun _ => rfl, fun h => ?_,
      fun h => ?_⟩, hrest (fun h => ?_) fun _ => rfl⟩
    · simp [Endpoint.hop, hf] at h
    · simp [Endpoint.hop, hf] at h
    · simp [Endpoint.hop, hnone] at h
  | placement hf hy =>
    refine List.isChain_cons_cons.2 ⟨⟨fun h => ?_, fun h => ?_, fun h => ?_, fun _ => rfl,
      fun _ _ => rfl⟩, hrest (fun _ => ⟨rfl, rfl, rfl⟩) fun h => ?_⟩
    · simp [Endpoint.hop, hf] at h
    · simp [Endpoint.hop, hf] at h
    · simp [Endpoint.hop, hf] at h
    · rw [Option.isSome_iff_ne_none] at hy
      exact absurd h hy

/-! ## Chains -/

/-- What a chain of an endpoint is, turned round, by the kind of the endpoint's place. -/
theorem IsChainOf.speaks (hs : s.Coherent) {e : Endpoint × Heading} {c : Chain}
    (hc : s.IsChainOf e c) :
    ∃ x, s.IsPlace e.1.object x ∧ s.Speaks e.1 e.2 x (c.head :: c.tail).reverse := by
  obtain ⟨hops, hw, hreverse⟩ := hc
  rw [← hreverse, List.reverse_reverse]
  exact hw.speaks hs

theorem IsChainOf.runs (hs : s.Coherent) {e : Endpoint × Heading} {c : Chain}
    (hc : s.IsChainOf e c) : c.Runs s := by
  obtain ⟨x, -, hspeaks⟩ := hc.speaks hs
  exact ⟨hc.descends hs, List.isChain_reverse.1 (hspeaks.handed hs)⟩

/-- An endpoint that speaks for `y` supplies the name. -/
def Supplies (s : Store) (ends : List (Endpoint × Heading)) (y : Handle) (n : String) : Prop :=
  ∃ e ∈ ends, ∃ x, s.IsPlace e.1.object x ∧ s.SpeaksFor x y ∧ e.1.givenName = some n

/-! ## Trees -/

section Tree

variable {request name : String} {ends : List (Endpoint × Heading)} {tree : HopTree}

/-- Chains of endpoints that start at one place can be grown from, with the names that the endpoints
supply. -/
theorem seeds_of_chains (hs : s.Coherent) {chains : List Chain} {root : Handle} {height : Nat}
    (hall : List.Forall₂ s.IsChainOf ends chains) (hroot : ∀ c ∈ chains, c.head.object = root)
    (hheight : ∀ c ∈ chains, c.tail.length ≤ height) :
    Seeds s (s.Supplies ends) root height chains := by
  refine ⟨hroot, fun c hc => ?_, hheight, ?_⟩
  · obtain ⟨e, -, hof⟩ := exists_left_of_mem hall hc
    exact hof.runs hs
  · intro c hc hop hhop n hn
    obtain ⟨e, he, hof⟩ := exists_left_of_mem hall hc
    obtain ⟨x, hx, hspeaks⟩ := hof.speaks hs
    rcases hspeaks.says_or_isBare (List.mem_reverse.2 hhop) with ⟨hfor, hsaid⟩ | hbare
    · exact ⟨e, he, x, hx, hfor, hsaid.name.symm.trans hn⟩
    · rw [hbare.name] at hn
      cases hn

/-- A tree of endpoints is what is left of one that is grown from chains with the names that the
endpoints supply. -/
theorem Reachable.exists_seeds (hs : s.Reachable)
    (hok : (s.spanningTree request name ends).result = .ok (some tree)) :
    ∃ root chains merged height, List.Forall₂ s.IsChainOf ends chains ∧
      Seeds s (s.Supplies ends) root height chains ∧
      HopTree.grow name height chains = some merged ∧ merged.reduce = some tree := by
  obtain ⟨chains, merged, height, hall, ⟨root, hroot⟩, hheight, hgrow, hreduce⟩ :=
    hs.exists_grow hok
  exact ⟨root, chains, merged, height, hall, seeds_of_chains hs.coherent hall hroot hheight, hgrow,
    hreduce⟩

/-- A flag is set at a hop of the tree only if an endpoint that speaks for the place of the hop asks
for it. -/
theorem Reachable.exists_end_of_flag (hs : s.Reachable)
    (hok : (s.spanningTree request name ends).result = .ok (some tree)) (flag : Hop → Bool)
    (asks : Endpoint → Bool)
    (hjoint : ∀ {request : String} {first : Chain} {others : List Chain},
      flag (Chain.jointHop request first others) = true ↔
        ∃ c ∈ first :: others, flag c.head = true)
    (hsaid : ∀ {hop : Hop} {e : Endpoint}, hop.Says e → flag hop = asks e)
    (hbare : ∀ {hop : Hop}, hop.IsBare → flag hop = false) {hop : Hop} (hp : tree.Passes hop)
    (hflag : flag hop = true) :
    ∃ e ∈ ends, ∃ x, s.IsPlace e.1.object x ∧ s.SpeaksFor x hop.object ∧ asks e.1 = true := by
  obtain ⟨root, chains, merged, height, hall, hseeds, hgrow, hreduce⟩ := hs.exists_seeds hok
  obtain ⟨first, others, rfl, ⟨y, hy⟩, hrest⟩ := HopTree.isJoint_of_passes ⟨root, hseeds.start⟩
    hgrow ((HopTree.within_of_reduce hreduce).passes hp)
  obtain ⟨c, hc, hflag⟩ := hjoint.1 hflag
  obtain ⟨whole, hwhole, hmem⟩ := (hrest c hc).head_mem
  obtain ⟨e, he, hof⟩ := exists_left_of_mem hall hwhole
  obtain ⟨x, hx, hspeaks⟩ := hof.speaks hs.coherent
  rw [Chain.object_jointHop, hy first List.mem_cons_self, ← hy c hc]
  rcases hspeaks.says_or_isBare (List.mem_reverse.2 hmem) with ⟨hfor, h⟩ | h
  · exact ⟨e, he, x, hx, hfor, (hsaid h).symm.trans hflag⟩
  · rw [hbare h] at hflag
    cases hflag

end Tree

end Store

end Interconnect
