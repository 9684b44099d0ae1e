import Interconnect.Proofs.Request.Attribution
import Interconnect.Proofs.Request.Reporting

/-!
# The polarity of a signal at its endpoints

An endpoint that asks for the inverted signal gets one inverted pin: on itself if it is an instance
of a resource, and on the default instance of its module otherwise.  If the endpoints have different
places, the signal passes each place once, and so the inverted pins on the way from the declaration
down to an endpoint are as many as there are endpoints on that way that ask for inversion.

The way to one endpoint leads through the others above it.  So the polarity at an endpoint is the
one it asks for where no endpoint above it asks for inversion, and not in general.
-/

namespace Interconnect

/-- The part is an inverted pin. -/
def Part.inverts : Part → Bool
  | .pin _ inverted _ => inverted
  | _ => false

theorem Part.inverts_joined (net : Handle) (p : Part) : (p.joined net).inverts = p.inverts := by
  cases p <;> rfl

/-- Lists with different members of a kind have equally many of them if the members correspond. -/
theorem countP_eq_of_images {α β γ : Type} {xs : List α} {ys : List β} {p : α → Bool}
    {q : β → Bool} {f : α → γ} {g : β → γ} (hf : ((xs.filter p).map f).Nodup)
    (hg : ((ys.filter q).map g).Nodup)
    (h : ∀ z, (∃ x ∈ xs, p x = true ∧ f x = z) ↔ ∃ y ∈ ys, q y = true ∧ g y = z) :
    xs.countP p = ys.countP q := by
  have hperm : ((xs.filter p).map f).Perm ((ys.filter q).map g) := by
    refine (List.perm_ext_iff_of_nodup hf hg).2 fun z => ?_
    simpa only [List.mem_map, List.mem_filter, and_assoc] using h z
  have hlength := hperm.length_eq
  rwa [List.length_map, List.length_map, ← List.countP_eq_length_filter,
    ← List.countP_eq_length_filter] at hlength

/-- Corresponding lists have equally many of what corresponds. -/
theorem countP_eq_of_forall₂ {α β : Type} {R : α → β → Prop} {xs : List α} {ys : List β}
    (h : List.Forall₂ R xs ys) {p : α → Bool} {q : β → Bool} (hpq : ∀ x y, R x y → p x = q y) :
    xs.countP p = ys.countP q := by
  induction h with
  | nil => rfl
  | @cons x y xs ys hxy _ ih => rw [List.countP_cons, List.countP_cons, ih, hpq x y hxy]

/-- Above every hop of a tree but the topmost one there is a hop. -/
theorem HopTree.Hangs.exists_upper {s : Store} {t : HopTree} (ht : t.Hangs s) {hop : Hop}
    (hp : t.Passes hop) : hop = t.hop ∨
      ∃ upper, t.Passes upper ∧ s.above? hop.object = some (some upper.object) := by
  induction hp with
  | top => exact Or.inl rfl
  | @branch hop hop' branches b hb _ ih =>
    cases ht with
    | node habove _ hbranches =>
      rcases ih (hbranches b hb) with rfl | ⟨upper, hupper, hstep⟩
      · exact Or.inr ⟨hop, .top, habove b hb⟩
      · exact Or.inr ⟨upper, .branch hb hupper, hstep⟩

namespace Store

/-! ## Where the pin of an endpoint is -/

/-- The default instance of a module that has one, and anything else itself. -/
def siteOf (s : Store) (h : Handle) : Handle :=
  ((s.frame h).bind Prod.snd).getD h

theorem siteOf_of_frame {s : Store} {x y : Handle} {r : Bool} (hf : s.frame x = some (r, some y)) :
    s.siteOf x = y := by
  rw [siteOf, hf]
  rfl

theorem siteOf_of_frame_eq_none {s : Store} {x : Handle} (hf : s.frame x = none) :
    s.siteOf x = x := by
  rw [siteOf, hf]
  rfl

/-- The site of an endpoint is that of its place. -/
theorem IsPlace.siteOf_eq {s : Store} (hs : s.Coherent) {h x : Handle} (hx : s.IsPlace h x) :
    s.siteOf h = s.siteOf x := by
  cases hx with
  | itself _ => rfl
  | placement _ _ => rfl
  | inst ht hf =>
    obtain ⟨i, rfl, hlinks, -⟩ := hs.ordinary hf
    have hmem : h ∈ s.links .placement x := (hs.linked .placement).mem_links.2 ht
    rw [hlinks, List.mem_singleton] at hmem
    rw [hmem, siteOf_of_frame hf, siteOf_of_frame_eq_none (hs.frame_default hf)]

/-- A place speaks for its site. -/
theorem speaksFor_siteOf {s : Store} (hs : s.Coherent) (x : Handle) :
    s.SpeaksFor x (s.siteOf x) := by
  cases hf : s.frame x with
  | none => exact Or.inl (siteOf_of_frame_eq_none hf)
  | some f =>
    obtain ⟨r, d⟩ := f
    cases d with
    | none => exact Or.inl (by rw [siteOf, hf]; rfl)
    | some y =>
      refine Or.inr ?_
      rw [siteOf_of_frame hf]
      exact hs.frame_of_above? hf (above?_of_frame hf)

/-- An instance that a place speaks for is its site. -/
theorem SpeaksFor.eq_siteOf {s : Store} {x y : Handle} (h : s.SpeaksFor x y)
    (hy : s.frame y = none) : s.siteOf x = y := by
  rcases h with rfl | hf
  · exact siteOf_of_frame_eq_none hy
  · exact siteOf_of_frame hf

/-- A climb that does not start at a default instance passes an object if it passes the site of
the object. -/
theorem siteOf_mem_iff {s : Store} (hs : s.Coherent) {x : Handle} {path : List Handle}
    (hc : Climbs s.above? x path) (hx : ∀ m, s.frame m ≠ some (false, some x)) (h : Handle) :
    s.siteOf h ∈ path ↔ h ∈ path := by
  cases hf : s.frame h with
  | none => rw [siteOf_of_frame_eq_none hf]
  | some f =>
    obtain ⟨r, d⟩ := f
    cases d with
    | none =>
      rw [siteOf, hf]
      rfl
    | some y =>
      have habove := above?_of_frame hf
      have hdefault := hs.frame_of_above? hf habove
      rw [siteOf_of_frame hf]
      constructor
      · intro hmem
        obtain ⟨i, hi, hmodule⟩ := exists_instance_of_target (Chain.target_of_default hs hdefault)
        obtain ⟨o, ho, hbody⟩ := Option.bind_eq_some_iff.1 hi
        rw [← hmodule]
        refine hs.module_mem_of_mem ho (Object.instance?_eq_some.1 hbody) hc ?_ hmem
        rintro rfl
        exact hx h hdefault
      · intro hmem
        have hrest := hc.of_mem hmem
        have hy := mem_of_below (Relation.ReflTransGen.single habove) hrest
        exact (List.dropWhile_suffix _).subset hy

/-- An endpoint's place is in the hierarchy. -/
theorem IsPlace.isSome_above? {s : Store} {h x : Handle} (hx : s.IsPlace h x) :
    (s.above? x).isSome := by
  cases hx with
  | itself hf => rw [above?_of_frame (r := _) hf, Option.isSome_some]
  | inst _ hf => rw [above?_of_frame hf, Option.isSome_some]
  | placement ht _ =>
    obtain ⟨i, hi, -⟩ := exists_instance_of_target ht
    obtain ⟨o, ho, hbody⟩ := Option.bind_eq_some_iff.1 hi
    rw [above?_of_instance ho (Object.instance?_eq_some.1 hbody), Option.isSome_some]

/-! ## Trees of endpoints with different places -/

/-- The endpoints have different places. -/
def PlacesApart (s : Store) (e e' : Endpoint × Heading) : Prop :=
  ∀ x, s.IsPlace e.1.object x → ¬ s.IsPlace e'.1.object x

instance (s : Store) : Std.Symm s.PlacesApart where
  symm _ _ h x hx hx' := h x hx' hx

section Tree

variable {s : Store} {request name : String} {ends : List (Endpoint × Heading)}
  (hapart : ends.Pairwise s.PlacesApart)

include hapart

/-- Endpoints with one place are the same. -/
theorem eq_of_isPlace {e e' : Endpoint × Heading} (he : e ∈ ends) (he' : e' ∈ ends) {x : Handle}
    (hx : s.IsPlace e.1.object x) (hx' : s.IsPlace e'.1.object x) : e = e' := by
  by_contra hne
  exact hapart.forall he he' hne x hx hx'

variable (hs : s.Reachable)

include hs

/-- A tree passes each place once. -/
theorem nodup_hops {root : Handle} {height : Nat} {chains : List Chain} {merged : HopTree}
    (hseeds : Seeds s (s.Supplies ends) root height chains)
    (hgrow : HopTree.grow name height chains = some merged) :
    (merged.hops.map Hop.object).Nodup := by
  rw [List.Nodup, List.pairwise_map]
  refine (HopTree.grow_apart hs hseeds hgrow).imp fun {a b} hab heq => ?_
  obtain ⟨m, n, hne, -, -, ⟨e, he, x, hx, hy, hm⟩, e', he', x', hx', hy', hn⟩ := hab heq
  rw [← heq] at hy'
  obtain rfl := hy.unique hs.coherent hx hx' hy'
  obtain rfl := eq_of_isPlace hapart he he' hx hx'
  rw [hm] at hn
  exact hne (Option.some.inj hn)

variable {tree : HopTree} (hok : (s.spanningTree request name ends).result = .ok (some tree))

include hok

/-- A hop at an instance is inverted if it is the site of an endpoint that asks for inversion. -/
theorem inverted_iff {hop : Hop} (hp : tree.Passes hop) (hf : s.frame hop.object = none) :
    hop.inverted = true ↔
      ∃ e ∈ ends, e.1.inverted = true ∧ s.siteOf e.1.object = hop.object := by
  constructor
  · intro hinverted
    obtain ⟨e, he, x, hx, hfor, hasks⟩ := hs.exists_end_of_flag hok Hop.inverted
      Endpoint.inverted Chain.inverted_jointHop (fun h => h.inverted) (fun h => h.inverted) hp
      hinverted
    exact ⟨e, he, hasks, (hx.siteOf_eq hs.coherent).trans (hfor.eq_siteOf hf)⟩
  · rintro ⟨e, he, hasks, hsite⟩
    obtain ⟨root, chains, merged, height, hall, hseeds, hgrow, hreduce⟩ := hs.exists_seeds hok
    obtain ⟨c, hc, hof⟩ := exists_right_of_mem hall he
    obtain ⟨x, hx, hspeaks⟩ := hof.speaks hs.coherent
    obtain ⟨own, hown, hobject, hsaid⟩ := hspeaks.exists_said (speaksFor_siteOf hs.coherent x)
    rw [← hx.siteOf_eq hs.coherent, hsite] at hobject
    obtain ⟨first, others, hjoint, ⟨y, hy⟩, c', hc', hhead⟩ := HopTree.exists_joint_of_mem
      ⟨root, hseeds.start⟩ hgrow hseeds.height hc (List.mem_reverse.1 hown)
    have hset : (Chain.jointHop name first others).inverted = true :=
      Chain.inverted_jointHop.2 ⟨c', hc', by rw [hhead, hsaid.inverted, hasks]⟩
    -- It is the hop, as the tree passes the place once.
    have hsame : (Chain.jointHop name first others).object = hop.object := by
      rw [Chain.object_jointHop, hy first List.mem_cons_self, ← hy c' hc', hhead, hobject]
    have hmerged := (HopTree.within_of_reduce hreduce).passes hp
    have heq := List.inj_on_of_nodup_map (nodup_hops hapart hs hseeds hgrow)
      (HopTree.mem_hops.2 hjoint) (HopTree.mem_hops.2 hmerged) hsame
    rw [← heq, hset]

omit hapart in
/-- The tree has a hop at the site of an endpoint, unless the place of the endpoint is on top. -/
theorem exists_hop_at_site {e : Endpoint × Heading} (he : e ∈ ends)
    (hbelow : ¬ s.IsPlace e.1.object tree.hop.object) :
    ∃ hop, tree.Passes hop ∧ hop.object = s.siteOf e.1.object ∧ s.frame hop.object = none := by
  obtain ⟨hhangs, hplaces, -⟩ := hs.spanningTree_spec hok
  obtain ⟨hop, hp, hplace⟩ := hplaces e he
  rw [hplace.siteOf_eq hs.coherent]
  cases hf : s.frame hop.object with
  | none => exact ⟨hop, hp, (siteOf_of_frame_eq_none hf).symm, hf⟩
  | some f =>
    rcases hhangs.exists_upper hp with rfl | ⟨upper, hupper, habove⟩
    · exact absurd hplace hbelow
    · have hdefault := hs.coherent.frame_of_above? hf habove
      exact ⟨upper, hupper, (siteOf_of_frame hdefault).symm, hs.coherent.frame_default hdefault⟩

/-- The inverted hops at the instances of a path are as many as the endpoints that ask for inversion
on it. -/
theorem countP_hops (hbelow : ∀ e ∈ ends, ¬ s.IsPlace e.1.object tree.hop.object)
    {h x : Handle} (hx : s.IsPlace h x) {path : List Handle} (hc : Climbs s.above? x path) :
    (tree.hops.countP fun hop =>
        (s.frame hop.object).isNone && (hop.inverted && path.contains hop.object))
      = ends.countP fun e => e.1.inverted && path.contains e.1.object := by
  have hsite : ∀ h, s.siteOf h ∈ path ↔ h ∈ path :=
    siteOf_mem_iff hs.coherent hc (Chain.not_default_of_isPlace hs.coherent hx)
  have hplace : ∀ e ∈ ends, ∃ y, s.IsPlace e.1.object y := by
    intro e he
    obtain ⟨-, hplaces, -⟩ := hs.spanningTree_spec hok
    obtain ⟨hop, -, hplace⟩ := hplaces e he
    exact ⟨_, hplace⟩
  refine countP_eq_of_images (f := Hop.object) (g := fun e => s.siteOf e.1.object) ?_ ?_ ?_
  · obtain ⟨root, chains, merged, height, -, hseeds, hgrow, hreduce⟩ := hs.exists_seeds hok
    have hsub := (HopTree.within_of_reduce hreduce).hops_sublist
    exact (nodup_hops hapart hs hseeds hgrow).sublist ((List.filter_sublist.trans hsub).map _)
  · rw [List.Nodup, List.pairwise_map]
    refine (hapart.sublist List.filter_sublist).imp_of_mem fun {e e'} he he' hne heq => ?_
    obtain ⟨y, hy⟩ := hplace e (List.mem_filter.1 he).1
    obtain ⟨y', hy'⟩ := hplace e' (List.mem_filter.1 he').1
    have hfor := speaksFor_siteOf hs.coherent y
    have hfor' := speaksFor_siteOf hs.coherent y'
    rw [← hy.siteOf_eq hs.coherent, heq] at hfor
    rw [← hy'.siteOf_eq hs.coherent] at hfor'
    obtain rfl := hfor.unique hs.coherent hy hy' hfor'
    exact hne y hy hy'
  · intro z
    simp only [Bool.and_eq_true, Option.isNone_iff_eq_none, List.contains_iff_mem]
    constructor
    · rintro ⟨hop, hmem, ⟨hf, hinverted, hon⟩, rfl⟩
      obtain ⟨e, he, hasks, heq⟩ :=
        (inverted_iff hapart hs hok (HopTree.mem_hops.1 hmem) hf).1 hinverted
      exact ⟨e, he, ⟨hasks, (hsite _).1 (heq ▸ hon)⟩, heq⟩
    · rintro ⟨e, he, ⟨hasks, hon⟩, rfl⟩
      obtain ⟨hop, hp, hobject, hf⟩ := exists_hop_at_site hs hok he (hbelow e he)
      refine ⟨hop, HopTree.mem_hops.2 hp, ⟨hf, ?_, ?_⟩, hobject⟩
      · exact (inverted_iff hapart hs hok hp hf).2 ⟨e, he, hasks, hobject.symm⟩
      · rw [hobject]
        exact (hsite _).2 hon

end Tree

/-! ## Pins -/

/-- The object is an inverted pin on an instance of the path. -/
def invertsOn (s : Store) (path : List Handle) (c : Handle) : Bool :=
  (s.object? c).any fun o =>
    match o.body with
    | .part owner p => p.inverts && path.contains owner
    | _ => false

/-- What a hop asks for is an inverted pin if the hop is an inverted one at an instance. -/
theorem inverts_of_asks {t : Task} {s : Store} {hop : Hop} {above : Option String} {d : Demand}
    (h : t.Asks s hop above d) :
    d.part.inverts = ((s.frame hop.object).isNone && hop.inverted) := by
  cases h with
  | declaration ho hm _ =>
    rw [frame_of_module ho hm]
    rfl
  | port name ho hm =>
    rw [frame_of_module ho hm]
    rfl
  | pin connection ho hi =>
    rw [frame_of_instance_eq_none ho hi]
    rfl

/-- An object that a demand got is an inverted pin if the demand was for one. -/
theorem invertsOn_of_meets {s : Store} {net : Handle} {d : Demand} {c : Handle}
    (h : s.Meets net d c) (path : List Handle) :
    s.invertsOn path c = (d.part.inverts && path.contains d.owner) := by
  obtain ⟨o, ho, -, hbody⟩ := h
  rw [invertsOn, ho, Option.any_some, hbody]
  dsimp only
  rw [Part.inverts_joined]

/-- A connection that reports no error puts as many inverted pins on the way from its declaration
down to the place of an endpoint as there are endpoints on that way that ask for inversion, if the
endpoints have different places and none of them is at the top of the tree. -/
theorem inverted_pins_above {s : Store} (hs : s.Reachable) {signal : String}
    {source : Option Endpoint} {targets : List Endpoint} {created : List Handle}
    (hok : (s.connect signal source targets).result = .ok created)
    (hquiet : ∀ d ∈ Notice.diagnostics (s.connect signal source targets).notices,
      d.severity ≠ .error)
    (hapart : (connectionEnds source targets).Pairwise s.PlacesApart) :
    ∃ tree,
      (s.spanningTree ("connection " ++ signal) signal (connectionEnds source targets)).result
        = .ok (some tree) ∧
      ((∀ e ∈ connectionEnds source targets, ¬ s.IsPlace e.1.object tree.hop.object) →
        ∀ e ∈ connectionEnds source targets, ∃ x path,
          s.IsPlace e.1.object x ∧ s.hierarchyPath x = .ok path ∧
          created.countP ((s.connect signal source targets).store.invertsOn path)
            = (connectionEnds source targets).countP fun e =>
                e.1.inverted && path.contains e.1.object) := by
  obtain ⟨tree, o, objects, htree, rfl, hrealize, hjoin, hstore, herrors⟩ :=
    hs.errors_of_connect hok
  refine ⟨tree, htree, fun hbelow e he => ?_⟩
  obtain ⟨hhangs, hplaces, texts, htexts⟩ := hs.spanningTree_spec htree
  obtain ⟨hop, hp, hplace⟩ := hplaces e he
  obtain ⟨path, hc⟩ := hs.rooted hop.object hplace.isSome_above?
  refine ⟨hop.object, path, hplace, hierarchyPath_eq_ok.2 hc, ?_⟩
  rw [← countP_hops hapart hs htree hbelow hplace hc]
  rw [htexts] at hrealize hjoin hstore herrors
  have hcoherent := hs.coherent.withTexts texts
  have hsilent := code_ne_of_mem_realize fun d hd herror =>
    hquiet d ((herrors d herror).2 hd) herror
  obtain ⟨hclean, hcarried⟩ :=
    carriedOut_of_realize hcoherent hrealize fun d hd n _ => hsilent d hd n
  have hasked := Task.demands_asked rfl tree hclean
  have hobjects : objects ≠ [] := by
    rintro rfl
    have hlength := hasked.length_eq.trans hcarried.holds.length_eq
    cases tree with
    | node top branches => simp [HopTree.hops_node] at hlength
  obtain ⟨rfl, net, hnet⟩ := joinObjects_cases hjoin hobjects
  rw [← hstore] at hnet
  have hmeets := hcarried.meets (joined_of_addNet hnet)
  rw [← countP_eq_of_forall₂ hmeets fun d c h => (invertsOn_of_meets h path).symm]
  refine (countP_eq_of_forall₂ hasked fun hop d ⟨above, h⟩ => ?_).symm
  rw [inverts_of_asks h, h.owner_eq, Bool.and_assoc]
  rfl

/-- A module inside another inside a third, with one more beside the second. -/
def flanked : Store :=
  execAll
    [.addModule "top" false false, .addModule "mid" false false, .addModule "leaf" false false,
      .addModule "side" false false, .addInstance "mid" 2 0, .addInstance "leaf" 4 2,
      .addInstance "side" 6 0]

/-- The endpoints of a signal that is inverted at the module in the middle only. -/
def invertedInTheMiddle : List Endpoint :=
  [{ Endpoint.plain 2 with inverted := true }, .plain 4, .plain 6]

theorem placesApart_flanked :
    (connectionEnds none invertedInTheMiddle).Pairwise flanked.PlacesApart := by
  have hmid : flanked.IsPlace 2 2 := .itself rfl
  have hleaf : flanked.IsPlace 4 4 := .itself rfl
  have hside : flanked.IsPlace 6 6 := .itself rfl
  have hapart : ∀ {h h' : Handle}, flanked.IsPlace h h → flanked.IsPlace h' h' → h ≠ h' →
      ∀ x, flanked.IsPlace h x → ¬ flanked.IsPlace h' x := by
    intro h h' hh hh' hne x hx hx'
    exact hne ((hh.unique hx).trans (hh'.unique hx').symm)
  refine .cons ?_ (.cons ?_ (.cons ?_ .nil))
  · intro e he
    rcases List.mem_cons.1 he with rfl | he
    · exact hapart hmid hleaf (by decide)
    · rw [List.mem_singleton.1 he]
      exact hapart hmid hside (by decide)
  · intro e he
    rw [List.mem_singleton.1 he]
    exact hapart hleaf hside (by decide)
  · exact fun e he => nomatch he

/-- The tree of these endpoints starts at the module on top, where none of them is. -/
theorem exists_tree_flanked :
    ∃ tree, (flanked.spanningTree ("connection " ++ "x") "x"
        (connectionEnds none invertedInTheMiddle)).result = .ok (some tree) ∧
      ∀ e ∈ connectionEnds none invertedInTheMiddle,
        ¬ flanked.IsPlace e.1.object tree.hop.object := by
  refine ⟨_, rfl, fun e he => ?_⟩
  have hplace : ∀ {h : Handle}, flanked.IsPlace h h → h ≠ 0 → ¬ flanked.IsPlace h 0 :=
    fun hh hne h0 => hne (hh.unique h0)
  rcases List.mem_cons.1 he with rfl | he
  · exact hplace (.itself rfl) (by decide)
  rcases List.mem_cons.1 he with rfl | he
  · exact hplace (.itself rfl) (by decide)
  · rw [List.mem_singleton.1 he]
    exact hplace (.itself rfl) (by decide)

theorem inverted_pins_flanked :
    flanked.Reachable ∧
      (flanked.connect "x" none invertedInTheMiddle).result = .ok [8, 9, 10, 11, 12, 13, 14] ∧
      Notice.diagnostics (flanked.connect "x" none invertedInTheMiddle).notices = [] ∧
      (connectionEnds none invertedInTheMiddle).Pairwise flanked.PlacesApart ∧
      ∃ tree, (flanked.spanningTree ("connection " ++ "x") "x"
          (connectionEnds none invertedInTheMiddle)).result = .ok (some tree) ∧
        ∀ e ∈ connectionEnds none invertedInTheMiddle, ∃ x path,
          flanked.IsPlace e.1.object x ∧ flanked.hierarchyPath x = .ok path ∧
          [8, 9, 10, 11, 12, 13, 14].countP
              ((flanked.connect "x" none invertedInTheMiddle).store.invertsOn path)
            = (connectionEnds none invertedInTheMiddle).countP fun e =>
                e.1.inverted && path.contains e.1.object := by
  have hreachable : flanked.Reachable := reachable_execAll _
  have hresult : (flanked.connect "x" none invertedInTheMiddle).result
      = .ok [8, 9, 10, 11, 12, 13, 14] := rfl
  have hnone : Notice.diagnostics (flanked.connect "x" none invertedInTheMiddle).notices = [] := rfl
  refine ⟨hreachable, hresult, hnone, placesApart_flanked, ?_⟩
  obtain ⟨tree, htree, hpins⟩ :=
    inverted_pins_above hreachable hresult (by simp [hnone]) placesApart_flanked
  obtain ⟨tree', htree', hbelow⟩ := exists_tree_flanked
  rw [htree] at htree'
  cases htree'
  exact ⟨tree, htree, hpins hbelow⟩

/-- The leaf does not ask for inversion, and there is one inverted pin above it. -/
theorem not_polarity_requested :
    ¬ ∀ s : Store, s.Reachable → ∀ (signal : String) (source : Option Endpoint)
      (targets : List Endpoint) (created : List Handle) (tree : HopTree),
      (s.connect signal source targets).result = .ok created →
      (∀ d ∈ Notice.diagnostics (s.connect signal source targets).notices,
        d.severity ≠ .error) →
      (connectionEnds source targets).Pairwise s.PlacesApart →
      (s.spanningTree ("connection " ++ signal) signal (connectionEnds source targets)).result
        = .ok (some tree) →
      (∀ e ∈ connectionEnds source targets, ¬ s.IsPlace e.1.object tree.hop.object) →
      ∀ e ∈ connectionEnds source targets, ∀ x path,
        s.IsPlace e.1.object x → s.hierarchyPath x = .ok path →
        (created.countP ((s.connect signal source targets).store.invertsOn path) % 2 = 1 ↔
          e.1.inverted = true) := by
  intro hall
  have hnone : Notice.diagnostics (flanked.connect "x" none invertedInTheMiddle).notices = [] := rfl
  obtain ⟨tree, htree, hbelow⟩ := exists_tree_flanked
  have hleaf := hall flanked (reachable_execAll _) "x" none invertedInTheMiddle
    [8, 9, 10, 11, 12, 13, 14] tree rfl (by simp [hnone]) placesApart_flanked htree hbelow
    (.plain 4, .unset) (List.mem_cons_of_mem _ List.mem_cons_self) 4 [4, 5, 2, 3, 0, 1]
    (.itself rfl) rfl
  have hpins : [8, 9, 10, 11, 12, 13, 14].countP
      ((flanked.connect "x" none invertedInTheMiddle).store.invertsOn [4, 5, 2, 3, 0, 1]) = 1 := by
    decide +kernel
  rw [hpins] at hleaf
  exact absurd (hleaf.1 rfl) (by decide)

end Store

end Interconnect
