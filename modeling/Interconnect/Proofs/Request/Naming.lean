import Interconnect.Proofs.Request.Direction

/-!
# The names that endpoints ask for

An endpoint asks for a name at its place and at the default instance of its place.  There it has a
say, with all the others that are routed through the same hop (`HasSay`).  A hop has the name that
they supply, or that of the signal if none of them supplies one, and it is forced if one of them
forces it.

The object of a hop need not be named at the hop.  A port takes over the name of the pin on the
default instance above it, where the name was suffixed.  But both hops have the same endpoints, and
so they agree about the name, about whether it is forced, and about the heading: what an object is
called can be told from its own hop (`Task.Visits.name_eq`).
-/

namespace Interconnect

/-- What a name becomes at a hop where nobody forces it: the name of a signal on top of the tree,
and that of a pin or a port below. -/
def HopTree.suffixed (tree : HopTree) (hop : Hop) (n : String) : String :=
  if hop.object = tree.hop.object then Naming.signalName n else Naming.pinName n hop.heading

namespace Store

/-! ## Who has a say at a hop -/

/-- The endpoint is routed through the hop, and its place speaks for the place of the hop. -/
structure HasSay (s : Store) (name : String) (ends : List (Endpoint × Heading))
    (e : Endpoint × Heading) (hop : Hop) : Prop where
  routed : s.RoutedThrough name ends e hop
  speaks : ∃ x, s.IsPlace e.1.object x ∧ s.SpeaksFor x hop.object

/-- An endpoint has a say at its own hop. -/
theorem IsOwn.hasSay {s : Store} {name : String} {ends : List (Endpoint × Heading)}
    {e : Endpoint × Heading} {hop : Hop} (h : s.IsOwn name ends e hop) (he : e ∈ ends) :
    s.HasSay name ends e hop := by
  obtain ⟨rest, henters, -⟩ := h.last
  exact ⟨⟨he, rest, henters⟩, hop.object, h.place, Or.inl rfl⟩

section Tree

variable {s : Store} (hs : s.Reachable) {request name : String} {ends : List (Endpoint × Heading)}
  {tree : HopTree} (hok : (s.spanningTree request name ends).result = .ok (some tree))
  {e : Endpoint × Heading} {hop : Hop}

include hs hok

/-- What is left of the chain of an endpoint starts with a hop of the walk from the endpoint. -/
theorem Reachable.exists_walk_of_enters (he : e ∈ ends) {rest : Chain}
    (henters : s.Enters name ends e rest hop) :
    ∃ x walk, s.IsPlace e.1.object x ∧ s.Walks e.1 e.2 walk ∧ s.Speaks e.1 e.2 x walk ∧
      rest.head ∈ walk ∧ rest.head.object = hop.object := by
  obtain ⟨chains, merged, root, -, hseeds, -, -, hiff⟩ := hs.exists_routes hok
  obtain ⟨c, ⟨walk, hw, hreverse⟩, hchain⟩ := (hiff e he rest hop).1 henters
  obtain ⟨x, hx, hspeaks⟩ := hw.speaks hs.coherent
  have hmem := hchain.head_mem
  rw [← hreverse, List.mem_reverse] at hmem
  exact ⟨x, walk, hx, hw, hspeaks, hmem, (hchain.object_eq ⟨root, hseeds.start⟩).symm⟩

/-- An endpoint that has no say at a hop has nothing to ask for there. -/
theorem Reachable.says_or_isBare (he : e ∈ ends) {rest : Chain}
    (henters : s.Enters name ends e rest hop) :
    (s.HasSay name ends e hop ∧ rest.head.Says e.1) ∨ rest.head.IsBare := by
  obtain ⟨x, walk, hx, -, hspeaks, hmem, hobject⟩ := hs.exists_walk_of_enters hok he henters
  rcases hspeaks.says_or_isBare hmem with ⟨hfor, hsaid⟩ | hbare
  · exact Or.inl ⟨⟨⟨he, rest, henters⟩, x, hx, hobject ▸ hfor⟩, hsaid⟩
  · exact Or.inr hbare

/-- An endpoint that has a say at a hop asks there for what it asks for. -/
theorem HasSay.exists_says (h : s.HasSay name ends e hop) :
    ∃ rest, s.Enters name ends e rest hop ∧ rest.head.Says e.1 := by
  obtain ⟨⟨he, rest, henters⟩, x, hx, hfor⟩ := h
  obtain ⟨x', walk, hx', hw, hspeaks, hmem, hobject⟩ := hs.exists_walk_of_enters hok he henters
  obtain rfl := hx.unique hx'
  obtain ⟨own, hown, heq, hsaid⟩ := hspeaks.exists_said hfor
  -- A walk has one hop at a place.
  obtain rfl := List.inj_on_of_nodup_map hw.nodup hmem hown (hobject.trans heq.symm)
  exact ⟨rest, henters, hsaid⟩

/-! ## What a hop is called -/

/-- A name is forced at a hop if an endpoint forces it that has a say there. -/
theorem Reachable.forced_iff (hp : tree.Passes hop) :
    hop.forced = true ↔ ∃ e, s.HasSay name ends e hop ∧ e.1.forced = true := by
  obtain ⟨first, others, hjoint, hmeet⟩ := hs.exists_joint hok hp
  have hflag : hop.forced = true ↔ ∃ c ∈ first :: others, c.head.forced = true := by
    rw [hjoint]
    exact Chain.forced_jointHop
  rw [hflag]
  constructor
  · rintro ⟨c, hc, hforced⟩
    obtain ⟨e, he, henters⟩ := (hmeet c).1 hc
    rcases hs.says_or_isBare hok he henters with ⟨hsay, hsaid⟩ | hbare
    · exact ⟨e, hsay, hsaid.forced.symm.trans hforced⟩
    · rw [hbare.forced] at hforced
      cases hforced
  · rintro ⟨e, hsay, hforced⟩
    obtain ⟨rest, henters, hsaid⟩ := hsay.exists_says hs hok
    exact ⟨rest, (hmeet rest).2 ⟨e, hsay.routed.1, henters⟩, hsaid.forced.trans hforced⟩

/-- Where nobody supplies a name, a hop has the name of the request. -/
theorem Reachable.name_of_unsupplied (hp : tree.Passes hop)
    (hnone : ∀ e, s.HasSay name ends e hop → e.1.givenName = none) : hop.name = some name := by
  obtain ⟨first, others, hjoint, hmeet⟩ := hs.exists_joint hok hp
  rw [hjoint]
  rcases Chain.name_jointHop name first others with ⟨-, hname⟩ | ⟨c, hc, n, hn, -⟩
  · exact hname
  · obtain ⟨e, he, henters⟩ := (hmeet c).1 hc
    rcases hs.says_or_isBare hok he henters with ⟨hsay, hsaid⟩ | hbare
    · rw [hsaid.name, hnone e hsay] at hn
      cases hn
    · rw [hbare.name] at hn
      cases hn

/-- With an ordinary module on top of the tree, a hop has the name that is supplied there. -/
theorem HasSay.name_eq (h : s.HasSay name ends e hop) {d : Option Handle}
    (htop : s.frame tree.hop.object = some (false, d)) {n : String} (hn : e.1.givenName = some n) :
    hop.name = some n := by
  have hmodule : s.kind? tree.hop.object = some .module := by
    rw [← isSome_frame_iff, htop, Option.isSome_some]
  obtain ⟨chains, merged, root, hall, hseeds, hgrow, hreduce, hiff⟩ := hs.exists_routes hok
  have hagrees : Chain.Agrees chains := by
    refine (hs.agrees_or_resource hall hseeds hgrow hreduce hmodule).resolve_right ?_
    rw [htop]
    nofun
  obtain ⟨rest, henters, hsaid⟩ := h.exists_says hs hok
  obtain ⟨c, -, hchain⟩ := (hiff e h.routed.1 rest hop).1 henters
  exact hchain.name_eq hagrees (hsaid.name.trans hn)

end Tree

end Store

/-! ## What objects are called -/

namespace Task

open Store

section Clean

variable {t : Task} (ht : t.mode = .signal) {s : Store} {tree : HopTree}
  (hclean : t.Clean s none tree)

include ht hclean

/-- Where nothing is reported, there is an ordinary module on top. -/
theorem exists_frame_of_clean : ∃ d, s.frame tree.hop.object = some (false, d) := by
  obtain ⟨d, -, hasks, -⟩ := Visits.exists_demand ht hclean .top
  cases hasks with
  | @declaration o m ho hm hres => exact ⟨m.defaultInstance, by rw [frame_of_module ho hm, hres]⟩

/-- What the object of a hop is called can be told from the hop.  It takes its name from above
unless the hop is on top. -/
theorem Visits.name_eq (hs : s.Reachable) {request name : String} {ends : List (Endpoint × Heading)}
    (hok : (s.spanningTree request name ends).result = .ok (some tree)) {above : Option String}
    {sub : HopTree} (h : t.Visits s none tree above sub) :
    (t.atHop s above sub.hop).2 = t.ownName sub.hop (tree.suffixed sub.hop) ∧
      (above = none ↔ sub.hop.object = tree.hop.object) := by
  obtain ⟨hhangs, -, -⟩ := hs.spanningTree_spec hok
  obtain ⟨d, -, hasks, hname⟩ := h.exists_demand ht hclean
  rcases h.exists_upper with ⟨rfl, rfl⟩ | ⟨outer, hop, branches, hupper, hb, rfl⟩
  · have hsuffix : sub.suffixed sub.hop = Naming.signalName := funext fun n => if_pos rfl
    rw [hsuffix, hname]
    cases hasks with
    | declaration => exact ⟨rfl, by simp⟩
  · have hwithin := hupper.within
    have habove := hwithin.above?_eq hhangs hb
    have hne : sub.hop.object ≠ tree.hop.object := fun heq =>
      hs.not_below habove (heq ▸ hhangs.below_top (hwithin.passes (HopTree.passes_hop _)))
    have hsuffix : tree.suffixed sub.hop = fun n => Naming.pinName n sub.hop.heading :=
      funext fun n => if_neg hne
    rw [hsuffix, hname]
    refine ⟨?_, by simpa using hne⟩
    cases hasks with
    | pin => rfl
    | port name ho hm =>
      -- The name is that of the pin on the default instance above.
      obtain ⟨d, htop⟩ := exists_frame_of_clean ht hclean
      have hmodule : s.kind? tree.hop.object = some .module := by
        rw [← isSome_frame_iff, htop, Option.isSome_some]
      have hdefault := hs.coherent.frame_of_above? (frame_of_module ho hm) habove
      obtain ⟨heading, hnamed, hforced⟩ := hs.inherited hok hmodule hwithin hb hdefault
      have hplace : (s.above? hop.object).isSome :=
        (hs.name_of_passes hok (hwithin.passes (HopTree.passes_hop _))).1
      dsimp only
      rw [atHop_of_instance ht hplace (hs.coherent.frame_default hdefault), ownName, ownName,
        nameAt, nameAt, heading, hnamed, hforced]

end Clean

end Task

namespace Store

/-- At the place `x` there is a member of a net with the name: the declaration if `x` is the root of
the net, a port and a pin on the default instance if it is another module, and a pin if it is an
instance. -/
inductive Bears (s : Store) (members : List Handle) (root x : Handle) (name : String) : Prop where
  | declaration {c : Handle} : x = root → c ∈ members → s.IsDeclaration c x name →
    Bears s members root x name
  | port {c d inst : Handle} {connection : String} : x ≠ root → c ∈ members → s.IsPort c x name →
    (s.module? x).bind Module.defaultInstance = some inst → d ∈ members →
    s.IsPin d inst name connection → Bears s members root x name
  | pin {c : Handle} {i : Instance} {connection : String} : c ∈ members →
    s.instance? x = some i → s.IsPin c x name connection → Bears s members root x name

/-- Each hop of a tree has an object of its name, once every hop has got its object. -/
theorem Threaded.bears {s s' : Store} (hs : s.Reachable) (hh : SameHierarchy s s') {t : Task}
    (ht : t.mode = .signal) {request name : String} {ends : List (Endpoint × Heading)}
    {tree : HopTree} (hok : (s.spanningTree request name ends).result = .ok (some tree))
    (hclean : t.Clean s none tree) {created : List Handle} {net : Handle}
    (hthreaded : s'.Threaded tree.hop.object created)
    (hmeets : List.Forall₂ (s'.Meets net) (t.demands s none tree) created) {hop : Hop}
    (hp : tree.Passes hop) :
    s'.Bears created tree.hop.object hop.object (t.ownName hop (tree.suffixed hop)) := by
  obtain ⟨above, sub, hvisits, rfl⟩ := Task.exists_visits_of_passes (t := t) (s := s) hp
  obtain ⟨hname, htop⟩ := hvisits.name_eq ht hclean hs hok
  obtain ⟨d, hd, hasks, hhanded⟩ := hvisits.exists_demand ht hclean
  obtain ⟨c, hc, hmeet⟩ := exists_right_of_mem hmeets hd
  rw [← hname, hhanded]
  cases hasks with
  | declaration => exact .declaration (htop.1 rfl) hc (hmeet.isDeclaration rfl)
  | port =>
    have hport := hmeet.isPort rfl
    obtain ⟨inst, hinst, c', hc', connection, hpin⟩ := hthreaded.port c hc hport
    exact .port (fun heq => by cases htop.2 heq) hc hport hinst hc' hpin
  | @pin o i connection ho hi =>
    have htarget : s'.target .placement sub.hop.object = some i.module := by
      rw [hh.placement]
      exact target_eq_some_iff.2 ⟨o, ho, Object.target_placement_eq_some.2 ⟨i, hi, rfl⟩⟩
    obtain ⟨i', hi', -⟩ := exists_instance_of_target htarget
    exact .pin hc hi' (hmeet.isPin rfl)

/-! ## Connections -/

/-- The objects at a hop are called by the name `n`: by `n` itself if an endpoint that has a say
there forces its name, and by what `n` becomes there if none does. -/
structure NamedAfter (s s' : Store) (signal : String) (ends : List (Endpoint × Heading))
    (tree : HopTree) (members : List Handle) (hop : Hop) (n : String) : Prop where
  forced : ∀ e, s.HasSay signal ends e hop → e.1.forced = true →
    s'.Bears members tree.hop.object hop.object n
  suffixed : (∀ e, s.HasSay signal ends e hop → e.1.forced = false) →
    s'.Bears members tree.hop.object hop.object (tree.suffixed hop n)

/-- The net that is made along a tree honours the names that the endpoints ask for.  An endpoint
finds what it asks for at its own hop.  Where nobody supplies a name, the objects are called by the
signal. -/
structure Honours (s s' : Store) (signal : String) (ends : List (Endpoint × Heading))
    (tree : HopTree) (members : List Handle) : Prop where
  heading : ∀ hop, tree.Passes hop →
    Heading.Settled (s.Heads signal ends hop) hop.heading hop.clash
  supplied : ∀ e ∈ ends, ∃ hop, tree.Passes hop ∧ s.IsOwn signal ends e hop ∧
    s.HasSay signal ends e hop ∧
    ∀ n, e.1.givenName = some n → s.NamedAfter s' signal ends tree members hop n
  unsupplied : ∀ hop, tree.Passes hop →
    (∀ e, s.HasSay signal ends e hop → e.1.givenName = none) →
    s.NamedAfter s' signal ends tree members hop signal

/-- A connection that reports no error honours the names that its endpoints ask for. -/
theorem honours_of_connect {s : Store} (hs : s.Reachable) {signal : String}
    {source : Option Endpoint} {targets : List Endpoint} {created : List Handle}
    (hok : (s.connect signal source targets).result = .ok created)
    (hquiet : ∀ d ∈ Notice.diagnostics (s.connect signal source targets).notices,
      d.severity ≠ .error) :
    ∃ tree net,
      (s.spanningTree ("connection " ++ signal) signal (connectionEnds source targets)).result
        = .ok (some tree) ∧
      (s.connect signal source targets).store.IsNet net signal created ∧
      s.Honours (s.connect signal source targets).store signal (connectionEnds source targets) tree
        created := by
  obtain ⟨tree, net, htree, hclean, hh, hnet, hthreaded, hmeets⟩ := hs.met_of_connect hok hquiet
  obtain ⟨d, htop⟩ := Task.exists_frame_of_clean rfl hclean
  have hnamed : ∀ hop, tree.Passes hop → ∀ n, hop.name = some n →
      s.NamedAfter (s.connect signal source targets).store signal
        (connectionEnds source targets) tree created hop n := by
    intro hop hp n hn
    have hbears := hthreaded.bears hs hh rfl htree hclean hmeets hp
    have hforced := hs.forced_iff htree hp
    rw [Task.ownName, Task.nameAt, hn, Option.getD_some] at hbears
    constructor
    case forced =>
      intro e hsay he
      rwa [if_pos (hforced.2 ⟨e, hsay, he⟩)] at hbears
    case suffixed =>
      intro hnone
      rwa [if_neg fun h => ?_] at hbears
      obtain ⟨e, hsay, he⟩ := hforced.1 h
      rw [hnone e hsay] at he
      cases he
  refine ⟨tree, net, htree, hnet, ?_⟩
  constructor
  case heading => exact fun hop hp => hs.settled htree hp
  case supplied =>
    intro e he
    obtain ⟨hop, hp, hown⟩ := hs.exists_own htree he
    have hsay := hown.hasSay he
    exact ⟨hop, hp, hown, hsay, fun n hn => hnamed hop hp n (hsay.name_eq hs htree htop hn)⟩
  case unsupplied =>
    exact fun hop hp hnone => hnamed hop hp signal (hs.name_of_unsupplied htree hp hnone)

/-- Endpoints of a clock in `nested`: the memory and the leaf, each under a name of its own, which
the leaf forces, and the top. -/
def clockEnds : List Endpoint :=
  [{ Endpoint.plain 5 with name := some "CK" },
    { Endpoint.plain 2 with name := some "clock", forced := true }, .plain 0]

/-- The names come with and without a suffix, and the top has that of the signal. -/
theorem honours_nested :
    nested.Reachable ∧
      (nested.connect "clk" none clockEnds).result = .ok [7, 8, 9, 10] ∧
      Notice.diagnostics (nested.connect "clk" none clockEnds).notices = [] ∧
      [7, 8, 9, 10].map (nested.connect "clk" none clockEnds).store.describe
        = ["declaration::top.clk_s", "pin::leaf.clock", "port::leaf.clock", "pin::ram0.CK_I"] ∧
      ∃ tree net,
        (nested.spanningTree "connection clk" "clk" (connectionEnds none clockEnds)).result
          = .ok (some tree) ∧
        (nested.connect "clk" none clockEnds).store.IsNet net "clk" [7, 8, 9, 10] ∧
        nested.Honours (nested.connect "clk" none clockEnds).store "clk"
          (connectionEnds none clockEnds) tree [7, 8, 9, 10] := by
  have hreachable : nested.Reachable := reachable_execAll _
  have hresult : (nested.connect "clk" none clockEnds).result = .ok [7, 8, 9, 10] := rfl
  have hnone : Notice.diagnostics (nested.connect "clk" none clockEnds).notices = [] := rfl
  exact ⟨hreachable, hresult, hnone, by decide,
    honours_of_connect hreachable hresult (by simp [hnone])⟩

end Store

end Interconnect
