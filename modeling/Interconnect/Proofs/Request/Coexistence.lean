import Interconnect.Proofs.Request.Attribution
import Interconnect.Proofs.Request.Distinctness
import Interconnect.Proofs.Request.Reporting
import Interconnect.Proofs.Request.Verdict

/-!
# Different names at one module

Chains with different names at one place are kept apart, so endpoints that give one module
different names get objects of their own there.  This holds wherever chains are grouped by their
names: everywhere but on top of the hierarchy, where all chains start in one group.  If two
endpoints at the module on top disagree, the tree forks at the instance above the module, and
nothing is cut off.  Then the instance is realized, without a name for its pins to connect to.

In a fresh hierarchy this is the only way that a connection reports an error, as long as no endpoint
is a resource, forces its name, or supplies a name with a direction suffix.
-/

namespace Interconnect

namespace Store

variable {s : Store}

/-- Two endpoints at the module on top of a hierarchy supply different names. -/
def NamesDifferOnTop (s : Store) (ends : List (Endpoint × Heading)) : Prop :=
  ∃ top root, s.frame top = some (false, some root) ∧ s.above? root = some none ∧
    ∃ e ∈ ends, ∃ e' ∈ ends, s.IsPlace e.1.object top ∧ s.IsPlace e'.1.object top ∧
      ∃ n n', e.1.givenName = some n ∧ e'.1.givenName = some n' ∧ n ≠ n'

/-- No endpoint is a resource, forces its name, or supplies a name with a direction suffix. -/
structure PlainEnds (s : Store) (ends : List (Endpoint × Heading)) : Prop where
  resource : ∀ e ∈ ends, ¬ s.IsResource e.1.object
  forced : ∀ e ∈ ends, e.1.forced = false
  base : ∀ e ∈ ends, ∀ n, e.1.givenName = some n → Naming.stripDirection n = n

/-! ## On top of a hierarchy -/

/-- Only a resource has its place at a resource. -/
theorem IsPlace.frame_of_resource {h x : Handle} (hx : s.IsPlace h x) {d : Option Handle}
    (hf : s.frame x = some (true, d)) : s.frame h = some (true, d) := by
  cases hx with
  | itself _ => exact hf
  | inst _ hf' =>
    rw [hf] at hf'
    cases hf'
  | placement _ _ => exact hf

/-- A module on top of a hierarchy is a resource. -/
theorem Coherent.frame_of_root (hs : s.Coherent) {h : Handle} {f : Bool × Option Handle}
    (hroot : s.above? h = some none) (hf : s.frame h = some f) : f = (true, none) := by
  obtain ⟨r, d⟩ := f
  cases r with
  | true => rw [(hs.resource hf).1]
  | false =>
    obtain ⟨i, rfl, -⟩ := hs.ordinary hf
    rw [above?_of_frame hf] at hroot
    cases hroot

/-- A place on top of a hierarchy is a resource. -/
theorem IsPlace.exists_frame_of_root (hs : s.Coherent) {h x : Handle} (hx : s.IsPlace h x)
    (hroot : s.above? x = some none) : ∃ d, s.frame x = some (true, d) := by
  cases hf : s.frame x with
  | none =>
    obtain ⟨y, hy, -⟩ := hx.exists_parent hs hf
    rw [hroot] at hy
    cases hy
  | some f => exact ⟨none, congrArg some (hs.frame_of_root hroot hf)⟩

/-- An instance on top of a hierarchy is the default instance of its module. -/
theorem Coherent.exists_default_of_root (hs : s.Coherent) {root : Handle}
    (hroot : s.above? root = some none) (hf : s.frame root = none) :
    ∃ m, s.frame m = some (false, some root) := by
  rcases hs.root hroot with ⟨o, i, ho, hi, -, hdefault⟩ | ⟨o, m, ho, hm, -⟩
  · obtain ⟨m, hm, hdefault⟩ := Option.bind_eq_some_iff.1 hdefault
    obtain ⟨x, hx, hbody⟩ := Option.bind_eq_some_iff.1 hm
    have hframe := frame_of_module hx (Object.module?_eq_some.1 hbody)
    rw [hdefault] at hframe
    refine ⟨i.module, ?_⟩
    cases hres : m.resource with
    | false => rwa [hres] at hframe
    | true =>
      rw [hres] at hframe
      cases (hs.resource hframe).1
  · rw [frame_of_module ho hm] at hf
    cases hf

section Chains

variable {e : Endpoint × Heading} {c : Chain}

/-- Only a chain of a resource starts at a resource. -/
theorem IsChainOf.frame_of_resource (hs : s.Coherent) (hc : s.IsChainOf e c) {d : Option Handle}
    (hf : s.frame c.head.object = some (true, d)) : s.frame e.1.object = some (true, d) := by
  obtain ⟨x, hplace, hspeaks⟩ := hc.speaks hs
  have htail : c.tail = [] := by
    rw [← Chain.below?_eq_none]
    cases hbelow : c.below? with
    | none => rfl
    | some c' => exact absurd hf (hs.frame_ne_of_above? ((hc.runs hs).below hbelow).1 d)
  rw [htail] at hspeaks
  generalize hhops : [c.head].reverse = hops at hspeaks
  cases hspeaks with
  | resource _ =>
    obtain ⟨heq, -⟩ := List.cons.inj hhops
    rw [heq] at hf
    exact hplace.frame_of_resource hf
  | ordinary _ => simp at hhops
  | placement _ _ => simp at hhops

/-- A chain of an endpoint at the module on top has the endpoint's name at its first hop. -/
theorem IsChainOf.name_head (hs : s.Coherent) (hc : s.IsChainOf e c) {top root : Handle}
    (htop : s.frame top = some (false, some root)) (hroot : s.above? root = some none)
    (hplace : s.IsPlace e.1.object top) :
    c.head.object = root ∧ c.head.name = e.1.givenName := by
  obtain ⟨x, hx, hspeaks⟩ := hc.speaks hs
  obtain rfl := hplace.unique hx
  obtain ⟨hop, hhop, rfl, hsaid⟩ := hspeaks.exists_said (Or.inr htop)
  rcases List.mem_cons.1 (List.mem_reverse.1 hhop) with rfl | hhop
  · exact ⟨rfl, hsaid.name⟩
  · obtain ⟨y, hy⟩ := (hc.descends hs).exists_above hhop
    rw [hroot] at hy
    cases hy

end Chains

/-! ## Trees without such endpoints -/

section Quiet

variable {ends : List (Endpoint × Heading)} (hplain : s.PlainEnds ends)

include hplain

/-- Unless names differ on top, the chains agree there. -/
theorem PlainEnds.agrees (hs : s.Coherent) {root : Handle} {height : Nat}
    {chains : List Chain}
    (hall : List.Forall₂ s.IsChainOf ends chains)
    (hseeds : Seeds s (s.Supplies ends) root height chains)
    (hsame : ¬ s.NamesDifferOnTop ends) : Chain.Agrees chains := by
  intro c hc c' hc' m n hm hn
  by_contra hne
  refine hsame ?_
  obtain ⟨e, -, hof⟩ := exists_left_of_mem hall hc
  have hroot := hof.above?_head
  rw [hseeds.start c hc] at hroot
  have hdefault : ∀ {e : Endpoint × Heading}, e ∈ ends → ∀ {x : Handle}, s.IsPlace e.1.object x →
      s.SpeaksFor x root → s.frame x = some (false, some root) := by
    intro e he x hx hfor
    refine hfor.resolve_left ?_
    rintro rfl
    obtain ⟨d, hf⟩ := hx.exists_frame_of_root hs hroot
    exact hplain.resource e he (isResource_of_frame (hx.frame_of_resource hf))
  obtain ⟨e, he, x, hx, hfor, hgiven⟩ := hseeds.supplied c hc c.head List.mem_cons_self m hm
  obtain ⟨e', he', x', hx', hfor', hgiven'⟩ :=
    hseeds.supplied c' hc' c'.head List.mem_cons_self n hn
  rw [hseeds.start c hc] at hfor
  rw [hseeds.start c' hc'] at hfor'
  obtain rfl := hfor.unique hs hx hx' hfor'
  exact ⟨x, root, hdefault he hx hfor, hroot, e, he, e', he', hx, hx', m, n, hgiven, hgiven', hne⟩

/-- On top of what is left there is a module that is no resource. -/
theorem PlainEnds.exists_frame (hs : s.Coherent) {root : Handle} {height : Nat}
    {chains : List Chain} (hall : List.Forall₂ s.IsChainOf ends chains)
    (hseeds : Seeds s (s.Supplies ends) root height chains) {request : String}
    {merged tree : HopTree} (hgrow : HopTree.grow request height chains = some merged)
    (hreduce : merged.reduce = some tree) (hunforked : merged.Unforked s) :
    ∃ d, s.frame tree.hop.object = some (false, d) := by
  obtain ⟨hobject, hhangs⟩ := hseeds.hangs hs hgrow
  obtain ⟨first, others, branches, rfl, -, -⟩ := HopTree.exists_node_of_grow hgrow
  have hfirst : first ∈ first :: others := List.mem_cons_self
  obtain ⟨e, he, hof⟩ := exists_left_of_mem hall hfirst
  have hroot := hof.above?_head
  rw [hseeds.start first hfirst] at hroot
  have hunchosen : s.frame merged.hop.object = none → merged.hop.explicit = false := by
    intro hf
    obtain ⟨m, hm⟩ := hs.exists_default_of_root hroot (hobject ▸ hf)
    exact HopTree.not_explicit_hop_of_grow hseeds hgrow hs hm
  obtain ⟨⟨r, d⟩, hf⟩ := Option.isSome_iff_exists.1
    (HopTree.isSome_frame_of_reduce hs hunforked hhangs hunchosen hreduce)
  cases r with
  | false => exact ⟨d, hf⟩
  | true =>
    -- Nothing is above a resource, so all chains start there.
    exfalso
    have hbelow := hhangs.below_top ((HopTree.within_of_reduce hreduce).passes tree.passes_hop)
    rcases Relation.ReflTransGen.cases_head hbelow with heq | ⟨y, hy, -⟩
    · rw [heq, hobject, ← hseeds.start first hfirst] at hf
      exact hplain.resource e he (isResource_of_frame (hof.frame_of_resource hs hf))
    · have habove := above?_of_frame hf
      rw [hy, (hs.resource hf).1] at habove
      cases habove

/-- Unless names differ on top, each hop of the tree gets its object. -/
theorem PlainEnds.realize_quiet (hs : s.Reachable) (hfresh : s.IsFresh) {t : Task}
    (ht : t.mode = .signal) (hname : t.name ≠ "") {tree : HopTree}
    (htree : (s.spanningTree t.request t.name ends).result = .ok (some tree))
    (hsame : ¬ s.NamesDifferOnTop ends) :
    ∀ n ∈ Notice.diagnostics
        ((s.spanningTree t.request t.name ends).store.realize t tree).notices,
      ∃ id, n = Report.headingClash t.request id := by
  obtain ⟨root, chains, merged, height, hall, hseeds, hgrow, hreduce⟩ := hs.exists_seeds htree
  obtain ⟨hhangs, -, texts, htexts⟩ := hs.spanningTree_spec htree
  have hagrees := hplain.agrees hs.coherent hall hseeds hsame
  have hunforked := HopTree.grow_unforked hseeds hgrow hs hagrees
  have hwithin := HopTree.within_of_reduce hreduce
  obtain ⟨d, hmodule⟩ := hplain.exists_frame hs.coherent hall hseeds hgrow hreduce hunforked
  have hfree : ∀ hop, tree.Passes hop → hop.forced = false := by
    intro hop hp
    refine Bool.eq_false_iff.2 fun hforced => ?_
    obtain ⟨e, he, -, -, -, hasked⟩ := hs.exists_end_of_flag htree Hop.forced Endpoint.forced
      Chain.forced_jointHop Hop.Says.forced Hop.IsBare.forced hp hforced
    rw [hplain.forced e he] at hasked
    cases hasked
  have hbase : ∀ {x : Handle} {n : String}, s.Supplies ends x n → Naming.stripDirection n = n := by
    rintro x n ⟨e, he, -, -, -, hgiven⟩
    exact hplain.base e he n hgiven
  have hapart := (HopTree.grow_apart hs hseeds hgrow).sublist hwithin.hops_sublist
  rw [htexts]
  refine hs.realize_free hfresh ht hhangs (hwithin.unforked hunforked) hfree hbase hapart hmodule
    (fun hop hp => ?_) texts
  obtain ⟨hplace, n, hn, hne⟩ := hs.named_of_passes hname htree hp
  exact ⟨hplace, by rwa [Task.nameAt, hn, Option.getD_some]⟩

end Quiet

/-! ## Trees with such endpoints -/

/-- Where names differ on top, an instance is on top of what is left. -/
theorem NamesDifferOnTop.exists_instance {ends : List (Endpoint × Heading)}
    (h : s.NamesDifferOnTop ends) (hs : s.Reachable) {request name : String} {tree : HopTree}
    (htree : (s.spanningTree request name ends).result = .ok (some tree)) :
    ∃ o i, s.object? tree.hop.object = some o ∧ o.body = .inst i := by
  obtain ⟨top, root, htop, hroot, e, he, e', he', hplace, hplace', n, n', hn, hn', hne⟩ := h
  obtain ⟨y, chains, merged, height, hall, hseeds, hgrow, hreduce⟩ := hs.exists_seeds htree
  obtain ⟨c, hc, hof⟩ := exists_right_of_mem hall he
  obtain ⟨c', hc', hof'⟩ := exists_right_of_mem hall he'
  obtain ⟨hstart, hname⟩ := hof.name_head hs.coherent htop hroot hplace
  obtain ⟨-, hname'⟩ := hof'.name_head hs.coherent htop hroot hplace'
  obtain rfl : y = root := (hseeds.start c hc).symm.trans hstart
  have hagrees : ¬ Chain.Agrees chains := fun hagrees =>
    hne (hagrees c hc c' hc' (hname.trans hn) (hname'.trans hn'))
  rw [HopTree.reduce_grow_eq_self hs.coherent hseeds htop hagrees hgrow] at hreduce
  cases hreduce
  obtain ⟨i, hi, -⟩ := exists_instance_of_target (Chain.target_of_default hs.coherent htop)
  obtain ⟨o, ho, hbody⟩ := Option.bind_eq_some_iff.1 hi
  rw [(hseeds.hangs hs.coherent hgrow).1]
  exact ⟨o, i, ho, Object.instance?_eq_some.1 hbody⟩

/-! ## Connections -/

/-- A connection in a fresh hierarchy reports an error exactly if two endpoints at the module on top
supply different names.  Everywhere else, different names coexist. -/
theorem errors_iff_namesDifferOnTop (hs : s.Reachable) (hfresh : s.IsFresh) {signal : String}
    {source : Option Endpoint} {targets : List Endpoint} {created : List Handle}
    (hok : (s.connect signal source targets).result = .ok created)
    (hplain : s.PlainEnds (connectionEnds source targets)) :
    (∃ d ∈ Notice.diagnostics (s.connect signal source targets).notices, d.severity = .error) ↔
      s.NamesDifferOnTop (connectionEnds source targets) := by
  have hname : signal ≠ "" := by
    rintro rfl
    cases hok
  obtain ⟨tree, o, objects, htree, rfl, hrealize, -, -, herrors⟩ := hs.errors_of_connect hok
  constructor
  · rintro ⟨d, hd, hsevere⟩
    by_contra hsame
    obtain ⟨id, rfl⟩ := hplain.realize_quiet hs hfresh rfl hname htree hsame d
      ((herrors d hsevere).1 hd)
    cases hsevere
  · intro hdiffer
    obtain ⟨o, i, ho, hi⟩ := hdiffer.exists_instance hs htree
    obtain ⟨-, -, texts, htexts⟩ := hs.spanningTree_spec htree
    rw [htexts] at hrealize herrors
    refine ⟨_, (herrors (Report.unnamedInstance ("connection " ++ signal) o.id) rfl).2 ?_, rfl⟩
    refine mem_diagnostics_of_report hrealize ?_
    rw [plan_withTexts]
    exact Task.unnamedInstance_mem_plan rfl ho hi

/-- A module with another one in it. -/
def stacked : Store :=
  execAll
    [.addModule "top" false false, .addModule "leaf" false false,
      .addInstance "leaf" 2 0]

/-- The module under the handle, under two names. -/
def underTwoNames (h : Handle) : List Endpoint :=
  [{ Endpoint.plain h with name := some "a" }, { Endpoint.plain h with name := some "b" }]

theorem isFresh_stacked : stacked.IsFresh := by
  have hall : ∀ entry ∈ stacked.objects.toList,
      (entry.2.kind = .module ∨ entry.2.kind = .inst) ∧ '.' ∉ entry.2.name.toList := by decide
  exact ⟨fun ho => (hall _ (Arena.mem_toList.2 ho)).1, fun ho => (hall _ (Arena.mem_toList.2 ho)).2⟩

theorem plainEnds_underTwoNames {h : Handle} (hres : ¬ stacked.IsResource h) :
    stacked.PlainEnds (connectionEnds none (underTwoNames h)) := by
  have hends : ∀ e ∈ connectionEnds none (underTwoNames h), e.1.object = h ∧ e.1.forced = false ∧
      ∀ n, e.1.givenName = some n → Naming.stripDirection n = n := by
    simp [connectionEnds, underTwoNames, Endpoint.plain, Endpoint.givenName, Naming.stripDirection,
      Naming.stripChars]
  refine ⟨fun e he => ?_, fun e he => (hends e he).2.1, fun e he => (hends e he).2.2⟩
  rw [(hends e he).1]
  exact hres

/-- Below the top, the names coexist. -/
theorem errors_iff_leaf :
    stacked.Reachable ∧ stacked.IsFresh ∧
      (stacked.connect "x" none (underTwoNames 2)).result = .ok [4, 5, 6, 7, 8] ∧
      stacked.PlainEnds (connectionEnds none (underTwoNames 2)) ∧
      Notice.diagnostics (stacked.connect "x" none (underTwoNames 2)).notices = [] ∧
      ¬ stacked.NamesDifferOnTop (connectionEnds none (underTwoNames 2)) := by
  have hreachable : stacked.Reachable := reachable_execAll _
  have hresult : (stacked.connect "x" none (underTwoNames 2)).result = .ok [4, 5, 6, 7, 8] := rfl
  have hnone : Notice.diagnostics (stacked.connect "x" none (underTwoNames 2)).notices = [] := rfl
  have hplain : stacked.PlainEnds (connectionEnds none (underTwoNames 2)) := by
    refine plainEnds_underTwoNames ?_
    rintro ⟨o, m, ho, hm, hres⟩
    cases ho
    cases hm
    cases hres
  refine ⟨hreachable, isFresh_stacked, hresult, hplain, hnone, fun hdiffer => ?_⟩
  obtain ⟨d, hd, -⟩ :=
    (errors_iff_namesDifferOnTop hreachable isFresh_stacked hresult hplain).2 hdiffer
  rw [hnone] at hd
  cases hd

/-- On top, they do not. -/
theorem not_coexistent :
    ¬ ∀ s : Store, s.Reachable → s.IsFresh → ∀ (signal : String) (source : Option Endpoint)
      (targets : List Endpoint) (created : List Handle),
      (s.connect signal source targets).result = .ok created →
      s.PlainEnds (connectionEnds source targets) → '.' ∉ signal.toList →
      (∀ e ∈ connectionEnds source targets, ∀ n ∈ e.1.givenName, '.' ∉ n.toList) →
      ∀ d ∈ Notice.diagnostics (s.connect signal source targets).notices,
        d.severity ≠ .error := by
  intro hall
  have hplain : stacked.PlainEnds (connectionEnds none (underTwoNames 0)) := by
    refine plainEnds_underTwoNames ?_
    rintro ⟨o, m, ho, hm, hres⟩
    cases ho
    cases hm
    cases hres
  have hnoisy : Report.unnamedInstance "connection x" "instance::top"
      ∈ Notice.diagnostics (stacked.connect "x" none (underTwoNames 0)).notices := by decide
  exact hall stacked (reachable_execAll _) isFresh_stacked "x" none (underTwoNames 0) _ rfl hplain
    (by decide) (by decide) _ hnoisy rfl

end Store

end Interconnect
