import Interconnect.Proofs.Request.Symmetry
import Interconnect.Proofs.Request.Threading

/-!
# What a connection leaves behind

A connection that creates something, and reports no hop, leaves a net that threads its signal
from the root of the reduced tree to every endpoint.  The proof follows the request through its
stages: `spanningTree_spec` is about the tree, `connect_cases` about the stages that succeeded,
and `threaded_of_connect` puts them together.
-/

namespace Interconnect

theorem Outcome.andThen_eq_ok {ε α β : Type} {o : Outcome ε α} {f : Store → α → Outcome ε β}
    {b : β} (h : (o.andThen f).result = .ok b) :
    ∃ a, o.result = .ok a ∧ (f o.store a).result = .ok b ∧
      o.andThen f = (f o.store a).after o.notices := by
  cases ho : o.result with
  | error e =>
    rw [andThen_of_error f ho] at h
    cases h
  | ok a =>
    rw [andThen_of_ok f ho] at h
    exact ⟨a, rfl, h, andThen_of_ok f ho⟩

theorem Outcome.mapError_eq_ok {ε ε' α : Type} {o : Outcome ε α} {f : ε → ε'} {a : α} :
    (o.mapError f).result = .ok a ↔ o.result = .ok a := by
  unfold mapError
  cases o.result with
  | error e => simp [Except.mapError]
  | ok a' => simp [Except.mapError]

namespace Store

/-! ## The tree -/

/-- The stages of a request that left a tree. -/
theorem spanningTree_cases {s : Store} {request name : String} {ends : List (Endpoint × Heading)}
    {tree : HopTree} (hok : (s.spanningTree request name ends).result = .ok (some tree)) :
    (∀ e ∈ ends, s.isEndpoint e.1.object = true) ∧ ∃ s₁ chains merged,
      s.chains ends = (s₁, .ok chains) ∧ HopTree.merge name chains = .ok (some merged) ∧
      merged.reduce = some tree ∧ (s.spanningTree request name ends).store = s₁.intern name := by
  unfold spanningTree at hok ⊢
  split at hok
  · cases hok
  · rename_i hends
    refine ⟨fun e he => by simpa using List.find?_eq_none.1 hends e he, ?_⟩
    split at hok
    · cases hok
    · rename_i s₁ chains hchains
      dsimp only at hok
      split at hok
      · cases hok
      · cases hok
      · rename_i merged hmerge
        split at hok
        · cases hok
        · rename_i tree' hreduce
          cases hok
          exact ⟨s₁, chains, merged, hchains, hmerge, hreduce, rfl⟩

theorem IsPlace.withTexts {s : Store} {h x : Handle} (hx : s.IsPlace h x) (texts : StringTable) :
    (s.withTexts texts).IsPlace h x := by
  cases hx with
  | itself hf => exact .itself hf
  | inst ht hf => exact .inst ht hf
  | placement ht hf => exact .placement ht hf

/-- Texts do not matter to coherence. -/
theorem Coherent.withTexts {s : Store} (hs : s.Coherent) (texts : StringTable) :
    (s.withTexts texts).Coherent :=
  hs.congr rfl ⟨rfl, rfl, rfl, rfl, rfl, rfl, rfl⟩

theorem hangs_withTexts {s : Store} {tree : HopTree} (h : tree.Hangs s) (texts : StringTable) :
    tree.Hangs (s.withTexts texts) := by
  induction h with
  | node habove hbelow _ ih => exact .node habove hbelow ih

/-- The tree hangs in the hierarchy, and it passes the place of every endpoint. -/
theorem Reachable.spanningTree_spec {s : Store} (hs : s.Reachable) {request name : String}
    {ends : List (Endpoint × Heading)} {tree : HopTree}
    (hok : (s.spanningTree request name ends).result = .ok (some tree)) :
    tree.Hangs s ∧ (∀ e ∈ ends, ∃ hop, tree.Passes hop ∧ s.IsPlace e.1.object hop.object) ∧
      ∃ texts, (s.spanningTree request name ends).store = s.withTexts texts := by
  obtain ⟨hends, s₁, chains, merged, hchains, hmerge, hreduce, hstore⟩ := spanningTree_cases hok
  rw [chains_eq s fun e he => hs.walk_eq_hopsOf (hends e he)] at hchains
  cases hchains
  have hwalks : ∀ e ∈ ends, s.Walks e.1 e.2 (s.hopsOf e) := by
    intro e he
    obtain ⟨hops, hw, hwalk⟩ := hs.exists_walks (hends e he) e.2
    rw [hs.walk_eq_hopsOf (hends e he)] at hwalk
    cases hwalk
    exact hw
  have hchain : ∀ c, c ∈ (ends.map fun e => (s.hopsOf e).reverse).filterMap Chain.ofHops? ↔
      ∃ e ∈ ends, Chain.ofHops? (s.hopsOf e).reverse = some c := by
    intro c
    simp only [List.mem_filterMap, List.mem_map, exists_exists_and_eq_and]
  obtain ⟨hhangs, hcovers⟩ := HopTree.merge_spec hs.coherent hmerge fun c hc => by
    obtain ⟨e, he, hofHops⟩ := (hchain c).1 hc
    exact Chain.descends_of_walks hs.coherent (hwalks e he) hofHops
  obtain ⟨hleft, hkeep⟩ := HopTree.reduce_spec hhangs hreduce
  refine ⟨hleft, fun e he => ?_, _, hstore⟩
  obtain ⟨hop, hhop, hexplicit, hplace⟩ := (hwalks e he).exists_chosen
  obtain ⟨c, hc, hmem⟩ := Chain.exists_ofHops? (List.mem_reverse.2 hhop)
  obtain ⟨hop', hpasses, hobject, hchosen⟩ := hcovers c ((hchain c).2 ⟨e, he, hc⟩) hop hmem
  exact ⟨hop', hkeep hop' hpasses (hchosen hexplicit), by rwa [hobject]⟩

/-! ## The stages -/

/-- The stages of a request that left a tree and succeeded. -/
theorem thread_stages {s : Store} {t : Task} {ends : List (Endpoint × Heading)}
    {bind : Store → List Handle → Outcome StoreError (List Handle)} {tree : HopTree}
    (htree : (s.spanningTree t.request t.name ends).result = .ok (some tree))
    {created : List Handle} (hok : (s.thread t ends bind).result = .ok created) :
    ∃ o objects, o = (s.spanningTree t.request t.name ends).store.realize t tree ∧
      o.result = .ok objects ∧ (bind o.store objects).result = .ok created ∧
      (s.thread t ends bind).store = (bind o.store objects).store ∧
      Notice.diagnostics (s.thread t ends bind).notices
        = Notice.diagnostics (s.spanningTree t.request t.name ends).notices
          ++ (Notice.diagnostics o.notices
            ++ Notice.diagnostics (bind o.store objects).notices) := by
  unfold thread at hok ⊢
  rw [Outcome.andThen_of_ok _ htree] at hok ⊢
  dsimp only at hok ⊢
  obtain ⟨objects, hrealize, hok, heq⟩ := Outcome.andThen_eq_ok hok
  rw [Outcome.mapError_eq_ok] at hrealize hok
  refine ⟨_, objects, rfl, hrealize, hok, ?_, ?_⟩
  · rw [Outcome.store_after, heq, Outcome.store_after, Outcome.store_mapError,
      Outcome.store_mapError]
  · rw [Outcome.notices_after, heq, Outcome.notices_after, Outcome.notices_mapError,
      Outcome.notices_mapError, diagnostics_append, diagnostics_append, Outcome.store_mapError]

/-- What such a request reports is reported in one of its stages. -/
theorem thread_tree_cases {s : Store} {t : Task} {ends : List (Endpoint × Heading)}
    {bind : Store → List Handle → Outcome StoreError (List Handle)} {tree : HopTree}
    (htree : (s.spanningTree t.request t.name ends).result = .ok (some tree))
    {created : List Handle} (hok : (s.thread t ends bind).result = .ok created) :
    ∃ o objects, o = (s.spanningTree t.request t.name ends).store.realize t tree ∧
      o.result = .ok objects ∧ (bind o.store objects).result = .ok created ∧
      (s.thread t ends bind).store = (bind o.store objects).store ∧
      ∀ d, d ∈ Notice.diagnostics (s.thread t ends bind).notices ↔
        d ∈ Notice.diagnostics (s.spanningTree t.request t.name ends).notices ∨
        d ∈ Notice.diagnostics o.notices ∨
        d ∈ Notice.diagnostics (bind o.store objects).notices := by
  obtain ⟨o, objects, ho, hrealize, hbind, hstore, hnotices⟩ := thread_stages htree hok
  refine ⟨o, objects, ho, hrealize, hbind, hstore, fun d => ?_⟩
  rw [hnotices, List.mem_append, List.mem_append]

/-- The stages of a request that created something. -/
theorem thread_cases {s : Store} {t : Task} {ends : List (Endpoint × Heading)}
    {bind : Store → List Handle → Outcome StoreError (List Handle)} {created : List Handle}
    (hok : (s.thread t ends bind).result = .ok created) (hne : created ≠ []) :
    ∃ tree o objects, (s.spanningTree t.request t.name ends).result = .ok (some tree) ∧
      o = (s.spanningTree t.request t.name ends).store.realize t tree ∧
      o.result = .ok objects ∧ (bind o.store objects).result = .ok created ∧
      (s.thread t ends bind).store = (bind o.store objects).store ∧
      ∀ d ∈ Notice.diagnostics o.notices,
        d ∈ Notice.diagnostics (s.thread t ends bind).notices := by
  have hstages := hok
  unfold thread at hstages
  obtain ⟨tree?, htree, hstages, -⟩ := Outcome.andThen_eq_ok hstages
  cases tree? with
  | none =>
    cases hstages
    exact absurd rfl hne
  | some tree =>
    obtain ⟨o, objects, ho, hrealize, hbind, hstore, hnotices⟩ := thread_tree_cases htree hok
    exact ⟨tree, o, objects, htree, ho, hrealize, hbind, hstore,
      fun d hd => (hnotices d).2 (Or.inr (Or.inl hd))⟩

/-- Objects, if there are any, join a net. -/
theorem joinObjects_cases {s : Store} {request signal : String} {objects created : List Handle}
    (hok : (s.joinObjects request signal objects).result = .ok created) (hne : objects ≠ []) :
    objects = created ∧ ∃ net,
      s.addNet signal created = .ok ((s.joinObjects request signal objects).store, net) := by
  unfold joinObjects at hok ⊢
  rw [if_neg (by simpa using hne)] at hok ⊢
  split at hok
  · cases hok
  · rename_i s' net hnet
    cases hok
    exact ⟨rfl, net, by rw [hnet]; rfl⟩

/-- A connection that succeeds is carried out. -/
theorem connect_eq_thread {s : Store} {signal : String} {source : Option Endpoint}
    {targets : List Endpoint} {created : List Handle}
    (hok : (s.connect signal source targets).result = .ok created) :
    s.connect signal source targets
      = s.thread { request := "connection " ++ signal, name := signal, mode := .signal }
          (connectionEnds source targets)
          fun s objects => s.joinObjects ("connection " ++ signal) signal objects := by
  unfold connect at hok ⊢
  split at hok
  · cases hok
  · rename_i hgiven
    rw [if_neg hgiven]
    split at hok
    · cases hok
    · rename_i hfresh
      rw [if_neg hfresh]

/-- The stages of a connection that created something: it found a tree, realized it, and joined
what was created. -/
theorem connect_cases {s : Store} {signal : String} {source : Option Endpoint}
    {targets : List Endpoint} {created : List Handle}
    (hok : (s.connect signal source targets).result = .ok created) (hne : created ≠ []) :
    ∃ tree o net,
      (s.spanningTree ("connection " ++ signal) signal (connectionEnds source targets)).result
        = .ok (some tree) ∧
      o = (s.spanningTree ("connection " ++ signal) signal
          (connectionEnds source targets)).store.realize
        { request := "connection " ++ signal, name := signal, mode := .signal } tree ∧
      o.result = .ok created ∧
      o.store.addNet signal created = .ok ((s.connect signal source targets).store, net) ∧
      ∀ d ∈ Notice.diagnostics o.notices,
        d ∈ Notice.diagnostics (s.connect signal source targets).notices := by
  have hthread := connect_eq_thread hok
  rw [hthread] at hok ⊢
  obtain ⟨tree, o, objects, htree, ho, hrealize, hjoin, hstore, hnotices⟩ := thread_cases hok hne
  have hobjects : objects ≠ [] := by
    rintro rfl
    cases hjoin
    exact hne rfl
  obtain ⟨rfl, net, hnet⟩ := joinObjects_cases hjoin hobjects
  rw [← hstore] at hnet
  exact ⟨tree, o, net, htree, ho, hrealize, hnet, hnotices⟩

/-! ## The net -/

/-- The net of a name, and its members. -/
def IsNet (s : Store) (net : Handle) (name : String) (members : List Handle) : Prop :=
  s.netByName? name = some net ∧ ∃ o, s.object? net = some o ∧ o.body = .net members

/-- The objects that a plan asked for, once they have joined their net. -/
theorem CarriedOut.meets {s s' s'' : Store} {demands : List Demand} {created : List Handle}
    {name : String} {net : Handle} (h : CarriedOut s s' demands created)
    (hjoined : Joined s' s'' name net created) :
    List.Forall₂ (s''.Meets net) demands created := by
  obtain ⟨hlength, hholds⟩ := List.forall₂_iff_get.1 h.holds
  refine List.forall₂_iff_get.2 ⟨hlength, fun i hd hc => ?_⟩
  exact hjoined.holds (List.get_mem created ⟨i, hc⟩) (hholds i hd hc)

/-- A member at the place of an endpoint carries the signal to it. -/
theorem carried_of_stands {s s' : Store} (hh : SameHierarchy s s') {net : Handle} {d : Demand}
    {created : List Handle} {c h : Handle} (hc : c ∈ created) (hmeet : s'.Meets net d c)
    (hstands : Task.Stands s d) (hplace : s.IsPlace h d.owner) : s'.Carried created h := by
  cases hplace with
  | itself hframe =>
    have hsignal := hmeet.isSignal (hstands.at_module hframe)
    rw [← hh.frame] at hframe
    obtain ⟨m, hm, -⟩ := exists_module_of_frame hframe
    exact .module hm hc hsignal
  | inst htarget hframe =>
    have hsignal := hmeet.isSignal (hstands.at_module hframe)
    rw [← hh.placement] at htarget
    rw [← hh.frame] at hframe
    obtain ⟨i, m, hi, hmodule, hm, hres⟩ := exists_instance_of_frame htarget hframe
    rw [← hmodule] at hsignal
    exact .inst hi hm hres hc hsignal
  | placement htarget hframe =>
    obtain ⟨connection, inverted, hpart⟩ := hstands.at_instance htarget
    have hpin := hmeet.isPin hpart
    rw [← hh.placement] at htarget
    rw [← hh.frame] at hframe
    obtain ⟨i, m, hi, -, hm, hres⟩ := exists_instance_of_frame htarget hframe
    exact .placement hi hm hres hc hpin

/-- What a plan for a signal leaves behind once it is carried out and its objects have joined a
net. -/
theorem threaded_of_realize {s s' : Store} (hs : s.Coherent) {t : Task} (ht : t.mode = .signal)
    {tree : HopTree} (hhangs : tree.Hangs s) {created : List Handle}
    (hok : (s.realize t tree).result = .ok created)
    (hquiet : ∀ d ∈ Notice.diagnostics (s.realize t tree).notices,
      ∀ n ∈ t.errors, d.code ≠ Report.errorCode n)
    {name : String} {net : Handle}
    (hnet : (s.realize t tree).store.addNet name created = .ok (s', net)) :
    s'.IsNet net name created ∧ s'.Threaded tree.hop.object created ∧
      ∀ hop, tree.Passes hop → ∀ h, s.IsPlace h hop.object → s'.Carried created h := by
  obtain ⟨hclean, hcarried⟩ := carriedOut_of_realize hs hok hquiet
  obtain ⟨top, rest, hdemands, howner, htop, hlinked⟩ := Task.demands_spec ht hs hhangs hclean
  have hjoined := joined_of_addNet hnet
  have hs' : s'.Coherent := Coherent.change (.net hnet) hcarried.coherent
  have hh : SameHierarchy s s' := hcarried.hierarchy.trans hjoined.hierarchy
  have hmeets := hcarried.meets hjoined
  refine ⟨⟨hjoined.found, ?_⟩, ?_, ?_⟩
  · obtain ⟨o, ho, hbody⟩ := hjoined.object
    exact ⟨o, ho, by rw [hbody, distinct_eq_self hcarried.nodup]⟩
  · rw [hdemands] at hmeets
    rw [← howner]
    exact threaded_of_linked hs' hh hmeets hcarried.nodup htop hlinked
  · intro hop hpasses h hplace
    obtain ⟨d, hd, hobject, hstands⟩ := Task.exists_demand_of_passes ht hpasses hclean
    obtain ⟨c, hc, hmeet⟩ := exists_right_of_mem hmeets hd
    exact carried_of_stands hh hc hmeet hstands (by rwa [hobject])

/-- A connection that creates something, and reports neither a taken id nor an instance without a
name nor inner content of a resource, leaves a net of what it created.  The net threads the
signal from the root of the reduced tree, and carries it to every endpoint. -/
theorem threaded_of_connect {s : Store} (hs : s.Reachable) {signal : String}
    {source : Option Endpoint} {targets : List Endpoint} {created : List Handle}
    (hok : (s.connect signal source targets).result = .ok created) (hne : created ≠ [])
    (hquiet : ∀ d ∈ Notice.diagnostics (s.connect signal source targets).notices,
      ∀ n ∈ [300, 301, 302], d.code ≠ Report.errorCode n) :
    ∃ tree net,
      (s.spanningTree ("connection " ++ signal) signal (connectionEnds source targets)).result
        = .ok (some tree) ∧
      (s.connect signal source targets).store.IsNet net signal created ∧
      (s.connect signal source targets).store.Threaded tree.hop.object created ∧
      ∀ e, source = some e ∨ e ∈ targets →
        (s.connect signal source targets).store.Carried created e.object := by
  obtain ⟨tree, o, net, htree, rfl, hrealize, hnet, hnotices⟩ := connect_cases hok hne
  obtain ⟨hhangs, hplaces, texts, htexts⟩ := hs.spanningTree_spec htree
  rw [htexts] at hrealize hnet hnotices
  have hcoherent := hs.coherent.withTexts texts
  obtain ⟨hisNet, hthreaded, hcarried⟩ := threaded_of_realize hcoherent rfl
    (hangs_withTexts hhangs texts) hrealize (fun d hd => hquiet d (hnotices d hd)) hnet
  refine ⟨tree, net, htree, hisNet, hthreaded, fun e he => ?_⟩
  have hmem : e ∈ (connectionEnds source targets).map Prod.fst := by
    rw [map_fst_connectionEnds, List.mem_append, Option.mem_toList]
    exact he
  obtain ⟨end', hend, rfl⟩ := List.mem_map.1 hmem
  obtain ⟨hop, hpasses, hplace⟩ := hplaces end' hend
  exact hcarried hop hpasses end'.1.object (hplace.withTexts texts)

/-- A signal of `nested` from the memory's instance up through the leaf to the top. -/
theorem threaded_nested :
    nested.Reachable ∧
      (nested.connect "clk" none [.plain 5, .plain 0]).result = .ok [7, 8, 9, 10] ∧
      Notice.diagnostics (nested.connect "clk" none [.plain 5, .plain 0]).notices = [] ∧
      ∃ tree net,
        (nested.spanningTree "connection clk" "clk"
          (connectionEnds none [.plain 5, .plain 0])).result = .ok (some tree) ∧
        (nested.connect "clk" none [.plain 5, .plain 0]).store.IsNet net "clk" [7, 8, 9, 10] ∧
        (nested.connect "clk" none [.plain 5, .plain 0]).store.Threaded tree.hop.object
          [7, 8, 9, 10] ∧
        ∀ e ∈ [Endpoint.plain 5, .plain 0],
          (nested.connect "clk" none [.plain 5, .plain 0]).store.Carried [7, 8, 9, 10]
            e.object := by
  have hreachable : nested.Reachable := reachable_execAll _
  have hresult : (nested.connect "clk" none [.plain 5, .plain 0]).result = .ok [7, 8, 9, 10] :=
    rfl
  have hnone :
      Notice.diagnostics (nested.connect "clk" none [.plain 5, .plain 0]).notices = [] := rfl
  obtain ⟨tree, net, htree, hnet, hthreaded, hcarried⟩ :=
    threaded_of_connect hreachable hresult (by simp) (by simp [hnone])
  exact ⟨hreachable, hresult, hnone, tree, net, htree, hnet, hthreaded,
    fun e he => hcarried e (Or.inr he)⟩

end Store

end Interconnect
