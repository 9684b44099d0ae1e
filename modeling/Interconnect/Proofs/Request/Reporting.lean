import Interconnect.Proofs.Request.Spanning
import Interconnect.Proofs.Route.Reducing

/-!
# What connections report

Errors are about single hops.  They come from carrying out the plan of a tree: the plan says that
an instance on top has no name or that a resource would get inner content, and a step finds that an
id is taken.  Everything else that is reported is a warning.  A connection that succeeds has a tree,
as every endpoint chooses a hop, and so its errors are those of carrying out the plan.  Where there
is none, each hop has got its object (`Reachable.met_of_connect`).
-/

namespace Interconnect

namespace Store

/-- Endpoints that have one root have something left to realize. -/
theorem Reachable.spanningTree_ne_none {s : Store} (hs : s.Reachable) {request name : String}
    {ends : List (Endpoint × Heading)} :
    (s.spanningTree request name ends).result ≠ .ok none := by
  intro hok
  unfold spanningTree at hok
  split at hok
  · cases hok
  · rename_i hgood
    have hends : ∀ e ∈ ends, s.isEndpoint e.1.object = true := fun e he => by
      simpa using List.find?_eq_none.1 hgood e he
    obtain ⟨s', hops, chains, hwalked, -, hchains, hall⟩ := hs.chains_eq_ok hends
    rw [hwalked] at hok
    dsimp only at hok
    split at hok
    · cases hok
    · cases hok
    · rename_i merged hmerge
      split at hok
      · rename_i hreduce
        have hdescends : ∀ c ∈ hops.filterMap Chain.ofHops?, c.Descends s := by
          intro c hc
          obtain ⟨e, -, hof⟩ := exists_left_of_mem hall (hchains ▸ hc)
          exact hof.descends hs.coherent
        obtain ⟨-, hcovers⟩ := HopTree.merge_spec hs.coherent hmerge hdescends
        cases hall with
        | nil => exact HopTree.ne_nil_of_grow (HopTree.grow_of_merge hmerge hchains).2 rfl
        | @cons e c _ _ hof _ =>
          obtain ⟨walk, hw, hreverse⟩ := hof
          obtain ⟨hop, hhop, hexplicit, -⟩ := hw.exists_chosen
          rw [← List.mem_reverse, hreverse] at hhop
          obtain ⟨hop', hpasses, -, hchosen⟩ :=
            hcovers c (hchains ▸ List.mem_cons_self) hop hhop
          have hleft := HopTree.reduce_isSome_of_passes hpasses (hchosen hexplicit)
          rw [hreduce] at hleft
          cases hleft
      · cases hok

/-- A request that succeeds has a tree. -/
theorem Reachable.exists_tree {s : Store} (hs : s.Reachable) {t : Task}
    {ends : List (Endpoint × Heading)}
    {bind : Store → List Handle → Outcome StoreError (List Handle)} {created : List Handle}
    (hok : (s.thread t ends bind).result = .ok created) :
    ∃ tree, (s.spanningTree t.request t.name ends).result = .ok (some tree) := by
  obtain ⟨tree?, htree, -⟩ := Outcome.andThen_eq_ok hok
  cases tree? with
  | none => exact absurd htree hs.spanningTree_ne_none
  | some tree => exact ⟨tree, htree⟩

/-- A request that leaves a tree has nothing to report so far. -/
theorem spanningTree_silent {s : Store} {request name : String}
    {ends : List (Endpoint × Heading)} {tree : HopTree}
    (hok : (s.spanningTree request name ends).result = .ok (some tree)) :
    Notice.diagnostics (s.spanningTree request name ends).notices = [] := by
  unfold spanningTree at hok ⊢
  split at hok
  · cases hok
  · split at hok
    · cases hok
    · dsimp only at hok ⊢
      split at hok
      · cases hok
      · cases hok
      · split at hok
        · cases hok
        · rfl

/-- Carrying out steps reports what they say, and taken ids, and clashes of headings. -/
theorem mem_diagnostics_carryOut {request : String} {s : Store} {steps : List Step}
    {d : Diagnostic} (hd : d ∈ Notice.diagnostics (s.carryOut request steps).notices) :
    .report d ∈ steps ∨
      ∃ id, d = Report.idTaken request id ∨ d = Report.headingClash request id := by
  induction steps generalizing s with
  | nil => cases hd
  | cons step rest ih =>
    have hlater : ∀ {s : Store}, d ∈ Notice.diagnostics (s.carryOut request rest).notices →
        .report d ∈ step :: rest ∨
          ∃ id, d = Report.idTaken request id ∨ d = Report.headingClash request id :=
      fun h => (ih h).imp_left (List.mem_cons_of_mem step)
    cases step with
    | report d' =>
      rw [carryOut, Outcome.notices_after, mem_diagnostics] at hd
      rcases hd with hd | hd
      · rw [List.mem_singleton.1 hd]
        exact Or.inl List.mem_cons_self
      · exact hlater hd
    | stray object => cases hd
    | create demand clash =>
      rw [carryOut] at hd
      split at hd
      · rw [Outcome.notices_after, Outcome.notices_map, mem_diagnostics] at hd
        rcases hd with hd | hd
        · cases clash with
          | true => exact Or.inr ⟨_, Or.inr (List.mem_singleton.1 hd)⟩
          | false => cases hd
        · exact hlater hd
      · rw [Outcome.notices_after, mem_diagnostics] at hd
        rcases hd with hd | hd
        · exact Or.inr ⟨_, Or.inl (List.mem_singleton.1 hd)⟩
        · exact hlater hd
      · cases hd
      · cases hd

/-- What carrying out a plan reports is an error or a clash of headings. -/
theorem severity_of_mem_realize {s : Store} {t : Task} {tree : HopTree} {d : Diagnostic}
    (hd : d ∈ Notice.diagnostics (s.realize t tree).notices) :
    d.severity = .error ∨ ∃ id, d = Report.headingClash t.request id := by
  rcases mem_diagnostics_carryOut hd with hreport | ⟨id, rfl | rfl⟩
  · obtain ⟨id, rfl | ⟨-, rfl⟩ | ⟨-, rfl⟩⟩ := Task.report_of_mem_plan hreport
    all_goals exact Or.inl rfl
  · exact Or.inl rfl
  · exact Or.inr ⟨id, rfl⟩

/-- Where no error is reported, no error code is. -/
theorem code_ne_of_mem_realize {s : Store} {t : Task} {tree : HopTree}
    (hquiet : ∀ d ∈ Notice.diagnostics (s.realize t tree).notices, d.severity ≠ .error) :
    ∀ d ∈ Notice.diagnostics (s.realize t tree).notices, ∀ n, d.code ≠ Report.errorCode n := by
  intro d hd n
  rcases severity_of_mem_realize hd with herror | ⟨id, rfl⟩
  · exact absurd herror (hquiet d hd)
  · nofun

/-- Joining objects into a net reports at most that there are none. -/
theorem mem_diagnostics_joinObjects {s : Store} {request signal : String} {objects : List Handle}
    {d : Diagnostic}
    (hd : d ∈ Notice.diagnostics (s.joinObjects request signal objects).notices) :
    d = Report.nothingCreated request := by
  unfold joinObjects at hd
  split at hd
  · exact List.mem_singleton.1 hd
  · split at hd
    · cases hd
    · cases hd

section Connect

variable {s : Store} (hs : s.Reachable) {signal : String} {source : Option Endpoint}
  {targets : List Endpoint} {created : List Handle}
  (hok : (s.connect signal source targets).result = .ok created)

include hs hok

/-- A connection that succeeds carries out the plan of its tree, and its errors come from there. -/
theorem Reachable.errors_of_connect :
    ∃ tree o objects,
      (s.spanningTree ("connection " ++ signal) signal (connectionEnds source targets)).result
        = .ok (some tree) ∧
      o = (s.spanningTree ("connection " ++ signal) signal
        (connectionEnds source targets)).store.realize
          { request := "connection " ++ signal, name := signal, mode := .signal } tree ∧
      o.result = .ok objects ∧
      (o.store.joinObjects ("connection " ++ signal) signal objects).result = .ok created ∧
      (s.connect signal source targets).store
        = (o.store.joinObjects ("connection " ++ signal) signal objects).store ∧
      ∀ d, d.severity = .error → (d ∈ Notice.diagnostics (s.connect signal source targets).notices ↔
        d ∈ Notice.diagnostics o.notices) := by
  have hthread := connect_eq_thread hok
  rw [hthread] at hok ⊢
  obtain ⟨tree, htree⟩ := hs.exists_tree hok
  obtain ⟨o, objects, ho, hrealize, hbind, hstore, hnotices⟩ := thread_stages htree hok
  refine ⟨tree, o, objects, htree, ho, hrealize, hbind, hstore, fun d hd => ?_⟩
  rw [hnotices, spanningTree_silent htree, List.nil_append, List.mem_append]
  constructor
  · rintro (h | h)
    · exact h
    · rw [mem_diagnostics_joinObjects h] at hd
      cases hd
  · exact Or.inl

/-- A connection that reports no error gives each hop of its tree the object that the hop asks for.
These objects are the net of the signal, and they thread it. -/
theorem Reachable.met_of_connect
    (hquiet : ∀ d ∈ Notice.diagnostics (s.connect signal source targets).notices,
      d.severity ≠ .error) :
    ∃ tree net,
      (s.spanningTree ("connection " ++ signal) signal (connectionEnds source targets)).result
        = .ok (some tree) ∧
      Task.Clean { request := "connection " ++ signal, name := signal, mode := .signal } s none
        tree ∧
      SameHierarchy s (s.connect signal source targets).store ∧
      (s.connect signal source targets).store.IsNet net signal created ∧
      (s.connect signal source targets).store.Threaded tree.hop.object created ∧
      List.Forall₂ ((s.connect signal source targets).store.Meets net)
        (Task.demands { request := "connection " ++ signal, name := signal, mode := .signal } s none
          tree) created := by
  obtain ⟨tree, o, objects, htree, rfl, hrealize, hjoin, hstore, herrors⟩ :=
    hs.errors_of_connect hok
  obtain ⟨hhangs, -, texts, htexts⟩ := hs.spanningTree_spec htree
  rw [htexts] at hrealize hjoin hstore herrors
  have hcoherent := hs.coherent.withTexts texts
  have hsilent := code_ne_of_mem_realize fun d hd herror =>
    hquiet d ((herrors d herror).2 hd) herror
  obtain ⟨hclean, hcarried⟩ :=
    carriedOut_of_realize hcoherent hrealize fun d hd n _ => hsilent d hd n
  have hobjects : objects ≠ [] := by
    rintro rfl
    have hlength := (Task.demands_asked rfl tree hclean).length_eq.trans hcarried.holds.length_eq
    cases tree with
    | node top branches => simp [HopTree.hops_node] at hlength
  obtain ⟨rfl, net, hnet⟩ := joinObjects_cases hjoin hobjects
  rw [← hstore] at hnet
  have hjoined := joined_of_addNet hnet
  obtain ⟨hisNet, hthreaded, -⟩ := threaded_of_realize hcoherent rfl
    (hangs_withTexts hhangs texts) hrealize (fun d hd n _ => hsilent d hd n) hnet
  have hmeets := hcarried.meets hjoined
  unfold Task.Clean at hclean
  unfold Task.demands at hmeets
  rw [plan_withTexts] at hclean hmeets
  have hh := hcarried.hierarchy.trans hjoined.hierarchy
  exact ⟨tree, net, htree, hclean, ⟨hh.frame, hh.child, hh.placement⟩, hisNet, hthreaded, hmeets⟩

end Connect

end Store

end Interconnect
