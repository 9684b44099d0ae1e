import Interconnect.Proofs.Request.Parametrization
import Interconnect.Proofs.Request.Routing
import Interconnect.Proofs.Request.Verdict
import Interconnect.Proofs.Route.Reducing

/-!
# The tree of a request is the smallest one that joins its endpoints

A request that is not refused has a tree.  The tree lies in the hierarchy, it passes every
endpoint's own hop, and it ends at such hops only, so that no hop of it could be left out below.
On top nothing can be left out either: the topmost hop was chosen, or the tree forks there, and
what `reduce` has cut off above it are hops that were not chosen and had one branch each
(`CutFrom`).

Something is always left, since every endpoint chooses its own hop.  So no request reports that
nothing is left.
-/

namespace Interconnect

/-- The endpoints of a request with their headings. -/
def Request.ends : Request → List (Endpoint × Heading)
  | connection _ source targets => Store.connectionEnds source targets
  | parameter _ _ targets _ => targets.map fun t => (t, .unset)

namespace Store

/-! ## The tree in the hierarchy -/

/-- The one place lies directly above the other: an instance lies in the module that it is placed
in, and a module below its default instance. -/
inductive Edge (s : Store) : Handle → Handle → Prop where
  | placed {parent inst : Handle} {m : Module} {i : Instance} : s.instance? inst = some i →
    i.parent = some parent → s.module? parent = some m → Edge s parent inst
  | default {inst h : Handle} {m : Module} {i : Instance} : s.module? h = some m →
    m.defaultInstance = some inst → s.instance? inst = some i → i.module = h → Edge s inst h

/-- What a climb passes next lies directly above. -/
theorem Coherent.edge {s : Store} (hs : s.Coherent) {h upper : Handle}
    (ha : s.above? h = some (some upper)) : s.Edge upper h := by
  rcases hs.above?_cases ha with ⟨hframe, htarget⟩ | ⟨-, htarget, f, hframe⟩
  · obtain ⟨m, hm, -, hdefault⟩ := exists_module_of_frame hframe
    rw [target_placement_eq] at htarget
    obtain ⟨i, hi, hmodule⟩ := Option.map_eq_some_iff.1 htarget
    exact .default hm hdefault hi hmodule
  · obtain ⟨m, hm, -⟩ := exists_module_of_frame hframe
    rw [target_child_eq] at htarget
    obtain ⟨i, hi, hparent⟩ := Option.bind_eq_some_iff.1 htarget
    exact .placed hi hparent hm

/-- The tree joins the endpoints, and nothing of it can be left out. -/
structure Spans (s : Store) (name : String) (ends : List (Endpoint × Heading)) (tree : HopTree) :
    Prop where
  edge : ∀ {hop : Hop} {branches : List HopTree}, HopTree.Within (.node hop branches) tree →
    ∀ b ∈ branches, s.Edge hop.object b.hop.object
  own : ∀ e ∈ ends, ∃ hop, tree.Passes hop ∧ s.IsOwn name ends e hop
  leaf : ∀ {hop : Hop}, HopTree.Within (.node hop []) tree → ∃ e ∈ ends, s.IsOwn name ends e hop
  top : tree.hop.explicit = true ∨ 1 < tree.branches.length

/-- Whatever tree endpoints have, it joins them, and it is cut from the one that their walks are
merged into. -/
theorem Reachable.spans {s : Store} (hs : s.Reachable) {request name : String}
    {ends : List (Endpoint × Heading)} {tree : HopTree}
    (hok : (s.spanningTree request name ends).result = .ok (some tree)) :
    s.Spans name ends tree ∧ ∃ s' walks merged, s.chains ends = (s', .ok walks) ∧
      HopTree.merge name walks = .ok (some merged) ∧ tree.CutFrom merged := by
  obtain ⟨s', walks, chains, merged, hwalked, -, -, -, hmerge, -, hreduce⟩ := hs.exists_merged hok
  obtain ⟨hcut, htop⟩ := HopTree.cutFrom_of_reduce hreduce
  obtain ⟨hhangs, -⟩ := hs.spanningTree_spec hok
  refine ⟨⟨?_, ?_, ?_, htop⟩, s', walks, merged, hwalked, hmerge, hcut⟩
  · intro hop branches hwithin b hb
    exact hs.coherent.edge (hwithin.above?_eq hhangs hb)
  · intro e he
    exact hs.exists_own hok he
  · intro hop hleaf
    exact hs.exists_own_of_leaf hok hleaf

/-! ## What requests report -/

section Bind

variable {s : Store} {request name : String} {objects : List Handle} {d : Diagnostic}

theorem tagAll_silent (name : String) (s : Store) (objects : List Handle) :
    Notice.diagnostics (tagAll name s objects).notices = [] := by
  induction objects generalizing s with
  | nil => rfl
  | cons h rest ih =>
    unfold tagAll
    split
    · exact ih _
    · rfl

/-- Tagging objects reports at most that there are none. -/
theorem mem_diagnostics_tagObjects
    (hd : d ∈ Notice.diagnostics (s.tagObjects request name objects).notices) :
    d = Report.nothingCreated request := by
  unfold tagObjects at hd
  split at hd
  · exact List.mem_singleton.1 hd
  · cases htag : (tagAll name s objects).result with
    | error e =>
      rw [Outcome.andThen_of_error _ htag] at hd
      change d ∈ Notice.diagnostics (tagAll name s objects).notices at hd
      rw [tagAll_silent] at hd
      cases hd
    | ok u =>
      rw [Outcome.andThen_of_ok _ htag, Outcome.notices_after, mem_diagnostics, tagAll_silent] at hd
      rcases hd with hd | hd <;> cases hd

end Bind

/-- Realizing a tree does not report that nothing is left. -/
theorem code_ne_of_mem_diagnostics_realize {s : Store} {t : Task} {tree : HopTree} {d : Diagnostic}
    (hd : d ∈ Notice.diagnostics (s.realize t tree).notices) :
    d.code ≠ Report.warningCode 301 := by
  rcases mem_diagnostics_carryOut hd with hreport | ⟨id, rfl | rfl⟩
  · obtain ⟨id, rfl | ⟨-, rfl⟩ | ⟨-, rfl⟩⟩ := Task.report_of_mem_plan hreport
    all_goals nofun
  · nofun
  · nofun

section Requests

variable {s : Store} (hs : s.Reachable)

include hs

/-- A request that is carried out has a tree, and it does not report that nothing is left. -/
theorem Reachable.exists_tree_of_thread {t : Task} {ends : List (Endpoint × Heading)}
    {bind : Store → List Handle → Outcome StoreError (List Handle)}
    (hbind : ∀ s' objects, ∀ d ∈ Notice.diagnostics (bind s' objects).notices,
      d = Report.nothingCreated t.request)
    {created : List Handle} (hok : (s.thread t ends bind).result = .ok created) :
    (∃ tree, (s.spanningTree t.request t.name ends).result = .ok (some tree)) ∧
      ∀ d ∈ Notice.diagnostics (s.thread t ends bind).notices,
        d.code ≠ Report.warningCode 301 := by
  obtain ⟨tree, htree⟩ := hs.exists_tree hok
  obtain ⟨o, objects, rfl, -, -, -, hnotices⟩ := thread_stages htree hok
  refine ⟨⟨tree, htree⟩, fun d hd => ?_⟩
  rw [hnotices, spanningTree_silent htree, List.nil_append] at hd
  rcases List.mem_append.1 hd with hd | hd
  · exact code_ne_of_mem_diagnostics_realize hd
  · rw [hbind _ _ d hd]
    nofun

/-- A request that succeeds has a tree, and it does not report that nothing is left. -/
theorem Reachable.exists_tree_of_run {r : Request} {created : List Handle}
    (hok : (r.run s).result = .ok created) :
    (∃ tree, (s.spanningTree r.label r.name r.ends).result = .ok (some tree)) ∧
      ∀ d ∈ Notice.diagnostics (r.run s).notices, d.code ≠ Report.warningCode 301 := by
  cases r with
  | connection signal source targets =>
    rw [Request.run] at hok ⊢
    have hthread := connect_eq_thread hok
    rw [hthread] at hok ⊢
    exact hs.exists_tree_of_thread (fun _ _ _ => mem_diagnostics_joinObjects) hok
  | parameter name value targets isLocal =>
    rw [Request.run] at hok ⊢
    have hthread := parametrize_eq_thread hok
    rw [hthread] at hok ⊢
    exact hs.exists_tree_of_thread (fun _ _ _ => mem_diagnostics_tagObjects) hok

end Requests

/-- Every request that is not refused, which is one that passes its checks and whose endpoints have
one root, has a tree that joins its endpoints and that nothing can be left out of.  It is cut from
the tree that the walks from the endpoints are merged into.  The request reports neither before nor
after that that nothing is left. -/
theorem spans_of_not_refused {s : Store} (hs : s.Reachable) {r : Request}
    (hserved : ∀ e, ¬ s.Refuses r e) :
    (∃ tree, (s.spanningTree r.label r.name r.ends).result = .ok (some tree) ∧
      s.Spans r.name r.ends tree ∧ ∃ s' walks merged, s.chains r.ends = (s', .ok walks) ∧
        HopTree.merge r.name walks = .ok (some merged) ∧ tree.CutFrom merged) ∧
    ∀ d ∈ Notice.diagnostics (r.run s).notices, d.code ≠ Report.warningCode 301 := by
  obtain ⟨e, hrefuses, -⟩ | ⟨-, created, hok⟩ := hs.decided_run r
  · exact absurd hrefuses (hserved e)
  · obtain ⟨⟨tree, htree⟩, hcodes⟩ := hs.exists_tree_of_run hok
    exact ⟨⟨tree, htree, hs.spans htree⟩, hcodes⟩

/-- The leaf of `nested` and the memory in it: the leaf's own hop is on top, and the default
instance above it is cut off. -/
theorem spans_nested :
    (∀ e, ¬ nested.Refuses (.connection "clk" none [.plain 2, .plain 5]) e) ∧
      (∃ tree, (nested.spanningTree "connection clk" "clk"
          (connectionEnds none [.plain 2, .plain 5])).result = .ok (some tree) ∧
        nested.Spans "clk" (connectionEnds none [.plain 2, .plain 5]) tree ∧
        ∃ s' walks merged,
          nested.chains (connectionEnds none [.plain 2, .plain 5]) = (s', .ok walks) ∧
          HopTree.merge "clk" walks = .ok (some merged) ∧ tree.CutFrom merged) ∧
      ∀ d ∈ Notice.diagnostics
          (nested.connect "clk" none [.plain 2, .plain 5]).notices,
        d.code ≠ Report.warningCode 301 := by
  have hreachable : nested.Reachable := reachable_execAll _
  have hserved : ∀ e, ¬ nested.Refuses (.connection "clk" none [.plain 2, .plain 5]) e := by
    have hok : ((Request.connection "clk" none [.plain 2, .plain 5]).run nested).result
        = .ok [7, 8] := rfl
    obtain ⟨e, -, hfails⟩ | ⟨hserved, -⟩ :=
      hreachable.decided_run (.connection "clk" none [.plain 2, .plain 5])
    · rw [hfails.result] at hok
      cases hok
    · exact hserved
  exact ⟨hserved, spans_of_not_refused hreachable hserved⟩

end Store

end Interconnect
