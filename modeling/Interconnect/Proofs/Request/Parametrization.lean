import Interconnect.Proofs.Request.Adjusting
import Interconnect.Proofs.Request.Reporting

/-!
# What a parameter leaves behind

A request for a parameter that succeeds, and reports no hop, leaves parameters and adjustments that
give the parameter to every endpoint, all of them tagged with its name.  The proof follows the
request through its stages: the plan of its tree is carried out, `tagged_of_tagAll` is about the
tags, and `parametrized_of_parametrize` puts the stages together.
-/

namespace Interconnect.Store

/-! ## Tags -/

theorem attribute?_write {s : Store} {h : Handle} {o : Object} (ho : s.object? h = some o)
    (name : String) (a : Attribute) : (s.write h name a).attribute? h name = some a := by
  rw [attribute?, object?_write, if_pos rfl, ho]
  exact OrderedMap.get?_insert_self _ _ _

theorem attribute?_write_of_ne {s : Store} {h h' : Handle} (hne : h ≠ h') (name name' : String)
    (a : Attribute) : (s.write h name a).attribute? h' name' = s.attribute? h' name' := by
  rw [attribute?, object?_write, if_neg hne, attribute?]

theorem holds_write {s : Store} {c owner : Handle} {given : String} {q : Part}
    (hc : s.Holds c owner given q) (h : Handle) (name : String) (a : Attribute) :
    (s.write h name a).Holds c owner given q := by
  obtain ⟨o, ho, hgiven, hbody⟩ := hc
  by_cases hh : h = c
  · exact ⟨o.write name a, by rw [object?_write, if_pos hh, ho]; rfl, hgiven, hbody⟩
  · exact ⟨o, by rw [object?_write, if_neg hh, ho], hgiven, hbody⟩

theorem sameHierarchy_write (s : Store) (h : Handle) (name : String) (a : Attribute) :
    SameHierarchy s (s.write h name a) := by
  have houtline := outline?_write s h name a
  exact ⟨frame_congr houtline, by rw [target_congr houtline], by rw [target_congr houtline]⟩

/-- What tagging objects does. -/
structure Tagged (s s' : Store) (name : String) (objects : List Handle) : Prop where
  coherent : s.Coherent → s'.Coherent
  hierarchy : SameHierarchy s s'
  holds : ∀ {c owner : Handle} {given : String} {q : Part}, s.Holds c owner given q →
    s'.Holds c owner given q
  kept : ∀ {c : Handle} {a : Attribute}, a.constant = true →
    s.attribute? c "parameter" = some a → s'.attribute? c "parameter" = some a
  tagged : ∀ c ∈ objects, s'.attribute? c "parameter" = some { value := name, constant := true }

/-- Objects that could all be tagged are tagged. -/
theorem tagged_of_tagAll {s : Store} {name : String} {objects : List Handle}
    (hok : (tagAll name s objects).result = .ok ()) :
    Tagged s (tagAll name s objects).store name objects := by
  induction objects generalizing s with
  | nil => exact ⟨id, .refl s, fun h => h, fun _ h => h, by simp⟩
  | cons c rest ih =>
    unfold tagAll at hok ⊢
    split at hok
    · rename_i s₁ hset
      obtain ⟨-, o, ho, hfree, rfl⟩ := setAttribute_cases hset
      have hrest := ih hok
      constructor
      case coherent =>
        exact fun hs => hrest.coherent
          (hs.congr (outline?_write _ _ _ _) (sameIndices_write _ _ _ _))
      case hierarchy => exact (sameHierarchy_write _ _ _ _).trans hrest.hierarchy
      case holds => exact fun h => hrest.holds (holds_write h _ _ _)
      case kept =>
        intro c' a hconstant ha
        -- A constant tag would not have been written again.
        have hne : c ≠ c' := by
          rintro rfl
          rw [attribute?, ho, Option.bind_some] at ha
          rw [hfree a ha] at hconstant
          cases hconstant
        exact hrest.kept hconstant ((attribute?_write_of_ne hne _ _ _).trans ha)
      case tagged =>
        intro c' hc'
        rcases List.mem_cons.1 hc' with rfl | hc'
        · exact hrest.kept rfl (attribute?_write ho _ _)
        · exact hrest.tagged c' hc'
    · cases hok

/-- Objects, if there are any, are tagged. -/
theorem tagObjects_cases {s : Store} {request name : String} {objects created : List Handle}
    (hok : (s.tagObjects request name objects).result = .ok created) (hne : objects ≠ []) :
    objects = created ∧
      Tagged s (s.tagObjects request name objects).store name created := by
  unfold tagObjects at hok ⊢
  rw [if_neg (by simpa using hne)] at hok ⊢
  obtain ⟨⟨⟩, htag, hdone, heq⟩ := Outcome.andThen_eq_ok hok
  cases hdone
  rw [heq]
  exact ⟨rfl, tagged_of_tagAll htag⟩

/-! ## The request -/

/-- A request for a parameter that succeeds is carried out. -/
theorem parametrize_eq_thread {s : Store} {name value : String} {targets : List Endpoint}
    {isLocal : Bool} {created : List Handle}
    (hok : (s.parametrize name value targets isLocal).result = .ok created) :
    s.parametrize name value targets isLocal
      = s.thread { request := "parameter " ++ name, name, mode := .parameter value isLocal }
          (targets.map fun t => (t, .unset))
          fun s objects => s.tagObjects ("parameter " ++ name) name objects := by
  unfold parametrize at hok ⊢
  split at hok
  · cases hok
  · rename_i hgiven
    rw [if_neg hgiven]

/-- An object at the place of an endpoint gives it the parameter. -/
theorem supplied_of_gives {s s' : Store} (hh : SameHierarchy s s') {t : Task} {value : String}
    {isLocal : Bool} {hop : Hop} {above : Option String} {d : Demand}
    (hgives : t.Gives s value isLocal hop above d) {created : List Handle} {c h : Handle}
    (hc : c ∈ created) (hgot : s'.Obtains d c) (hplace : s.IsPlace h d.owner) :
    s'.Supplied created h := by
  cases hplace with
  | itself hframe =>
    obtain ⟨isLocal', hpart⟩ := hgives.at_module hframe
    rw [← hh.frame] at hframe
    obtain ⟨m, hm, -⟩ := exists_module_of_frame hframe
    exact .module hm hc (hgot.isParameter hpart)
  | inst htarget hframe =>
    obtain ⟨isLocal', hpart⟩ := hgives.at_module hframe
    have hparameter := hgot.isParameter hpart
    rw [← hh.placement] at htarget
    rw [← hh.frame] at hframe
    obtain ⟨i, m, hi, hmodule, hm, hres⟩ := exists_instance_of_frame htarget hframe
    rw [← hmodule] at hparameter
    exact .inst hi hm hres hc hparameter
  | placement htarget hframe =>
    obtain ⟨outer, hpart⟩ := hgives.at_instance htarget
    rw [← hh.placement] at htarget
    rw [← hh.frame] at hframe
    obtain ⟨i, m, hi, -, hm, hres⟩ := exists_instance_of_frame htarget hframe
    exact .placement hi hm hres hc (hgot.isAdjustment hpart)

/-- What was asked for gives the parameter to the modules, once it is there. -/
theorem parametrized_of_obtains {s s' : Store} (hs : s.Reachable) (hs' : s'.Coherent)
    (hh : SameHierarchy s s') {t : Task} {value : String} {isLocal : Bool}
    (ht : t.mode = .parameter value isLocal) {tree : HopTree} (hhangs : tree.Hangs s)
    (hclean : t.Clean s none tree) {created : List Handle}
    (hgot : List.Forall₂ s'.Obtains (t.demands s none tree) created) (hnodup : created.Nodup) :
    s'.Parametrized tree.hop.object value isLocal created := by
  obtain ⟨top, rest, hdemands, hwants, hhung⟩ := Task.demands_hung hhangs hclean
  rw [hdemands] at hgot
  rw [← hwants.owner_eq]
  have hgives := hwants.gives ht
  generalize hname : (none : Option String) = handed at hgives
  cases hgives with
  | root hframe =>
    exact parametrized_of_drawn hs' hh hgot hnodup hframe rfl
      (fun d hd => (hhung d hd).drawn ht hs.coherent) fun d hd => (hhung d hd).owner_ne hs
  | parameter => cases hname
  | adjustment => cases hname

/-- What was asked for at the place of an endpoint gives it the parameter, once it is there. -/
theorem supplied_of_obtains {s s' : Store} (hh : SameHierarchy s s') {t : Task} {value : String}
    {isLocal : Bool} (ht : t.mode = .parameter value isLocal) {tree : HopTree}
    (hclean : t.Clean s none tree) {created : List Handle}
    (hgot : List.Forall₂ s'.Obtains (t.demands s none tree) created) {hop : Hop}
    (hpasses : tree.Passes hop) {h : Handle} (hplace : s.IsPlace h hop.object) :
    s'.Supplied created h := by
  obtain ⟨d, hd, above, hwants⟩ := Task.exists_wanted_of_passes hpasses hclean
  obtain ⟨c, hc, hgot'⟩ := exists_right_of_mem hgot hd
  exact supplied_of_gives hh (hwants.gives ht) hc hgot' (by rwa [hwants.owner_eq])

/-- A request for a parameter that succeeds, and reports neither a taken id nor an instance without
a name nor an instance that would have a local parameter, gives the parameter to the modules from
the root of the reduced tree down to every endpoint, and tags all that it creates. -/
theorem parametrized_of_parametrize {s : Store} (hs : s.Reachable) {name value : String}
    {targets : List Endpoint} {isLocal : Bool} {created : List Handle}
    (hok : (s.parametrize name value targets isLocal).result = .ok created)
    (hquiet : ∀ d ∈ Notice.diagnostics (s.parametrize name value targets isLocal).notices,
      ∀ n ∈ [300, 301, 303], d.code ≠ Report.errorCode n) :
    ∃ tree,
      (s.spanningTree ("parameter " ++ name) name (targets.map fun t => (t, .unset))).result
        = .ok (some tree) ∧
      (s.parametrize name value targets isLocal).store.Parametrized tree.hop.object value isLocal
        created ∧
      (∀ c ∈ created, (s.parametrize name value targets isLocal).store.attribute? c "parameter"
        = some { value := name, constant := true }) ∧
      ∀ e ∈ targets,
        (s.parametrize name value targets isLocal).store.Supplied created e.object := by
  have hthread := parametrize_eq_thread hok
  rw [hthread] at hok hquiet ⊢
  obtain ⟨tree, htree⟩ := hs.exists_tree hok
  obtain ⟨o, objects, rfl, hrealize, htag, hstore, hnotices⟩ := thread_tree_cases htree hok
  obtain ⟨hhangs, hplaces, texts, htexts⟩ := hs.spanningTree_spec htree
  rw [htexts] at hrealize htag hstore hnotices
  obtain ⟨hclean, hcarried⟩ := carriedOut_of_realize (hs.coherent.withTexts texts) hrealize
    fun d hd => hquiet d ((hnotices d).2 (Or.inr (Or.inl hd)))
  -- The plan does not depend on the texts.
  rw [Task.Clean, plan_withTexts] at hclean
  have hholds := hcarried.holds
  rw [Task.demands, plan_withTexts] at hholds
  have hobjects : objects ≠ [] := by
    rintro rfl
    obtain ⟨top, rest, hdemands, -⟩ := Task.demands_hung hhangs hclean
    rw [← Task.demands, hdemands] at hholds
    cases hholds
  obtain ⟨rfl, htagged⟩ := tagObjects_cases htag hobjects
  rw [hstore]
  have hsame : SameHierarchy s (s.withTexts texts) := ⟨rfl, rfl, rfl⟩
  have hh := (hsame.trans hcarried.hierarchy).trans htagged.hierarchy
  have hgot := hholds.imp fun _ _ h => htagged.holds h
  refine ⟨tree, htree, ?_, htagged.tagged, fun e he => ?_⟩
  · exact parametrized_of_obtains hs (htagged.coherent hcarried.coherent) hh rfl hhangs hclean hgot
      hcarried.nodup
  · obtain ⟨hop, hpasses, hplace⟩ := hplaces (e, .unset) (List.mem_map.2 ⟨e, he, rfl⟩)
    exact supplied_of_obtains hh rfl hclean hgot hpasses hplace

/-- The memory's instance and the leaf, each under a name of its own, and the top. -/
def renamedEnds : List Endpoint :=
  [{ Endpoint.plain 5 with name := some "ROWS" }, { Endpoint.plain 2 with name := some "SIZE" },
    .plain 0]

/-- In `nested`, the parameter `DEPTH` of the top sets `SIZE` of the leaf, which sets `ROWS` of the
memory. -/
theorem parametrized_nested :
    nested.Reachable ∧
      (nested.parametrize "DEPTH" "16" renamedEnds true).result = .ok [7, 8, 9, 10] ∧
      Notice.diagnostics (nested.parametrize "DEPTH" "16" renamedEnds true).notices = [] ∧
      ∃ tree,
        (nested.spanningTree "parameter DEPTH" "DEPTH"
          (renamedEnds.map fun t => (t, .unset))).result = .ok (some tree) ∧
        (nested.parametrize "DEPTH" "16" renamedEnds true).store.Parametrized tree.hop.object
          "16" true [7, 8, 9, 10] ∧
        (∀ c ∈ [7, 8, 9, 10],
          (nested.parametrize "DEPTH" "16" renamedEnds true).store.attribute? c "parameter"
            = some { value := "DEPTH", constant := true }) ∧
        ∀ e ∈ renamedEnds,
          (nested.parametrize "DEPTH" "16" renamedEnds true).store.Supplied [7, 8, 9, 10]
            e.object := by
  have hreachable : nested.Reachable := reachable_execAll _
  have hresult :
      (nested.parametrize "DEPTH" "16" renamedEnds true).result = .ok [7, 8, 9, 10] := rfl
  have hnone :
      Notice.diagnostics (nested.parametrize "DEPTH" "16" renamedEnds true).notices = [] := rfl
  refine ⟨hreachable, hresult, hnone, ?_⟩
  exact parametrized_of_parametrize hreachable hresult (by simp [hnone])

end Interconnect.Store
