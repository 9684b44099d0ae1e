import Interconnect.Proofs.Request.Framing
import Interconnect.Proofs.Request.Making
import Interconnect.Proofs.Request.Reporting
import Interconnect.Proofs.Request.Verdict
import Interconnect.Proofs.Request.Visiting

/-!
# The hops that a connection has made its objects for

A connection carries out the plan of its tree and joins what was created into a net.  `Traced` says
of the store that it leaves, hop by hop, what is there: for each object that was created, the hop
that it was made for and the name that was handed down to that hop; and for each hop, whether it has
got its object or not, that something is registered under the id that it asked for.
-/

namespace Interconnect

/-- What a connection realizes. -/
def Task.connecting (signal : String) : Task :=
  { request := "connection " ++ signal, name := signal, mode := .signal }

namespace Store

/-- The objects of a connection, each with the hop of the tree that it was made for. -/
def MakesFor (s : Store) (signal : String) (ends : List (Endpoint × Heading)) (tree : HopTree)
    (made : List (Hop × Handle)) : Prop :=
  let found := (s.spanningTree ("connection " ++ signal) signal ends).store
  found.Makes ((Task.connecting signal).hopSteps s none tree)
    (found.realize (.connecting signal) tree).store made

/-- The later store has what the hops of the tree asked for in the earlier one.  The objects that
were made, each with its hop, have joined a net. -/
structure Traced (s s' : Store) (t : Task) (tree : HopTree) (made : List (Hop × Handle)) :
    Prop where
  extended : s.Extends s'
  object : ∀ y ∈ made, ∃ above sub d clash net, t.Visits s none tree above sub ∧ sub.hop = y.1 ∧
    t.Gets s above sub.hop d clash ∧ (t.atHop s above sub.hop).2 = d.name ∧
    s'.Holds y.2 d.owner d.name (d.part.joined net)
  registered : ∀ {above : Option String} {sub : HopTree} {d : Demand} {clash : Bool},
    t.Visits s none tree above sub → .create d clash ∈ (t.atHop s above sub.hop).1 →
    (s'.objectById? (s.demandId d)).isSome
  nodup : (made.map Prod.snd).Nodup

/-! ## What pins and ports were made for -/

section Made

variable {s s' : Store} {t : Task} {tree : HopTree} {made : List (Hop × Handle)}
  (h : s.Traced s' t tree made) {y : Hop × Handle} (hy : y ∈ made) {o : Object} {owner : Handle}
  (ho : s'.object? y.2 = some o)

include h hy ho

/-- A pin was made for an instance.  It connects to the name that was handed down, and its own name
is handed on. -/
theorem Traced.exists_of_pin {connection : String} {inverted : Bool} {net : Option Handle}
    (hbody : o.body = .part owner (.pin connection inverted net)) :
    ∃ above sub x i, t.Visits s none tree above sub ∧ sub.hop = y.1 ∧ y.1.object = owner ∧
      s.object? owner = some x ∧ x.body = .inst i ∧ connection = above.getD "" ∧
      (t.atHop s above y.1).2 = o.name := by
  obtain ⟨above, sub, d, clash, net', hvisits, hhop, hgets, hname, hholds⟩ := h.object y hy
  obtain ⟨howner, hsame, hpart⟩ := hholds.unique ⟨o, ho, rfl, hbody⟩
  rw [hhop] at hgets hname
  rw [hsame] at hname
  cases hgets with
  | declaration => cases hpart
  | port => cases hpart
  | @pin x i hx hi =>
    cases hpart
    exact ⟨above, sub, x, i, hvisits, hhop, howner, howner ▸ hx, hi, rfl, hname⟩

/-- A port was made for a module below its default instance, and it has the name of the pin there.
-/
theorem Traced.exists_of_port (hs : s.Coherent) (hhangs : tree.Hangs s) {direction : PortDirection}
    {net : Option Handle} (hbody : o.body = .part owner (.port direction net)) :
    ∃ name hop branches sub, t.Visits s none tree name (.node hop branches) ∧ sub ∈ branches ∧
      sub.hop = y.1 ∧ y.1.object = owner ∧ direction = y.1.heading.portDirection ∧
      s.frame owner = some (false, some hop.object) ∧ (t.atHop s name hop).2 = o.name := by
  obtain ⟨above, sub, d, clash, net', hvisits, hhop, hgets, -, hholds⟩ := h.object y hy
  obtain ⟨howner, hsame, hpart⟩ := hholds.unique ⟨o, ho, rfl, hbody⟩
  cases hgets with
  | declaration => cases hpart
  | pin => cases hpart
  | @port x m name habove hx hm =>
    cases hpart
    rcases hvisits.exists_upper with ⟨hnone, -⟩ | ⟨name', hop, branches, hupper, hb, hname⟩
    · rw [habove] at hnone
      cases hnone
    · have hf := hs.frame_of_above? (frame_of_module hx hm) (hupper.within.above?_eq hhangs hb)
      rw [habove] at hname
      refine ⟨name', hop, branches, sub, hupper, hb, hhop, ?_, ?_, howner ▸ hf, ?_⟩
      · rw [← hhop]
        exact howner
      · rw [hhop]
      · rw [← Option.some.inj hname]
        exact hsame

end Made

/-! ## Joining what was created -/

/-- Objects that are joined stay what they are, and nothing but their net is new. -/
theorem joinObjects_extends {s : Store} (hs : s.Coherent) {request signal : String}
    {objects created : List Handle}
    (hok : (s.joinObjects request signal objects).result = .ok created) :
    created = objects ∧ s.Extends (s.joinObjects request signal objects).store ∧
      ∀ c ∈ objects, ∀ {owner : Handle} {name : String} {p : Part}, s.Holds c owner name p →
        ∃ net, (s.joinObjects request signal objects).store.Holds c owner name (p.joined net) := by
  cases objects with
  | nil =>
    cases hok
    exact ⟨rfl, .refl hs, nofun⟩
  | cons first others =>
    obtain ⟨rfl, net, hnet⟩ := joinObjects_cases hok (List.cons_ne_nil first others)
    exact ⟨rfl, addNet_extends hs hnet, fun c hc _ _ _ hholds =>
      ⟨net, (joined_of_addNet hnet).holds hc hholds⟩⟩

section Plan

variable {s : Store} {t : Task} {tree : HopTree}

theorem mem_plan_of_mem_hopSteps {x : Hop × Step} (hx : x ∈ t.hopSteps s none tree) :
    x.2 ∈ t.plan s none tree := by
  rw [← Task.map_hopSteps]
  exact List.mem_map_of_mem hx

/-- The plan for the tree of some endpoints can be carried out. -/
theorem Reachable.ready_hopSteps (hs : s.Reachable) (hname : t.name ≠ "")
    {ends : List (Endpoint × Heading)}
    (htree : (s.spanningTree t.request t.name ends).result = .ok (some tree))
    (texts : StringTable) : (s.withTexts texts).Ready (t.hopSteps s none tree) where
  coherent := hs.coherent.withTexts texts
  new x hx := isNew_plan t s none tree x.2 (mem_plan_of_mem_hopSteps hx)
  sound x hx := by
    refine hs.isSound_of_mem_plan hname htree texts x.2 ?_
    rw [plan_withTexts]
    exact mem_plan_of_mem_hopSteps hx
  leaf x hx d hd := by
    have hstep := mem_plan_of_mem_hopSteps hx
    obtain ⟨hop, step⟩ := x
    cases step with
    | create d' clash =>
      cases hd
      exact Part.isLeaf_of_isRequested (asked_of_mem_plan hstep).isRequested
    | report _ => cases hd
    | stray _ => cases hd

variable (ht : t.mode = .signal)

include ht

/-- The steps for a hop tell clashes as the hop does. -/
theorem tellsClash_of_mem_hopSteps {x : Hop × Step} (hx : x ∈ t.hopSteps s none tree) :
    TellsClash x.1.clash x.2 := by
  have hplan := mem_plan_of_mem_hopSteps hx
  obtain ⟨above, sub, -, hhop, hstep⟩ := Task.exists_visits_of_mem tree hx
  obtain ⟨hop, step⟩ := x
  cases step with
  | create d clash =>
    rw [hhop]
    exact (Task.gets_of_mem ht hstep).1.clash_eq
  | report d =>
    obtain ⟨id, rfl | ⟨-, rfl⟩ | ⟨-, rfl⟩⟩ := Task.report_of_mem_plan hplan
    all_goals nofun
  | stray _ => trivial

end Plan

/-- Once the steps of the hops are carried out and what was created is joined, the hops can be
traced in the store that is left. -/
theorem traced_of_makes {s s₀ s₁ : Store} {t : Task} (ht : t.mode = .signal) {tree : HopTree}
    (hbase : s.Extends s₀) (hready : s₀.Ready (t.hopSteps s none tree)) {made : List (Hop × Handle)}
    (hmakes : s₀.Makes (t.hopSteps s none tree) s₁ made) (hnodup : (made.map Prod.snd).Nodup)
    {request signal : String} {created : List Handle}
    (hjoin : (s₁.joinObjects request signal (made.map Prod.snd)).result = .ok created) :
    created = made.map Prod.snd ∧
      s₁.Extends (s₁.joinObjects request signal (made.map Prod.snd)).store ∧
      s.Traced (s₁.joinObjects request signal (made.map Prod.snd)).store t tree made := by
  have hcarried := hmakes.extended hready
  obtain ⟨rfl, hjoined, hholds⟩ := joinObjects_extends hcarried.coherent hjoin
  refine ⟨rfl, hjoined, ?_⟩
  constructor
  case extended => exact (hbase.trans hcarried).trans hjoined
  case object =>
    intro y hy
    obtain ⟨d, clash, hmem, hgot⟩ := hmakes.holds hready y hy
    obtain ⟨above, sub, hvisits, hhop, hstep⟩ := Task.exists_visits_of_mem tree hmem
    obtain ⟨hgets, hname⟩ := Task.gets_of_mem ht hstep
    obtain ⟨net, hfinal⟩ := hholds y.2 (List.mem_map_of_mem hy) hgot
    exact ⟨above, sub, d, clash, net, hvisits, hhop.symm, hgets, hname, hfinal⟩
  case registered =>
    intro above sub d clash hvisits hstep
    obtain ⟨o, ho⟩ := (Task.gets_of_mem ht hstep).1.exists_owner
    have hfound := hmakes.registered hready (hvisits.mem_hopSteps hstep)
    rw [hbase.demandId (name?_of_object? ho)] at hfound
    obtain ⟨c, hc⟩ := Option.isSome_iff_exists.1 hfound
    rw [hjoined.objectById? hcarried.coherent hc, Option.isSome_some]
  case nodup => exact hnodup

/-- The stages of a thread that has a tree.  Realizing the tree is carrying out the steps of its
hops. -/
structure Stages (s : Store) (t : Task) (ends : List (Endpoint × Heading))
    (bind : Store → List Handle → Outcome StoreError (List Handle)) (tree : HopTree)
    (created : List Handle) (found : Store) (o : Outcome Inconsistency (List Handle))
    (made : List (Hop × Handle)) : Prop where
  found_eq : (s.spanningTree t.request t.name ends).store = found
  interned : ∃ texts, found = s.withTexts texts
  ready : found.Ready (t.hopSteps s none tree)
  realized : o = found.realize t tree
  carried : o = found.carryOut t.request ((t.hopSteps s none tree).map Prod.snd)
  makes : found.Makes (t.hopSteps s none tree) o.store made
  result : o.result = .ok (made.map Prod.snd)
  bound : (bind o.store (made.map Prod.snd)).result = .ok created
  store : (s.thread t ends bind).store = (bind o.store (made.map Prod.snd)).store
  notices : Notice.diagnostics (s.thread t ends bind).notices
    = Notice.diagnostics o.notices
      ++ Notice.diagnostics (bind o.store (made.map Prod.snd)).notices

/-- A thread that succeeds goes through these stages. -/
theorem Reachable.exists_stages {s : Store} (hs : s.Reachable) {t : Task} (hname : t.name ≠ "")
    {ends : List (Endpoint × Heading)}
    {bind : Store → List Handle → Outcome StoreError (List Handle)} {tree : HopTree}
    (htree : (s.spanningTree t.request t.name ends).result = .ok (some tree))
    {created : List Handle} (hok : (s.thread t ends bind).result = .ok created) :
    ∃ found o made, s.Stages t ends bind tree created found o made := by
  obtain ⟨o, objects, ho, hrealize, hbind, hstore, hnotices⟩ := thread_stages htree hok
  obtain ⟨-, -, texts, htexts⟩ := hs.spanningTree_spec htree
  have hrun : o = (s.withTexts texts).carryOut t.request
      ((t.hopSteps s none tree).map Prod.snd) := by
    rw [ho, htexts, realize, plan_withTexts, Task.map_hopSteps]
  have hmade := hrealize
  rw [hrun] at hmade
  obtain ⟨made, hmakes, rfl⟩ := exists_makes hmade
  rw [← hrun] at hmakes
  rw [spanningTree_silent htree, List.nil_append] at hnotices
  exact ⟨s.withTexts texts, o, made, htexts, ⟨texts, rfl⟩, hs.ready_hopSteps hname htree texts,
    htexts ▸ ho, hrun, hmakes, hrealize, hbind, hstore, hnotices⟩

section Connect

variable {s : Store} (hs : s.Reachable) {signal : String} {source : Option Endpoint}
  {targets : List Endpoint} {created : List Handle}
  (hok : (s.connect signal source targets).result = .ok created) {tree : HopTree}
  (htree : (s.spanningTree ("connection " ++ signal) signal
    (connectionEnds source targets)).result = .ok (some tree))

include hs hok htree

/-- What a connection has made of its tree. -/
theorem Reachable.traced_of_connect :
    ∃ made, s.MakesFor signal (connectionEnds source targets) tree made ∧
      made.map Prod.snd = created ∧
      s.Traced (s.connect signal source targets).store (.connecting signal) tree made ∧
      clashesOf (Notice.diagnostics (s.connect signal source targets).notices)
        = (s.connect signal source targets).store.clashReports ("connection " ++ signal) Hop.clash
          made := by
  have hname : (Task.connecting signal).name ≠ "" := by
    rintro heq
    obtain rfl : signal = "" := heq
    cases hok
  have ht : (Task.connecting signal).mode = .signal := rfl
  change (s.spanningTree (Task.connecting signal).request (Task.connecting signal).name
    (connectionEnds source targets)).result = .ok (some tree) at htree
  have hthread : s.connect signal source targets
      = s.thread (.connecting signal) (connectionEnds source targets)
        fun s objects => s.joinObjects ("connection " ++ signal) signal objects :=
    connect_eq_thread hok
  rw [hthread] at hok ⊢
  obtain ⟨found, o, made, hstages⟩ := hs.exists_stages hname htree hok
  obtain ⟨texts, rfl⟩ := hstages.interned
  have hready := hstages.ready
  have hnodup : (made.map Prod.snd).Nodup := by
    obtain ⟨objects, hresult, hrealized⟩ := hs.realize_completes hname htree
    rw [hstages.found_eq, ← hstages.realized, hstages.result] at hresult
    cases hresult
    exact hrealized.nodup
  have hbase : s.Extends (s.withTexts texts) := ⟨hs.coherent.withTexts texts, ⟨rfl, rfl, rfl⟩, id⟩
  obtain ⟨rfl, hjoined, htraced⟩ :=
    traced_of_makes ht hbase hready hstages.makes hnodup hstages.bound
  rw [← hstages.store] at htraced hjoined
  refine ⟨made, ?_, rfl, htraced, ?_⟩
  · have hmakes := hstages.makes
    rw [hstages.realized, ← hstages.found_eq] at hmakes
    exact hmakes
  · have hsilent : clashesOf (Notice.diagnostics (o.store.joinObjects ("connection " ++ signal)
        signal (made.map Prod.snd)).notices) = [] :=
      clashesOf_eq_nil fun d hd => by
        rw [mem_diagnostics_joinObjects hd]
        nofun
    rw [hstages.notices, clashesOf_append, hsilent, List.append_nil, hstages.carried]
    exact hstages.makes.clashes hready _ (fun _ => tellsClash_of_mem_hopSteps ht) hjoined

end Connect

end Store

end Interconnect
