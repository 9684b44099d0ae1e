import Interconnect.Proofs.Request.Staying

/-!
# Grafting

A module comes to its place as a whole: when its default instance is placed, every path that ended
at this instance goes on along the path of the container, and every other path stays as it is, the
path of the container among them (`Climbs.graft`, `Grafts`).  Nothing else that a command can do
changes the path of anything that is there (`KeepsPaths`).

`placement_grafts` is the step.  Over a run it follows that paths grow at their ends only
(`hierarchyPath_after`).
-/

namespace Interconnect

/-- A path that goes on along another one, if it ends at `n`. -/
def ledOn (n : Handle) (onward path : List Handle) : List Handle :=
  if path.getLast? = some n then path ++ onward else path

theorem ledOn_cons {n h : Handle} {onward path : List Handle} (hne : path ≠ []) :
    ledOn n onward (h :: path) = h :: ledOn n onward path := by
  unfold ledOn
  rw [List.getLast?_cons, List.getLast?_eq_some_getLast hne, Option.getD_some]
  split <;> rfl

theorem prefix_ledOn (n : Handle) (onward path : List Handle) : path <+: ledOn n onward path := by
  unfold ledOn
  split
  · exact List.prefix_append path onward
  · exact List.prefix_rfl

/-- When a root comes to lie below another place, the climbs that ended there go on, and the others
are as they were. -/
theorem Climbs.graft {above : Handle → Option (Option Handle)} {n upper : Handle}
    {onward : List Handle} (hroot : above n = some none) (hupper : Climbs above upper onward)
    (hn : n ∉ onward) {h : Handle} {path : List Handle} (hc : Climbs above h path) :
    Climbs (Function.update above n (some (some upper))) h (ledOn n onward path) := by
  have hcontinue : Climbs (Function.update above n (some (some upper))) upper onward :=
    hupper.congr fun x hx => Function.update_of_ne (fun heq : x = n => hn (heq ▸ hx)) _ above
  induction hc with
  | @root h hh =>
    by_cases heq : h = n
    · subst heq
      have hon : ledOn h onward [h] = h :: onward := if_pos rfl
      rw [hon]
      exact .step (Function.update_self h _ above) hcontinue
    · have hsame : ledOn n onward [h] = [h] := if_neg fun hlast => heq (Option.some.inj hlast)
      rw [hsame]
      exact .root (by rw [Function.update_of_ne heq, hh])
  | @step h next path hstep hrest ih =>
    have hne : h ≠ n := by
      rintro rfl
      rw [hroot] at hstep
      cases hstep
    have hnil : path ≠ [] := by
      rintro rfl
      cases hrest
    rw [ledOn_cons hnil]
    exact .step (by rw [Function.update_of_ne hne, hstep]) ih

namespace Store

/-! ## Paths of what is there -/

/-- A path is asked for in vain where something is not in the hierarchy. -/
theorem hierarchyPath_eq_error {s : Store} {h : Handle} {o : Object} (ho : s.object? h = some o)
    (hnone : s.above? h = none) : s.hierarchyPath h
      = .error (.wrongType o.id "module or instance" o.kind.name) := by
  have habove : o.above? = none := by
    rw [above?, ho, Option.bind_some] at hnone
    exact hnone
  unfold hierarchyPath
  rw [expectObject_eq_ok.2 ho]
  simp [habove, throw, throwThe, MonadExceptOf.throw, bind, Except.bind]

/-- What becomes of climbs becomes of paths, as objects last. -/
theorem Lasts.hierarchyPath {s s' : Store} (h : Lasts s s') (hs : s.Reachable)
    {f : List Handle → List Handle}
    (hclimbs : ∀ x path, Climbs s.above? x path → Climbs s'.above? x (f path)) {x : Handle}
    (hx : (s.object? x).isSome) : s'.hierarchyPath x = (s.hierarchyPath x).map f := by
  obtain ⟨o, ho⟩ := Option.isSome_iff_exists.1 hx
  cases hplace : s.above? x with
  | some upper =>
    obtain ⟨path, hc⟩ := hs.rooted x (by rw [hplace, Option.isSome_some])
    rw [hierarchyPath_eq_ok.2 hc, hierarchyPath_eq_ok.2 (hclimbs x path hc)]
    rfl
  | none =>
    obtain ⟨o', ho', hlasts⟩ := h x o ho
    have hkind : s'.kind? x = s.kind? x := by
      rw [kind?, kind?, ho, ho', Option.map_some, Option.map_some, hlasts.kind_eq]
    have hplace' : s'.above? x = none := by
      rw [← Option.not_isSome_iff_eq_none, isSome_above?_iff, hkind, ← isSome_above?_iff, hplace]
      simp
    rw [hierarchyPath_eq_error ho hplace, hierarchyPath_eq_error ho' hplace', hlasts.id,
      hlasts.kind_eq]
    rfl

/-- Everything that is there has the path that it had. -/
def KeepsPaths (s s' : Store) : Prop :=
  ∀ h, (s.object? h).isSome → s'.hierarchyPath h = s.hierarchyPath h

/-- An instance that was a root is in its container now.  The path of the container is as it was,
and every path that ended at the instance goes on along it. -/
structure Grafts (s s' : Store) (inst parent : Handle) (onward : List Handle) : Prop where
  loose : s.hierarchyPath inst = .ok [inst]
  container : s.hierarchyPath parent = .ok onward
  same : s'.hierarchyPath parent = .ok onward
  paths : ∀ h, (s.object? h).isSome →
    s'.hierarchyPath h = (s.hierarchyPath h).map (ledOn inst onward)

/-- What stays in its place keeps its path. -/
theorem Stays.keepsPaths {s s' : Store} (h : Stays s s') (hs : s.Reachable) : KeepsPaths s s' := by
  intro x hx
  rw [h.lasts.hierarchyPath hs (f := id) (fun _ _ hc => h.climbs hc) hx]
  cases s.hierarchyPath x <;> rfl

/-! ## Placements -/

section Placements

variable {s s' : Store} {name : String} {module parent inst : Handle}

/-- The default instance of a module takes everything below it along. -/
theorem Reachable.grafts_place (hs : s.Reachable) {m : Module}
    (hm : s.module? module = some m) (hordinary : m.resource = false)
    (hok : s.addInstance name module parent = .ok (s', inst)) :
    m.defaultInstance = some inst ∧ ∃ onward, Grafts s s' inst parent onward := by
  have hlasts : Lasts s s' := lasts_change (.placement hok)
  obtain ⟨-, o, m', p, c, ho, hbody, hp, hc, -, hcycle, hcase⟩ := addInstance_cases hok
  have hmodule : s.module? module = some m' := by
    rw [module?, ho, Option.bind_some, Object.module?_eq_some.2 hbody]
  rw [hm] at hmodule
  cases hmodule
  rcases hcase with ⟨hres, -⟩ | ⟨-, -, hdefault, ⟨d, i, hd, hi, hloose⟩, rfl⟩
  · rw [hordinary] at hres
    cases hres
  · obtain ⟨onward, hclimbs, hnot⟩ := wouldCreateCycle_eq_false.1 hcycle
    have hroot : s.above? inst = some none := by rw [above?_of_instance hd hi, hloose]
    have hbelow : s.above? module = some (some inst) := by rw [above?_of_module ho hbody, hdefault]
    have hn := hs.coherent.default_not_mem hd hi hbelow hp hc hclimbs hnot
    have hgraft : ∀ x path, Climbs s.above? x path →
        Climbs (s.place inst parent).above? x (ledOn inst onward path) := by
      intro x path hx
      rw [above?_place hd hi]
      exact .graft hroot hclimbs hn hx
    have hcontainer : ledOn inst onward onward = onward := if_neg fun hlast =>
      hn (List.mem_of_getLast? hlast)
    exact ⟨hdefault, onward, hierarchyPath_eq_ok.2 (.root hroot), hierarchyPath_eq_ok.2 hclimbs,
      hierarchyPath_eq_ok.2 (hcontainer ▸ hgraft parent onward hclimbs),
      fun x hx => hlasts.hierarchyPath hs hgraft hx⟩

/-- A new instance of a resource is right below its container. -/
theorem path_of_new_instance {m : Module} (hm : s.module? module = some m)
    (hresource : m.resource = true) (hok : s.addInstance name module parent = .ok (s', inst)) :
    s.object? inst = none ∧ ∃ onward, s.hierarchyPath parent = .ok onward ∧
      s'.hierarchyPath inst = .ok (inst :: onward) := by
  obtain ⟨-, o, m', p, c, ho, hbody, hp, hc, -, hcycle, hcase⟩ := addInstance_cases hok
  have hmodule : s.module? module = some m' := by
    rw [module?, ho, Option.bind_some, Object.module?_eq_some.2 hbody]
  rw [hm] at hmodule
  cases hmodule
  rcases hcase with ⟨-, -, -, heq⟩ | ⟨hordinary, -⟩
  · have hinst : s.size = inst := congrArg Prod.snd heq
    have habove := above?_createPlacement (s := s) name module parent
    rw [heq, hinst] at habove
    have hnone : s.object? inst = none := by
      rw [← hinst]
      exact Option.map_eq_none_iff.1 (outline?_size s)
    obtain ⟨onward, hclimbs, -⟩ := wouldCreateCycle_eq_false.1 hcycle
    refine ⟨hnone, onward, hierarchyPath_eq_ok.2 hclimbs, hierarchyPath_eq_ok.2 ?_⟩
    refine .step (by rw [habove, Function.update_self]) (hclimbs.congr fun x hx => ?_)
    have hne : x ≠ inst := by
      rintro rfl
      have hsome := hclimbs.isSome_of_mem hx
      rw [above?, hnone] at hsome
      cases hsome
    rw [habove, Function.update_of_ne hne]
  · rw [hresource] at hordinary
    cases hordinary

end Placements

/-- What a command that creates has given back comes from the operation. -/
theorem creating_eq_object {s : Store} {r : Except StoreError (Store × Handle)}
    {events : List Event} {h : Handle} (hok : (s.creating r events).result = .ok (.object h)) :
    r = .ok ((s.creating r events).store, h) := by
  cases r with
  | error e => cases hok
  | ok placed =>
    cases hok
    rfl

/-! ## Commands -/

/-- A module that is placed takes along what was below it, an instance of a resource comes in
without moving anything, and no other command that keeps the store moves anything either. -/
theorem placement_grafts {s : Store} (hs : s.Reachable) {c : Command} (hc : c ≠ .clear) :
    (∀ h, s.kind? h = some .module ∨ s.kind? h = some .inst →
        ∃ path, s.hierarchyPath h = .ok path) ∧
      (∀ name module parent m inst, c = .addInstance name module parent →
        s.module? module = some m → (s.exec c).result = .ok (.object inst) →
        (m.resource = false → m.defaultInstance = some inst ∧
          ∃ onward, Grafts s (s.exec c).store inst parent onward) ∧
        (m.resource = true → s.object? inst = none ∧ KeepsPaths s (s.exec c).store ∧
          ∃ onward, s.hierarchyPath parent = .ok onward ∧
            (s.exec c).store.hierarchyPath inst = .ok (inst :: onward))) ∧
      (¬ s.PlacesDefault c → KeepsPaths s (s.exec c).store) := by
  have hkeeps : ¬ s.PlacesDefault c → KeepsPaths s (s.exec c).store := fun hnone =>
    (hs.stays_exec hc hnone).keepsPaths hs
  refine ⟨fun h hk => ?_, ?_, hkeeps⟩
  · obtain ⟨path, -, hpath, -⟩ := hierarchyPath_of_reachable hs hk
    exact ⟨path, hpath⟩
  · rintro name module parent m inst rfl hm hresult
    have hok := creating_eq_object hresult
    refine ⟨fun hordinary => hs.grafts_place hm hordinary hok, fun hresource => ?_⟩
    obtain ⟨hnew, hpath⟩ := path_of_new_instance hm hresource hok
    refine ⟨hnew, hkeeps ?_, hpath⟩
    rintro ⟨⟨m', hm', hordinary⟩, -⟩
    rw [hm] at hm'
    cases hm'
    rw [hresource] at hordinary
    cases hordinary

/-- Nested modules, and a board that they are not placed on yet. -/
def unhoused : Store :=
  nested.after [.addModule "board" false false]

theorem placement_grafts_unhoused :
    unhoused.Reachable ∧ Command.addInstance "top" 0 7 ≠ .clear ∧
      (unhoused.exec (.addInstance "top" 0 7)).result = .ok (.object 1) ∧
      unhoused.hierarchyPath 5 = .ok [5, 2, 3, 0, 1] ∧
      (unhoused.exec (.addInstance "top" 0 7)).store.hierarchyPath 5
        = .ok [5, 2, 3, 0, 1, 7, 8] ∧
      ∃ onward, Grafts unhoused (unhoused.exec (.addInstance "top" 0 7)).store 1 7 onward := by
  have hs : unhoused.Reachable := (reachable_execAll _ : nested.Reachable).after _
  have hc : Command.addInstance "top" 0 7 ≠ .clear := by simp
  have hresult : (unhoused.exec (.addInstance "top" 0 7)).result = .ok (.object 1) := rfl
  obtain ⟨-, hplacement, -⟩ := placement_grafts hs hc
  obtain ⟨hdefault, -⟩ := hplacement "top" 0 7 _ 1 rfl rfl hresult
  exact ⟨hs, hc, hresult, rfl, rfl, (hdefault rfl).2⟩

/-! ## Runs -/

/-- A command makes a path longer at its end, if it changes it at all. -/
theorem Reachable.prefix_exec {s : Store} (hs : s.Reachable) {c : Command} (hc : c ≠ .clear)
    {h : Handle} {path : List Handle} (hpath : s.hierarchyPath h = .ok path) :
    ∃ path', (s.exec c).store.hierarchyPath h = .ok path' ∧ path <+: path' := by
  obtain ⟨upper, hupper⟩ := Option.isSome_iff_exists.1
    ((hierarchyPath_eq_ok.1 hpath).isSome_of_mem
      (List.mem_of_mem_head? (hierarchyPath_eq_ok.1 hpath).head?_eq))
  obtain ⟨o, ho, -⟩ := Option.bind_eq_some_iff.1 hupper
  have hsome : (s.object? h).isSome := by rw [ho, Option.isSome_some]
  by_cases hplaces : s.PlacesDefault c
  · cases c with
    | addInstance name module parent =>
      obtain ⟨⟨m, hm, hordinary⟩, ⟨s', inst⟩, hok⟩ := hplaces
      obtain ⟨-, onward, hgrafts⟩ := hs.grafts_place hm hordinary hok
      have hstore : (s.exec (.addInstance name module parent)).store = s' := by
        simp only [Store.exec, hok]
        rfl
      refine ⟨ledOn inst onward path, ?_, prefix_ledOn inst onward path⟩
      rw [hstore, hgrafts.paths h hsome, hpath]
      rfl
    | _ => exact hplaces.elim
  · exact ⟨path, by rw [(hs.stays_exec hc hplaces).keepsPaths hs h hsome, hpath], List.prefix_rfl⟩

/-- Whatever commands follow, unless one of them clears the store, a path is there and begins as it
was. -/
theorem hierarchyPath_after {s : Store} (hs : s.Reachable) {commands : List Command}
    (hkeep : .clear ∉ commands) {h : Handle} {path : List Handle}
    (hpath : s.hierarchyPath h = .ok path) :
    ∃ path', (s.after commands).hierarchyPath h = .ok path' ∧ path <+: path' := by
  induction commands generalizing s path with
  | nil => exact ⟨path, hpath, List.prefix_rfl⟩
  | cons c rest ih =>
    have hc : c ≠ .clear := fun heq => hkeep (by simp [heq])
    obtain ⟨path', hpath', hprefix⟩ := hs.prefix_exec hc hpath
    obtain ⟨path'', hpath'', hprefix'⟩ :=
      ih (.exec c hs) (fun hmem => hkeep (by simp [hmem])) hpath'
    exact ⟨path'', hpath'', hprefix.trans hprefix'⟩

end Store

end Interconnect
