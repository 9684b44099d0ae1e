import Interconnect.Proofs.Store.Representation
import Mathlib.Data.List.Chain

/-!
# Climbing

A climb follows a partial function upwards until it says that there is nothing above.
`Climbs` holds of the places that a climb passes, and a function is *rooted* if every climb
ends.  A climb passes no place twice: two climbs from one place are the same, so the second
would be as long as a proper part of itself.

A rooted function stays rooted when a root is added, and when something without anything
above it is put below a place whose climb does not pass it.  No other change of the hierarchy
happens.
-/

namespace Interconnect

/-- The places from `h` up to its root. -/
inductive Climbs (above : Handle → Option (Option Handle)) : Handle → List Handle → Prop where
  | root {h : Handle} : above h = some none → Climbs above h [h]
  | step {h upper : Handle} {path : List Handle} :
    above h = some (some upper) → Climbs above upper path → Climbs above h (h :: path)

/-- Every climb ends. -/
def Rooted (above : Handle → Option (Option Handle)) : Prop :=
  ∀ h, (above h).isSome → ∃ path, Climbs above h path

namespace Climbs

variable {above : Handle → Option (Option Handle)} {h x : Handle} {path : List Handle}

theorem head?_eq (hc : Climbs above h path) : path.head? = some h := by
  cases hc with
  | root _ => rfl
  | step _ _ => rfl

/-- There is one climb from a place. -/
theorem unique (hc : Climbs above h path) {path' : List Handle} (hc' : Climbs above h path') :
    path = path' := by
  induction hc generalizing path' with
  | root hroot =>
    cases hc' with
    | root _ => rfl
    | step hstep _ =>
      rw [hroot] at hstep
      cases hstep
  | @step h upper path hstep _ ih =>
    cases hc' with
    | root hroot =>
      rw [hstep] at hroot
      cases hroot
    | step hstep' hrest =>
      rw [hstep] at hstep'
      cases hstep'
      rw [ih hrest]

theorem isSome_of_mem (hc : Climbs above h path) (hx : x ∈ path) : (above x).isSome := by
  induction hc with
  | root hroot =>
    rw [List.mem_singleton.1 hx, hroot, Option.isSome_some]
  | step hstep _ ih =>
    rcases List.mem_cons.1 hx with rfl | hx
    · rw [hstep, Option.isSome_some]
    · exact ih hx

/-- The climb from a place on a climb is the rest of it. -/
theorem of_mem (hc : Climbs above h path) (hx : x ∈ path) :
    Climbs above x (path.dropWhile (· ≠ x)) := by
  induction hc with
  | @root h hroot =>
    rw [List.mem_singleton.1 hx]
    simpa using root hroot
  | @step h upper path hstep hrest ih =>
    by_cases hxh : h = x
    · subst hxh
      simpa using step hstep hrest
    · rcases List.mem_cons.1 hx with rfl | hx
      · exact absurd rfl hxh
      · simpa [List.dropWhile_cons, hxh] using ih hx

/-- A climb passes no place twice. -/
theorem nodup (hc : Climbs above h path) : path.Nodup := by
  induction hc with
  | root _ => simp
  | @step h upper path hstep hrest ih =>
    refine List.nodup_cons.2 ⟨fun hmem => ?_, ih⟩
    have heq := (hrest.of_mem hmem).unique (step hstep hrest)
    have hle := (List.dropWhile_suffix (p := (· ≠ h)) (l := path)).length_le
    rw [heq, List.length_cons] at hle
    omega

/-- Each place on a climb but the last is right below the next. -/
theorem isChain (hc : Climbs above h path) :
    path.IsChain fun a b => above a = some (some b) := by
  induction hc with
  | root _ => simp
  | @step h upper path hstep hrest ih =>
    rw [List.isChain_cons]
    refine ⟨fun b hb => ?_, ih⟩
    rw [hrest.head?_eq] at hb
    cases hb
    exact hstep

/-- A climb ends at a place with nothing above. -/
theorem getLast?_eq (hc : Climbs above h path) :
    ∃ root, path.getLast? = some root ∧ above root = some none := by
  induction hc with
  | @root h hroot => exact ⟨h, rfl, hroot⟩
  | @step h upper path _ _ ih =>
    obtain ⟨root, hlast, hroot⟩ := ih
    exact ⟨root, by rw [List.getLast?_cons, hlast]; rfl, hroot⟩

end Climbs

/-- A climb does not depend on places that it does not pass. -/
theorem Climbs.congr {above above' : Handle → Option (Option Handle)} {h : Handle}
    {path : List Handle} (hc : Climbs above h path) (heq : ∀ x ∈ path, above' x = above x) :
    Climbs above' h path := by
  induction hc with
  | @root h hroot =>
    exact .root ((heq h (by simp)).trans hroot)
  | @step h upper path hstep _ ih =>
    refine .step ((heq h (by simp)).trans hstep) (ih fun x hx => heq x ?_)
    exact List.mem_cons_of_mem h hx

namespace Rooted

variable {above : Handle → Option (Option Handle)} {n : Handle}

/-- Where one place changes and has a climb afterwards, every place has. -/
theorem update (hr : Rooted above) {v : Option (Option Handle)} {path : List Handle}
    (hn : Climbs (Function.update above n v) n path) : Rooted (Function.update above n v) := by
  have hclimb : ∀ {h : Handle} {q : List Handle}, Climbs above h q →
      ∃ q', Climbs (Function.update above n v) h q' := by
    intro h q hq
    induction hq with
    | @root h hroot =>
      by_cases hh : h = n
      · exact ⟨path, hh ▸ hn⟩
      · exact ⟨[h], .root (by rw [Function.update_of_ne hh, hroot])⟩
    | @step h upper q hstep _ ih =>
      by_cases hh : h = n
      · exact ⟨path, hh ▸ hn⟩
      · obtain ⟨q', hq'⟩ := ih
        exact ⟨h :: q', .step (by rw [Function.update_of_ne hh, hstep]) hq'⟩
  intro h hsome
  by_cases hh : h = n
  · exact ⟨path, hh ▸ hn⟩
  · rw [Function.update_of_ne hh] at hsome
    obtain ⟨q, hq⟩ := hr h hsome
    exact hclimb hq

/-- A place may become a root. -/
theorem addRoot (hr : Rooted above) (n : Handle) :
    Rooted (Function.update above n (some none)) :=
  hr.update (.root (Function.update_self n _ above))

/-- A place may come to lie below another whose climb does not pass it. -/
theorem graft (hr : Rooted above) {upper : Handle} {path : List Handle}
    (hc : Climbs above upper path) (hn : n ∉ path) :
    Rooted (Function.update above n (some (some upper))) := by
  refine hr.update (.step (Function.update_self n _ above) (hc.congr fun x hx => ?_))
  exact Function.update_of_ne (fun heq : x = n => hn (heq ▸ hx)) _ above

end Rooted

/-! ## The hierarchy of a store -/

namespace Store

/-- What lies directly above a place, if the place is in the hierarchy. -/
def above? (s : Store) (h : Handle) : Option (Option Handle) :=
  (s.object? h).bind Object.above?

theorem above?_of_module {s : Store} {h : Handle} {o : Object} {m : Module}
    (ho : s.object? h = some o) (hm : o.body = .module m) :
    s.above? h = some m.defaultInstance := by
  rw [above?, ho, Option.bind_some, Object.above?, hm]

theorem above?_of_instance {s : Store} {h : Handle} {o : Object} {i : Instance}
    (ho : s.object? h = some o) (hi : o.body = .inst i) : s.above? h = some i.parent := by
  rw [above?, ho, Option.bind_some, Object.above?, hi]

theorem above?_of_frame {s : Store} {h : Handle} {r : Bool} {d : Option Handle}
    (hf : s.frame h = some (r, d)) : s.above? h = some d := by
  obtain ⟨m, hm, -, rfl⟩ := exists_module_of_frame hf
  obtain ⟨o, ho, hbody⟩ := Option.bind_eq_some_iff.1 hm
  exact above?_of_module ho (Object.module?_eq_some.1 hbody)

theorem above?_create (s : Store) (scope name : String) (body : Body)
    (details : List (String × String)) :
    (s.create scope name body details).1.above?
      = Function.update s.above? s.size (s.created scope name body details).above? := by
  funext h
  unfold above?
  by_cases hh : h = s.size
  · subst hh
    rw [Function.update_self, object?_create_self]
    rfl
  · rw [Function.update_of_ne hh, object?_create_of_ne s scope name body details hh]

theorem lt_size_of_above? {s : Store} {h : Handle} (ha : (s.above? h).isSome) : h < s.size := by
  obtain ⟨upper, hupper⟩ := Option.isSome_iff_exists.1 ha
  obtain ⟨o, ho, -⟩ := Option.bind_eq_some_iff.1 hupper
  exact lt_size_of_outline? (outline?_of_object? ho)

theorem above?_size (s : Store) : s.above? s.size = none := by
  cases ha : s.above? s.size with
  | none => rfl
  | some upper =>
    have hlt : s.size < s.size := lt_size_of_above? (by rw [ha, Option.isSome_some])
    exact absurd hlt (Nat.lt_irrefl s.size)

theorem above?_create_of_none {s : Store} {scope name : String} {body : Body}
    {details : List (String × String)} (h : (s.created scope name body details).above? = none) :
    (s.create scope name body details).1.above? = s.above? := by
  rw [above?_create, h, Function.update_eq_self_iff, above?_size]

theorem above?_modify {s : Store} {h : Handle} {o : Object} {f : Object → Object}
    (ho : s.object? h = some o) :
    (s.modify h f).above? = Function.update s.above? h (f o).above? := by
  funext h'
  unfold above?
  rw [object?_modify]
  by_cases hh : h' = h
  · subst hh
    rw [if_pos rfl, Function.update_self, ho]
    rfl
  · rw [if_neg (Ne.symm hh), Function.update_of_ne hh]

theorem above?_modify_of_eq (s : Store) (h : Handle) {f : Object → Object}
    (hf : ∀ o, (f o).above? = o.above?) : (s.modify h f).above? = s.above? := by
  funext h'
  unfold above?
  rw [object?_modify]
  split
  · cases s.object? h' with
    | none => rfl
    | some o => simp [hf]
  · rfl

theorem above?_write (s : Store) (h : Handle) (name : String) (a : Attribute) :
    (s.write h name a).above? = s.above? :=
  above?_modify_of_eq s h fun _ => rfl

theorem above?_stamp (s : Store) (h : Handle) (name value : String) :
    (s.stamp h name value).above? = s.above? :=
  above?_write s h name _

theorem above?_adopt (p : Part) (c : Handle) (o : Object) : (o.adopt p c).above? = o.above? := by
  obtain ⟨handle, id, name, attributes, body⟩ := o
  cases body with
  | part owner q => cases q <;> cases p <;> rfl
  | _ => cases p <;> rfl

theorem above?_joinNet (net : Handle) (o : Object) : (joinNet net o).above? = o.above? := by
  obtain ⟨handle, id, name, attributes, body⟩ := o
  cases body <;> rfl

theorem above?_addChild (c : Handle) (o : Object) : (addChild c o).above? = o.above? := by
  obtain ⟨handle, id, name, attributes, body⟩ := o
  cases body <;> rfl

theorem above?_addPlacement (c : Handle) (o : Object) : (addPlacement c o).above? = o.above? := by
  obtain ⟨handle, id, name, attributes, body⟩ := o
  cases body <;> rfl

/-! ## What a climb computes -/

/-- With enough fuel the climb succeeds. -/
theorem climb_eq_ok {s : Store} {h : Handle} {path : List Handle}
    (hc : Climbs s.above? h path) (start : Handle) {fuel : Nat} (hfuel : path.length ≤ fuel) :
    s.climb start fuel h = .ok path := by
  induction hc generalizing fuel with
  | @root h hroot =>
    cases fuel with
    | zero => simp at hfuel
    | succ fuel =>
      unfold climb
      rw [show (s.object? h).bind Object.above? = some none from hroot]
  | @step h upper path hstep _ ih =>
    cases fuel with
    | zero => simp at hfuel
    | succ fuel =>
      unfold climb
      rw [show (s.object? h).bind Object.above? = some (some upper) from hstep]
      dsimp only
      rw [ih (by simpa using hfuel)]
      rfl

theorem climbs_of_climb {s : Store} {start : Handle} {fuel : Nat} {h : Handle}
    {path : List Handle} (hok : s.climb start fuel h = .ok path) : Climbs s.above? h path := by
  induction fuel generalizing h path with
  | zero => cases hok
  | succ fuel ih =>
    unfold climb at hok
    split at hok
    · cases hok
    · rename_i hroot
      cases hok
      exact .root hroot
    · rename_i upper hstep
      cases hrest : s.climb start fuel upper with
      | error e =>
        rw [hrest] at hok
        cases hok
      | ok rest =>
        rw [hrest] at hok
        cases hok
        exact .step hstep (ih hrest)

/-- No climb is longer than the number of objects. -/
theorem length_le_size {s : Store} {h : Handle} {path : List Handle}
    (hc : Climbs s.above? h path) : path.length ≤ s.size := by
  have hsubset : path ⊆ List.range s.size := fun x hx =>
    List.mem_range.2 (lt_size_of_above? (hc.isSome_of_mem hx))
  have hle := (List.subperm_of_subset hc.nodup hsubset).length_le
  rwa [List.length_range] at hle

/-- A path exists exactly where a climb does, and the bound on its length is never met. -/
theorem hierarchyPath_eq_ok {s : Store} {h : Handle} {path : List Handle} :
    s.hierarchyPath h = .ok path ↔ Climbs s.above? h path := by
  unfold hierarchyPath
  rw [bind_eq_ok]
  simp only [expectObject_eq_ok]
  constructor
  · rintro ⟨o, -, hok⟩
    obtain ⟨-, hok⟩ := guard_eq_ok.1 hok
    cases hclimb : s.climb h (s.size + 1) h with
    | error e =>
      rw [hclimb] at hok
      cases hok
    | ok path' =>
      rw [hclimb] at hok
      cases hok
      exact climbs_of_climb hclimb
  · intro hc
    obtain ⟨upper, hupper⟩ := Option.isSome_iff_exists.1 (hc.isSome_of_mem
      (List.mem_of_mem_head? hc.head?_eq))
    obtain ⟨o, ho, habove⟩ := Option.bind_eq_some_iff.1 hupper
    refine ⟨o, ho, guard_eq_ok.2 ⟨by simp [habove], ?_⟩⟩
    rw [climb_eq_ok hc h (Nat.le_succ_of_le (length_le_size hc))]
    rfl

/-- A placement that makes no cycle is below a place whose climb does not pass the module. -/
theorem wouldCreateCycle_eq_false {s : Store} {module parent : Handle} :
    s.wouldCreateCycle module parent = .ok false ↔
      ∃ path, Climbs s.above? parent path ∧ module ∉ path := by
  unfold wouldCreateCycle
  rw [bind_eq_ok]
  simp only [hierarchyPath_eq_ok]
  constructor
  · rintro ⟨path, hc, hok⟩
    refine ⟨path, hc, fun hmem => ?_⟩
    have hcontains : path.contains module = false := Except.ok.inj hok
    simp [hmem] at hcontains
  · rintro ⟨path, hc, hmem⟩
    refine ⟨path, hc, ?_⟩
    have hcontains : path.contains module = false := by simpa using hmem
    rw [hcontains]
    rfl

/-! ## Every climb ends -/

/-- What is directly above a module is its default instance, and what is directly above an instance
is the module that it is placed in. -/
theorem Coherent.above?_cases {s : Store} (hs : s.Coherent) {h upper : Handle}
    (ha : s.above? h = some (some upper)) :
    (s.frame h = some (false, some upper) ∧ s.target .placement upper = some h) ∨
      s.frame h = none ∧ s.target .child h = some upper ∧ ∃ f, s.frame upper = some f := by
  obtain ⟨o, ho, habove⟩ := Option.bind_eq_some_iff.1 ha
  unfold Object.above? at habove
  split at habove
  · rename_i m hm
    have hframe := frame_of_module ho hm
    rw [Option.some.inj habove] at hframe
    cases hres : m.resource with
    | true =>
      rw [hres] at hframe
      cases (hs.resource hframe).1
    | false =>
      rw [hres] at hframe
      obtain ⟨inst, hinst, hlinks, -⟩ := hs.ordinary hframe
      cases hinst
      exact Or.inl ⟨hframe, (hs.linked .placement).mem_links.1 (by simp [hlinks])⟩
  · rename_i i hi
    have hchild := Object.target_child_eq_some.2 ⟨i, hi, Option.some.inj habove⟩
    obtain ⟨x, hx, hmem⟩ := hs.listed ho hchild
    obtain ⟨m, hm⟩ := module_of_mem_links (Or.inl rfl) hmem
    exact Or.inr ⟨frame_of_instance_eq_none ho hi, target_eq_some_iff.2 ⟨o, ho, hchild⟩, _,
      frame_of_module hx hm⟩
  · cases habove

/-- Directly below an instance there is only its module. -/
theorem Coherent.eq_module_of_above? {s : Store} (hs : s.Coherent) {h inst : Handle} {d : Object}
    {i : Instance} (hd : s.object? inst = some d) (hi : d.body = .inst i)
    (ha : s.above? h = some (some inst)) : h = i.module := by
  rcases hs.above?_cases ha with ⟨-, htarget⟩ | ⟨-, -, f, hf⟩
  · rw [target_eq_some_iff.2 ⟨d, hd, Object.target_placement_eq_some.2 ⟨i, hi, rfl⟩⟩] at htarget
    exact (Option.some.inj htarget).symm
  · rw [frame_of_instance_eq_none hd hi] at hf
    cases hf

/-- A climb that passes an instance farther up passes its module, too. -/
theorem Coherent.module_mem_of_mem {s : Store} (hs : s.Coherent) {h inst : Handle} {d : Object}
    {i : Instance} {path : List Handle} (hd : s.object? inst = some d) (hi : d.body = .inst i)
    (hc : Climbs s.above? h path) (hne : inst ≠ h) (hmem : inst ∈ path) : i.module ∈ path := by
  induction hc with
  | root _ => exact absurd (List.mem_singleton.1 hmem) hne
  | @step h upper path hstep _ ih =>
    have hrest := (List.mem_cons.1 hmem).resolve_left hne
    by_cases hupper : inst = upper
    · rw [← hupper] at hstep
      rw [hs.eq_module_of_above? hd hi hstep]
      exact List.mem_cons_self
    · exact List.mem_cons_of_mem h (ih hupper hrest)

/-- The climb from a module does not pass the default instance of another module, unless it passes
that module. -/
theorem Coherent.default_not_mem {s : Store} (hs : s.Coherent) {module inst parent : Handle}
    {d p : Object} {i : Instance} {c : Module} {path : List Handle} (hd : s.object? inst = some d)
    (hi : d.body = .inst i) (hbelow : s.above? module = some (some inst))
    (hp : s.object? parent = some p) (hc : p.body = .module c)
    (hclimbs : Climbs s.above? parent path) (hmodule : module ∉ path) : inst ∉ path := by
  have hne : inst ≠ parent := by
    rintro rfl
    rw [hd] at hp
    cases hp
    rw [hi] at hc
    cases hc
  intro hmem
  rw [hs.eq_module_of_above? hd hi hbelow] at hmodule
  exact hmodule (hs.module_mem_of_mem hd hi hclimbs hne hmem)

section Operations

variable {s : Store}

theorem above?_createPart {owner : Handle} {o : Object} {p : Part} (name : String)
    (hhandle : o.handle = owner) : (s.createPart o name p).1.above? = s.above? := by
  rw [createPart_eq name hhandle, above?_modify_of_eq _ owner (above?_adopt p s.size),
    above?_create_of_none rfl]

theorem above?_createResource (name : String) (ilm : Bool) :
    (s.createResource name ilm).1.above? = Function.update s.above? s.size (some none) :=
  above?_create s name name _ _

theorem above?_createWithInstance (name : String) (ilm : Bool) :
    (s.createWithInstance name ilm).1.above?
      = Function.update (Function.update s.above? (s.size + 1) (some none)) s.size
          (some (some (s.size + 1))) := by
  rw [createWithInstance_eq, above?_create, above?_create, size_create,
    Function.update_comm (Nat.ne_of_lt (Nat.lt_succ_self s.size))]
  rfl

theorem above?_place {inst parent : Handle} {d : Object} {i : Instance}
    (hd : s.object? inst = some d) (hi : d.body = .inst i) :
    (s.place inst parent).above? = Function.update s.above? inst (some (some parent)) := by
  have hset : (setParent parent d).above? = some (some parent) := by
    obtain ⟨handle, id, name, attributes, body⟩ := d
    cases hi
    rfl
  rw [Store.place, above?_modify_of_eq _ parent (above?_addChild inst), above?_stamp,
    above?_modify hd, hset]

theorem above?_createPlacement (name : String) (module parent : Handle) :
    (s.createPlacement name module parent).1.above?
      = Function.update s.above? s.size (some (some parent)) := by
  rw [createPlacement_eq, above?_modify_of_eq _ module (above?_addPlacement s.size),
    above?_modify_of_eq _ parent (above?_addChild s.size), above?_create]
  rfl

theorem above?_enlistAll (net : Handle) (name id : String) (members : List Handle) :
    (members.foldl (enlist net name id) s).above? = s.above? := by
  induction members generalizing s with
  | nil => rfl
  | cons h rest ih =>
    rw [List.foldl_cons, ih]
    unfold enlist
    rw [above?_modify_of_eq _ h (above?_joinNet net), above?_stamp, above?_stamp, above?_stamp]

/-- Every elementary operation lets every climb end. -/
theorem rooted_change {s' : Store} (h : Change s s') (hs : s.Coherent) (hr : Rooted s.above?) :
    Rooted s'.above? := by
  cases h with
  | intern text => exact hr
  | @module _ name ilm resource h hok =>
    obtain ⟨-, -, -, ⟨-, heq⟩ | ⟨-, -, -, heq⟩⟩ := addModule_cases hok
    · have hnew := above?_createResource (s := s) name ilm
      rw [heq] at hnew
      rw [hnew]
      exact hr.addRoot s.size
    · have hnew := above?_createWithInstance (s := s) name ilm
      rw [heq] at hnew
      rw [hnew]
      refine (hr.addRoot (s.size + 1)).graft (.root (Function.update_self _ _ _)) ?_
      simp
  | @placement _ name module parent h hok =>
    obtain ⟨-, o, m, p, c, ho, hm, hp, hc, -, hcycle, hcase⟩ := addInstance_cases hok
    obtain ⟨path, hclimbs, hmodule⟩ := wouldCreateCycle_eq_false.1 hcycle
    rcases hcase with ⟨-, -, -, heq⟩ | ⟨hres, -, hdefault, ⟨d, i, hd, hi, -⟩, rfl⟩
    · have hnew := above?_createPlacement (s := s) name module parent
      rw [heq] at hnew
      rw [hnew]
      refine hr.graft hclimbs fun hmem => ?_
      have hsome := hclimbs.isSome_of_mem hmem
      rw [above?_size] at hsome
      cases hsome
    · rw [above?_place hd hi]
      have hbelow : s.above? module = some (some h) := by
        rw [above?_of_module ho hm, hdefault]
      exact hr.graft hclimbs (hs.default_not_mem hd hi hbelow hp hc hclimbs hmodule)
  | @part _ owner h name p _ hok =>
    obtain ⟨-, o, ho, -, -, -, heq⟩ := attach_cases hok
    have hnew := above?_createPart (s := s) (p := p) name (hs.handle_eq_of_object? ho)
    rw [heq] at hnew
    rw [hnew]
    exact hr
  | net hok =>
    obtain ⟨-, -, -, -, -, rfl⟩ := addNet_cases hok
    rw [above?_enlistAll, above?_create_of_none rfl]
    exact hr
  | writing hok =>
    obtain ⟨-, o, -, -, rfl⟩ := setAttribute_cases hok
    rw [above?_write]
    exact hr

end Operations

theorem Reachable.rooted {s : Store} (hs : s.Reachable) : Rooted s.above? := by
  refine (hs.induction (P := fun s => s.Coherent ∧ Rooted s.above?) ⟨coherent_empty, ?_⟩ ?_).2
  · intro h hsome
    cases hsome
  · rintro s s' hchange ⟨hcoherent, hrooted⟩
    exact ⟨Coherent.change hchange hcoherent, rooted_change hchange hcoherent hrooted⟩

end Store

end Interconnect
