import Interconnect.Proofs.Request.Realizing

/-!
# Threads of a signal

A net threads a signal through the hierarchy if its members fit together at every boundary: a
pin connects to what its module above has under that name, and a port stands behind the pin of
its name on the default instance.  One declaration ends the thread, and every member leads up
to it.

`Threaded` states this of a store and the members of a net.  `threaded_of_linked` derives it
for the objects that a plan asked for, once they have joined their net.
-/

namespace Interconnect.Store

/-! ## Members of a net -/

/-- A port of a module. -/
def IsPort (s : Store) (c module : Handle) (name : String) : Prop :=
  ∃ direction net, s.Holds c module name (.port direction net)

/-- A pin on an instance. -/
def IsPin (s : Store) (c inst : Handle) (name connection : String) : Prop :=
  ∃ inverted net, s.Holds c inst name (.pin connection inverted net)

/-- A declaration in a module. -/
def IsDeclaration (s : Store) (c module : Handle) (name : String) : Prop :=
  ∃ defaultType assigned net, s.Holds c module name (.declaration defaultType assigned net)

/-- What pins on the instances in a module can connect to. -/
def IsSignal (s : Store) (c module : Handle) (name : String) : Prop :=
  s.IsPort c module name ∨ s.IsDeclaration c module name

/-- One step up within a net: from a port to the pin of its name on the default instance, and
from a pin to what it connects to in the module that its instance is placed in. -/
inductive Leads (s : Store) (members : List Handle) (c d : Handle) : Prop where
  | port {m inst : Handle} {name connection : String} :
    s.IsPort c m name → (s.module? m).bind Module.defaultInstance = some inst →
    d ∈ members → s.IsPin d inst name connection → Leads s members c d
  | pin {inst parent : Handle} {name connection : String} :
    s.IsPin c inst name connection → (s.instance? inst).bind Instance.parent = some parent →
    d ∈ members → s.IsSignal d parent connection → Leads s members c d

/-- The members of a net thread a signal from `root` downwards. -/
structure Threaded (s : Store) (root : Handle) (members : List Handle) : Prop where
  nodup : members.Nodup
  /-- There is one declaration, and it is in the root. -/
  declaration : ∃ c ∈ members, (∃ name, s.IsDeclaration c root name) ∧
    ∀ c' ∈ members, ∀ m name, s.IsDeclaration c' m name → c' = c
  /-- A pin connects to a member in the module that its instance is placed in. -/
  pin : ∀ c ∈ members, ∀ {inst : Handle} {name connection : String},
    s.IsPin c inst name connection →
    ∃ parent, (s.instance? inst).bind Instance.parent = some parent ∧
      ∃ d ∈ members, s.IsSignal d parent connection
  /-- Behind a port there is a pin of its name on the default instance. -/
  port : ∀ c ∈ members, ∀ {m : Handle} {name : String}, s.IsPort c m name →
    ∃ inst, (s.module? m).bind Module.defaultInstance = some inst ∧
      ∃ d ∈ members, ∃ connection, s.IsPin d inst name connection
  /-- Behind a pin there is a port of its name, unless the module is a resource. -/
  inner : ∀ c ∈ members, ∀ {inst : Handle} {name connection : String},
    s.IsPin c inst name connection → ∀ {i : Instance} {m : Module},
    s.instance? inst = some i → s.module? i.module = some m → m.resource = false →
    ∃ d ∈ members, s.IsPort d i.module name
  /-- Every member leads up to the declaration. -/
  reaches : ∀ c ∈ members, ∃ d ∈ members, (∃ name, s.IsDeclaration d root name) ∧
    Relation.ReflTransGen (s.Leads members) c d

/-- The members carry the signal to an endpoint: into its module, or to a pin on it if it is an
instance of a resource. -/
inductive Carried (s : Store) (members : List Handle) (h : Handle) : Prop where
  | module {m : Module} {c : Handle} {name : String} :
    s.module? h = some m → c ∈ members → s.IsSignal c h name → Carried s members h
  | inst {i : Instance} {m : Module} {c : Handle} {name : String} :
    s.instance? h = some i → s.module? i.module = some m → m.resource = false →
    c ∈ members → s.IsSignal c i.module name → Carried s members h
  | placement {i : Instance} {m : Module} {c : Handle} {name connection : String} :
    s.instance? h = some i → s.module? i.module = some m → m.resource = true →
    c ∈ members → s.IsPin c h name connection → Carried s members h

section Members

variable {s : Store} {members : List Handle} {c d : Handle}

theorem IsPin.not_isPort {inst m : Handle} {name name' connection : String}
    (h : s.IsPin c inst name connection) : ¬ s.IsPort c m name' := by
  obtain ⟨_, _, h⟩ := h
  rintro ⟨_, _, h'⟩
  cases (h.unique h').2.2

theorem IsDeclaration.not_isPort {m m' : Handle} {name name' : String}
    (h : s.IsDeclaration c m name) : ¬ s.IsPort c m' name' := by
  obtain ⟨_, _, _, h⟩ := h
  rintro ⟨_, _, h'⟩
  cases (h.unique h').2.2

theorem IsDeclaration.not_isPin {m inst : Handle} {name name' connection : String}
    (h : s.IsDeclaration c m name) : ¬ s.IsPin c inst name' connection := by
  obtain ⟨_, _, _, h⟩ := h
  rintro ⟨_, _, h'⟩
  cases (h.unique h').2.2

theorem IsPort.unique {m m' : Handle} {name name' : String} (h : s.IsPort c m name)
    (h' : s.IsPort c m' name') : m = m' ∧ name = name' := by
  obtain ⟨_, _, h⟩ := h
  obtain ⟨_, _, h'⟩ := h'
  exact ⟨(h.unique h').1, (h.unique h').2.1⟩

theorem IsPin.unique {inst inst' : Handle} {name name' connection connection' : String}
    (h : s.IsPin c inst name connection) (h' : s.IsPin c inst' name' connection') :
    inst = inst' ∧ name = name' ∧ connection = connection' := by
  obtain ⟨_, _, h⟩ := h
  obtain ⟨_, _, h'⟩ := h'
  obtain ⟨hinst, hname, hpart⟩ := h.unique h'
  cases hpart
  exact ⟨hinst, hname, rfl⟩

/-- A declaration leads nowhere. -/
theorem Leads.not_isDeclaration (h : s.Leads members c d) {m : Handle} {name : String} :
    ¬ s.IsDeclaration c m name := by
  intro hc
  cases h with
  | port hport => exact hc.not_isPort hport
  | pin hpin => exact hc.not_isPin hpin

theorem Leads.of_isPin (h : s.Leads members c d) {inst : Handle} {name connection : String}
    (hc : s.IsPin c inst name connection) :
    ∃ parent, (s.instance? inst).bind Instance.parent = some parent ∧
      ∃ d ∈ members, s.IsSignal d parent connection := by
  cases h with
  | port hport => exact absurd hport hc.not_isPort
  | pin hpin hparent hd hsignal =>
    obtain ⟨rfl, rfl, rfl⟩ := hc.unique hpin
    exact ⟨_, hparent, d, hd, hsignal⟩

theorem Leads.of_isPort (h : s.Leads members c d) {m : Handle} {name : String}
    (hc : s.IsPort c m name) :
    ∃ inst, (s.module? m).bind Module.defaultInstance = some inst ∧
      ∃ d ∈ members, ∃ connection, s.IsPin d inst name connection := by
  cases h with
  | port hport hinst hd hpin =>
    obtain ⟨rfl, rfl⟩ := hc.unique hport
    exact ⟨_, hinst, d, hd, _, hpin⟩
  | pin hpin => exact absurd hc hpin.not_isPort

end Members

/-! ## From demands to members -/

section Demands

variable {s s' : Store} {net : Handle} {D : List Demand} {created : List Handle}

/-- The demand got the object, which has joined the net. -/
def Meets (s : Store) (net : Handle) (d : Demand) (c : Handle) : Prop :=
  s.Holds c d.owner d.name (d.part.joined net)

theorem Meets.isPort {d : Demand} {c : Handle} (h : s.Meets net d c) {direction : PortDirection}
    (hd : d.part = .port direction none) : s.IsPort c d.owner d.name := by
  unfold Meets at h
  rw [hd] at h
  exact ⟨_, _, h⟩

theorem Meets.isPin {d : Demand} {c : Handle} (h : s.Meets net d c) {connection : String}
    {inverted : Bool} (hd : d.part = .pin connection inverted none) :
    s.IsPin c d.owner d.name connection := by
  unfold Meets at h
  rw [hd] at h
  exact ⟨_, _, h⟩

theorem Meets.isDeclaration {d : Demand} {c : Handle} (h : s.Meets net d c)
    (hd : d.part = .declaration true none none) : s.IsDeclaration c d.owner d.name := by
  unfold Meets at h
  rw [hd] at h
  exact ⟨_, _, _, h⟩

theorem Meets.isSignal {d : Demand} {c : Handle} (h : s.Meets net d c)
    (hd : (∃ direction, d.part = .port direction none) ∨ d.part = .declaration true none none) :
    s.IsSignal c d.owner d.name := by
  rcases hd with ⟨direction, hd⟩ | hd
  · exact Or.inl (h.isPort hd)
  · exact Or.inr (h.isDeclaration hd)

variable (hh : SameHierarchy s s') (hmeets : List.Forall₂ (s'.Meets net) D created)

include hh hmeets

/-- One step up among demands is one step up among members. -/
theorem exists_leads {d e : Demand} (hup : Task.Up s D d e) {c : Handle} (hc : s'.Meets net d c) :
    ∃ c' ∈ created, s'.Meets net e c' ∧ s'.Leads created c c' := by
  cases hup with
  | port hd hframe he hname hmem =>
    obtain ⟨c', hc', hmeet⟩ := exists_right_of_mem hmeets hmem
    rw [← hh.frame] at hframe
    have hpin := hmeet.isPin he
    rw [hname] at hpin
    exact ⟨c', hc', hmeet, .port (hc.isPort hd) (defaultInstance_of_frame hframe) hc' hpin⟩
  | pin hd htarget he hname hmem =>
    obtain ⟨c', hc', hmeet⟩ := exists_right_of_mem hmeets hmem
    rw [← hh.child, target_child_eq] at htarget
    have hsignal := hmeet.isSignal he
    rw [hname] at hsignal
    exact ⟨c', hc', hmeet, .pin (hc.isPin hd) htarget hc' hsignal⟩

end Demands

/-- If the demands lead up to the topmost one, which is for a declaration, then the objects that
they got thread the signal. -/
theorem threaded_of_linked {s s' : Store} (hs' : s'.Coherent) (hh : SameHierarchy s s')
    {net : Handle} {top : Demand} {rest : List Demand} {created : List Handle}
    (hmeets : List.Forall₂ (s'.Meets net) (top :: rest) created)
    (hnodup : created.Nodup) (htop : top.part = .declaration true none none)
    (hlinked : ∀ d ∈ rest, Task.Linked s (top :: rest) top d) :
    s'.Threaded top.owner created := by
  cases hmeets with
  | @cons _ c₀ _ cs hmeet₀ hrest =>
    have hmeets : List.Forall₂ (s'.Meets net) (top :: rest) (c₀ :: cs) := .cons hmeet₀ hrest
    have hdeclaration := hmeet₀.isDeclaration htop
    -- Whatever is not the declaration leads on.
    have hleads : ∀ c ∈ c₀ :: cs, c = c₀ ∨ ∃ c', s'.Leads (c₀ :: cs) c c' := by
      intro c hc
      rcases List.mem_cons.1 hc with rfl | hc
      · exact Or.inl rfl
      · obtain ⟨d, hd, hmeet⟩ := exists_left_of_mem hrest hc
        obtain ⟨e, hup, -⟩ := (hlinked d hd).up
        obtain ⟨c', -, -, hlead⟩ := exists_leads hh hmeets hup hmeet
        exact Or.inr ⟨c', hlead⟩
    constructor
    case nodup => exact hnodup
    case declaration =>
      refine ⟨c₀, List.mem_cons_self, ⟨_, hdeclaration⟩, fun c hc m name hc' => ?_⟩
      rcases hleads c hc with rfl | ⟨c', hlead⟩
      · rfl
      · exact absurd hc' hlead.not_isDeclaration
    case pin =>
      intro c hc inst name connection hpin
      rcases hleads c hc with rfl | ⟨c', hlead⟩
      · exact absurd hpin hdeclaration.not_isPin
      · exact hlead.of_isPin hpin
    case port =>
      intro c hc m name hport
      rcases hleads c hc with rfl | ⟨c', hlead⟩
      · exact absurd hport hdeclaration.not_isPort
      · exact hlead.of_isPort hport
    case inner =>
      intro c hc inst name connection hpin i m hi hm hres
      have hframe := hs'.frame_of_instance hi hm hres
      rw [hh.frame] at hframe
      rcases List.mem_cons.1 hc with rfl | hc
      · exact absurd hpin hdeclaration.not_isPin
      · obtain ⟨d, hd, hmeet⟩ := exists_left_of_mem hrest hc
        obtain ⟨⟨e, hup, -⟩, hdown⟩ := hlinked d hd
        cases hup with
        | port hport => exact absurd (hmeet.isPort hport) hpin.not_isPort
        | pin hd' =>
          obtain ⟨rfl, rfl, -⟩ := hpin.unique (hmeet.isPin hd')
          obtain ⟨e, he, howner, hname, direction, hport⟩ := hdown _ _ hd' _ hframe
          obtain ⟨c', hc', hmeet'⟩ := exists_right_of_mem hmeets he
          have hport' := hmeet'.isPort hport
          rw [howner, hname] at hport'
          exact ⟨c', hc', hport'⟩
    case reaches =>
      intro c hc
      obtain ⟨d, hd, hmeet⟩ := exists_left_of_mem hmeets hc
      have hup : Relation.ReflTransGen (Task.Up s (top :: rest)) d top := by
        rcases List.mem_cons.1 hd with rfl | hd
        · exact .refl
        · obtain ⟨e, hup, hups⟩ := (hlinked d hd).up
          exact .head hup hups
      obtain ⟨c', hc', hmeet', hclimb⟩ :=
        exists_reflTransGen hup hc hmeet fun hmeet hup => exists_leads hh hmeets hup hmeet
      exact ⟨c', hc', ⟨_, hmeet'.isDeclaration htop⟩, hclimb⟩

end Interconnect.Store
