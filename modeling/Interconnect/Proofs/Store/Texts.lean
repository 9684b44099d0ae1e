import Interconnect.Request.Basic
import Mathlib.Data.List.Perm.Basic

/-!
# The order of texts

The texts that a store has held are numbered in the order of their first use, and no operation
looks at that order.  Two stores are alike if they are the same but for it.  The operations
that requests are made of do the same on stores that are alike, and leave them alike.
-/

namespace Interconnect

/-! ## Interning -/

namespace StringTable

variable {t t' : StringTable}

theorem perm_intern (h : t.texts.Perm t'.texts) (s : String) :
    (t.intern s).texts.Perm (t'.intern s).texts := by
  unfold intern contains
  by_cases hs : s ∈ t.texts
  · simpa [hs, h.mem_iff.1 hs] using h
  · simpa [hs, mt h.mem_iff.2 hs] using h.append_right [s]

theorem perm_internAll (h : t.texts.Perm t'.texts) (ss : List String) :
    (t.internAll ss).texts.Perm (t'.internAll ss).texts := by
  unfold internAll
  induction ss generalizing t t' with
  | nil => exact h
  | cons s rest ih => exact ih (perm_intern h s)

/-- A text that was there is there as often as before, and a new one is there once. -/
theorem count_intern (t : StringTable) (s x : String) :
    (t.intern s).texts.count x
      = if x ∈ t.texts then t.texts.count x else if x = s then 1 else 0 := by
  unfold intern contains
  by_cases hs : s ∈ t.texts
  · by_cases hx : x ∈ t.texts
    · simp [hs, hx]
    · have hne : x ≠ s := fun heq => hx (heq ▸ hs)
      simp [hs, hx, hne, List.count_eq_zero_of_not_mem hx]
  · by_cases hx : x ∈ t.texts
    · have hne : s ≠ x := fun heq => hs (heq ▸ hx)
      simp [hs, hx, hne]
    · by_cases heq : x = s
      · simp [hs, heq, List.count_eq_zero_of_not_mem hs]
      · simp [hs, hx, heq, Ne.symm heq, List.count_eq_zero_of_not_mem hx]

theorem count_internAll (t : StringTable) (ss : List String) (x : String) :
    (t.internAll ss).texts.count x
      = if x ∈ t.texts then t.texts.count x else if x ∈ ss then 1 else 0 := by
  unfold internAll
  induction ss generalizing t with
  | nil =>
    by_cases hx : x ∈ t.texts
    · simp [hx]
    · simp [hx, List.count_eq_zero_of_not_mem hx]
  | cons s rest ih =>
    rw [List.foldl_cons, ih, count_intern]
    simp only [mem_intern, List.mem_cons]
    by_cases hx : x ∈ t.texts
    · simp [hx]
    · by_cases hs : x = s
      · simp [hs]
      · simp [hx, hs]

/-- Which texts are held, and how often, does not depend on the order of interning. -/
theorem perm_internAll_of_same (t : StringTable) {ss ss' : List String}
    (h : ∀ s, s ∈ ss ↔ s ∈ ss') : (t.internAll ss).texts.Perm (t.internAll ss').texts := by
  rw [List.perm_iff_count]
  intro x
  rw [count_internAll, count_internAll]
  simp only [h]

end StringTable

namespace Store

/-- The stores are the same but for the order of their texts. -/
structure Alike (s s' : Store) : Prop where
  objects : s.objects = s'.objects
  ids : s.ids = s'.ids
  modules : s.modules = s'.modules
  instances : s.instances = s'.instances
  nets : s.nets = s'.nets
  moduleIds : s.moduleIds = s'.moduleIds
  instanceIds : s.instanceIds = s'.instanceIds
  netIds : s.netIds = s'.netIds
  texts : s.strings.texts.Perm s'.strings.texts

/-- The store with other texts. -/
def withTexts (s : Store) (t : StringTable) : Store :=
  { s with strings := t }

namespace Alike

variable {s s' : Store}

theorem refl (s : Store) : Alike s s :=
  ⟨rfl, rfl, rfl, rfl, rfl, rfl, rfl, rfl, .refl _⟩

theorem withTexts (s : Store) {t t' : StringTable} (h : t.texts.Perm t'.texts) :
    Alike (s.withTexts t) (s.withTexts t') :=
  ⟨rfl, rfl, rfl, rfl, rfl, rfl, rfl, rfl, h⟩

/-- A store that is alike is the store with other texts. -/
theorem exists_withTexts (h : Alike s s') :
    ∃ t : StringTable, s.strings.texts.Perm t.texts ∧ s' = s.withTexts t := by
  refine ⟨s'.strings, h.texts, ?_⟩
  obtain ⟨ho, hi, hm, hn, hne, hmi, hii, hni, -⟩ := h
  unfold Store.withTexts
  rw [ho, hi, hm, hn, hne, hmi, hii, hni]

theorem intern (h : Alike s s') (text : String) : Alike (s.intern text) (s'.intern text) :=
  { h with texts := StringTable.perm_intern h.texts text }

theorem modify (h : Alike s s') (x : Handle) (f : Object → Object) :
    Alike (s.modify x f) (s'.modify x f) :=
  { h with objects := congrArg (fun a => a.modify x f) h.objects }

theorem write (h : Alike s s') (x : Handle) (name : String) (a : Attribute) :
    Alike (s.write x name a) (s'.write x name a) :=
  { h.modify x (Object.write name a) with
    texts := StringTable.perm_internAll h.texts [name, a.value] }

theorem create (h : Alike s s') (scope name : String) (body : Body)
    (details : List (String × String)) :
    Alike (s.create scope name body details).1 (s'.create scope name body details).1 := by
  obtain ⟨t, ht, rfl⟩ := h.exists_withTexts
  exact ⟨rfl, rfl, rfl, rfl, rfl, rfl, rfl, rfl, StringTable.perm_internAll ht _⟩

theorem describe_eq (h : Alike s s') : s'.describe = s.describe := by
  obtain ⟨t, -, rfl⟩ := h.exists_withTexts
  rfl

theorem enlist (h : Alike s s') (net : Handle) (name id : String) (x : Handle) :
    Alike (enlist net name id s x) (enlist net name id s' x) :=
  (((h.write x _ _).write x _ _).write x _ _).modify x _

theorem enlistAll (h : Alike s s') (net : Handle) (name id : String) (members : List Handle) :
    Alike (members.foldl (Store.enlist net name id) s)
      (members.foldl (Store.enlist net name id) s') := by
  induction members generalizing s s' with
  | nil => exact h
  | cons x rest ih =>
    rw [List.foldl_cons, List.foldl_cons]
    exact ih (h.enlist net name id x)

end Alike

/-! ## Operations -/

/-- Both succeed with related values, or both fail with one error. -/
inductive Matches {ε α β : Type} (R : α → β → Prop) : Except ε α → Except ε β → Prop where
  | ok {a : α} {b : β} : R a b → Matches R (.ok a) (.ok b)
  | error (e : ε) : Matches R (.error e) (.error e)

namespace Matches

variable {ε α β γ : Type} {R : α → β → Prop}

/-- After the same first step the rest has to match. -/
theorem bind {x : Except ε γ} {f : γ → Except ε α} {g : γ → Except ε β}
    (h : ∀ c, Matches R (f c) (g c)) : Matches R (x >>= f) (x >>= g) := by
  cases x with
  | error e => exact .error e
  | ok c => exact h c

/-- After the same guard the rest has to match. -/
theorem guard {c : Prop} [Decidable c] {e : ε} {f : Unit → Except ε α} {g : Unit → Except ε β}
    (h : Matches R (f ()) (g ())) :
    Matches R (if c then throw e >>= f else f ()) (if c then throw e >>= g else g ()) := by
  split
  · exact .error e
  · exact h

end Matches

/-- The same object in stores that are alike. -/
def AlikeAt (r r' : Store × Handle) : Prop :=
  Alike r.1 r'.1 ∧ r.2 = r'.2

namespace Alike

variable {s s' : Store}

theorem createPart (h : Alike s s') (o : Object) (name : String) (p : Part) :
    AlikeAt (s.createPart o name p) (s'.createPart o name p) := by
  obtain ⟨t, ht, rfl⟩ := h.exists_withTexts
  exact ⟨(h.create _ _ _ _).modify _ _, rfl⟩

theorem attach (h : Alike s s') (owner : Handle) (name : String) (p : Part) :
    Matches AlikeAt (s.attach owner name p) (s'.attach owner name p) := by
  obtain ⟨t, ht, rfl⟩ := h.exists_withTexts
  unfold Store.attach
  refine .guard (.bind fun o => .bind fun _ => .ok (h.createPart o name p))

theorem addNet (h : Alike s s') (name : String) (members : List Handle) :
    Matches AlikeAt (s.addNet name members) (s'.addNet name members) := by
  obtain ⟨t, ht, rfl⟩ := h.exists_withTexts
  unfold Store.addNet
  refine .guard (.guard (.bind fun _ => .bind fun _ => .ok ⟨?_, rfl⟩))
  exact (h.create _ _ _ _).enlistAll _ _ _ _

theorem setAttribute (h : Alike s s') (x : Handle) (name value : String) (constant : Bool) :
    Matches Alike (s.setAttribute x name value constant)
      (s'.setAttribute x name value constant) := by
  obtain ⟨t, ht, rfl⟩ := h.exists_withTexts
  unfold Store.setAttribute
  exact .guard (.bind fun o => .guard (.ok (h.write x name _)))

end Alike

end Store

end Interconnect
