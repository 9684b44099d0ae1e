/-!
# Maps in insertion order

A list of entries with distinct keys.  Inserting under a new key appends an entry;
inserting under a key that is present changes its value and keeps its place.  The lemmas
at the end say what `get?` sees after an insertion, and that with distinct keys it finds
exactly the entries.
-/

namespace Interconnect

/-- Entries in the order in which their keys were first inserted. -/
structure OrderedMap (κ α : Type) where
  entries : List (κ × α)
  deriving DecidableEq

namespace OrderedMap

variable {κ α : Type} [DecidableEq κ]

/-- The map without entries. -/
def empty : OrderedMap κ α := ⟨[]⟩

/-- The value under `k`. -/
def get? (m : OrderedMap κ α) (k : κ) : Option α :=
  m.entries.lookup k

/-- There is an entry under `k`. -/
def contains (m : OrderedMap κ α) (k : κ) : Bool :=
  (m.get? k).isSome

/-- The keys, in insertion order. -/
def keys (m : OrderedMap κ α) : List κ :=
  m.entries.map Prod.fst

/-- The values, in insertion order of their keys. -/
def values (m : OrderedMap κ α) : List α :=
  m.entries.map Prod.snd

/-- The number of entries. -/
def size (m : OrderedMap κ α) : Nat :=
  m.entries.length

/-- Replaces the value of the first entry under `k`, or appends an entry. -/
def put : List (κ × α) → κ → α → List (κ × α)
  | [], k, a => [(k, a)]
  | (k', a') :: rest, k, a =>
    if k = k' then (k, a) :: rest else (k', a') :: put rest k a

/-- Stores `a` under `k`. -/
def insert (m : OrderedMap κ α) (k : κ) (a : α) : OrderedMap κ α :=
  ⟨put m.entries k a⟩

/-- Stores several entries, one after the other. -/
def insertMany (m : OrderedMap κ α) (entries : List (κ × α)) : OrderedMap κ α :=
  entries.foldl (fun m e => m.insert e.1 e.2) m

/-! ## What an insertion changes -/

private theorem lookup_put_self (l : List (κ × α)) (k : κ) (a : α) :
    (put l k a).lookup k = some a := by
  induction l with
  | nil => simp [put]
  | cons e rest ih =>
    obtain ⟨k', a'⟩ := e
    by_cases h : k = k'
    · simp [put, h]
    · have hb : (k == k') = false := by simpa using h
      simp [put, h, List.lookup_cons, hb, ih]

private theorem lookup_put_of_ne (l : List (κ × α)) {k k' : κ} (a : α) (h : k' ≠ k) :
    (put l k a).lookup k' = l.lookup k' := by
  have hb : (k' == k) = false := by simpa using h
  induction l with
  | nil => simp [put, List.lookup_cons, hb]
  | cons e rest ih =>
    obtain ⟨q, b⟩ := e
    by_cases hq : k = q
    · subst hq
      simp [put, List.lookup_cons, hb]
    · simp only [put, hq, if_false, List.lookup_cons, ih]

@[simp] theorem get?_insert_self (m : OrderedMap κ α) (k : κ) (a : α) :
    (m.insert k a).get? k = some a :=
  lookup_put_self m.entries k a

theorem get?_insert_of_ne (m : OrderedMap κ α) {k k' : κ} (a : α) (h : k' ≠ k) :
    (m.insert k a).get? k' = m.get? k' :=
  lookup_put_of_ne m.entries a h

private theorem put_of_lookup_eq_none {l : List (κ × α)} {k : κ} (a : α)
    (h : l.lookup k = none) : put l k a = l ++ [(k, a)] := by
  induction l with
  | nil => rfl
  | cons e rest ih =>
    obtain ⟨k', a'⟩ := e
    rw [List.lookup_cons] at h
    split at h
    · cases h
    · rename_i hne
      have hk : ¬ k = k' := by simpa using hne
      simp [put, hk, ih h]

/-- A new key goes to the end. -/
theorem entries_insert {m : OrderedMap κ α} {k : κ} (a : α) (h : m.get? k = none) :
    (m.insert k a).entries = m.entries ++ [(k, a)] :=
  put_of_lookup_eq_none a h

private theorem mem_put {l : List (κ × α)} {k : κ} {a : α} {e : κ × α} (h : e ∈ put l k a) :
    e = (k, a) ∨ e ∈ l := by
  induction l with
  | nil => exact Or.inl (List.mem_singleton.1 h)
  | cons head rest ih =>
    obtain ⟨k', a'⟩ := head
    unfold put at h
    split at h
    · exact (List.mem_cons.1 h).imp_right (List.mem_cons_of_mem _)
    · rcases List.mem_cons.1 h with rfl | h
      · exact Or.inr List.mem_cons_self
      · exact (ih h).imp_right (List.mem_cons_of_mem _)

/-- An entry after an insertion is the new one or was there before. -/
theorem mem_entries_insert {m : OrderedMap κ α} {k : κ} {a : α} {e : κ × α}
    (h : e ∈ (m.insert k a).entries) : e = (k, a) ∨ e ∈ m.entries :=
  mem_put h

/-- What is found is an entry. -/
theorem mem_entries_of_get? {m : OrderedMap κ α} {k : κ} {a : α} (h : m.get? k = some a) :
    (k, a) ∈ m.entries := by
  obtain ⟨before, after, heq, -⟩ := List.lookup_eq_some_iff.1 h
  simp [heq]

/-- Other keys are not touched when several entries are stored. -/
theorem get?_insertMany_of_notMem {k : κ} {entries : List (κ × α)}
    (h : k ∉ entries.map Prod.fst) (m : OrderedMap κ α) :
    (m.insertMany entries).get? k = m.get? k := by
  unfold insertMany
  induction entries generalizing m with
  | nil => rfl
  | cons e rest ih =>
    rw [List.map_cons, List.mem_cons, not_or] at h
    rw [List.foldl_cons, ih h.2, get?_insert_of_ne m e.2 h.1]

/-- With distinct keys, every entry that was stored is found under its key. -/
theorem get?_insertMany_of_mem {entries : List (κ × α)} (hkeys : (entries.map Prod.fst).Nodup)
    {k : κ} {a : α} (h : (k, a) ∈ entries) (m : OrderedMap κ α) :
    (m.insertMany entries).get? k = some a := by
  induction entries generalizing m with
  | nil => cases h
  | cons e rest ih =>
    rw [List.map_cons, List.nodup_cons] at hkeys
    show ((m.insert e.1 e.2).insertMany rest).get? k = some a
    rcases List.mem_cons.1 h with rfl | h
    · rw [get?_insertMany_of_notMem hkeys.1, get?_insert_self]
    · exact ih hkeys.2 h _

/-! ## Entries and keys -/

theorem get?_eq_none_iff {m : OrderedMap κ α} {k : κ} : m.get? k = none ↔ k ∉ m.keys := by
  unfold get? keys
  rw [List.lookup_eq_none_iff]
  constructor
  · intro h hmem
    obtain ⟨e, he, hk⟩ := List.mem_map.1 hmem
    have hne := h e he
    simp [hk] at hne
  · intro h e he
    have hne : k ≠ e.1 := fun hk => h (List.mem_map.2 ⟨e, he, hk.symm⟩)
    simpa using hne

/-- With distinct keys, every entry is found under its key. -/
theorem get?_eq_some_iff {m : OrderedMap κ α} (hm : m.keys.Nodup) {k : κ} {a : α} :
    m.get? k = some a ↔ (k, a) ∈ m.entries := by
  obtain ⟨l⟩ := m
  unfold get? keys at *
  dsimp only at *
  induction l with
  | nil => simp
  | cons e rest ih =>
    obtain ⟨k', a'⟩ := e
    rw [List.map_cons, List.nodup_cons] at hm
    rw [List.lookup_cons, List.mem_cons]
    by_cases hk : k = k'
    · subst hk
      have hrest : (k, a) ∉ rest := fun h => hm.1 (List.mem_map.2 ⟨(k, a), h, rfl⟩)
      simp [hrest, eq_comm]
    · have hb : (k == k') = false := by simpa using hk
      simp [hb, hk, ih hm.2]

end OrderedMap

end Interconnect
