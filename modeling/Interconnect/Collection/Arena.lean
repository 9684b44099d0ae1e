/-!
# Arenas

An arena only grows: an item keeps its place, and its place is its handle, until the
whole arena is cleared.
-/

namespace Interconnect

/-- The place of an item in an arena. -/
abbrev Handle := Nat

/-- A handle as it is shown in messages. -/
def Handle.text (h : Handle) : String :=
  "#" ++ toString h

/-- Items in the order of their allocation. -/
structure Arena (α : Type) where
  items : Array α
  deriving DecidableEq

namespace Arena

variable {α : Type}

/-- The arena without items. -/
def empty : Arena α := ⟨#[]⟩

/-- The number of items. -/
def size (a : Arena α) : Nat :=
  a.items.size

/-- The handle that the next allocation gives. -/
def fresh (a : Arena α) : Handle :=
  a.items.size

/-- Adds an item under the fresh handle. -/
def push (a : Arena α) (x : α) : Arena α :=
  ⟨a.items.push x⟩

/-- The item under a handle, if one was allocated. -/
def get? (a : Arena α) (h : Handle) : Option α :=
  a.items[h]?

/-- Changes the item under a handle; an unknown handle changes nothing. -/
def modify (a : Arena α) (h : Handle) (f : α → α) : Arena α :=
  ⟨a.items.modify h f⟩

/-- The items with their handles, oldest first. -/
def toList (a : Arena α) : List (Handle × α) :=
  a.items.toList.zipIdx.map fun (x, h) => (h, x)

@[simp] theorem size_push (a : Arena α) (x : α) : (a.push x).size = a.size + 1 := by
  simp [push, size]

@[simp] theorem size_modify (a : Arena α) (h : Handle) (f : α → α) :
    (a.modify h f).size = a.size := by
  simp [modify, size]

theorem get?_push (a : Arena α) (x : α) (h : Handle) :
    (a.push x).get? h = if h = a.fresh then some x else a.get? h := by
  unfold push get? fresh
  rw [Array.getElem?_push]

theorem get?_modify (a : Arena α) (h h' : Handle) (f : α → α) :
    (a.modify h f).get? h' = if h = h' then (a.get? h').map f else a.get? h' := by
  simp [modify, get?, Array.getElem?_modify]

theorem mem_toList {a : Arena α} {h : Handle} {x : α} :
    (h, x) ∈ a.toList ↔ a.get? h = some x := by
  unfold toList get?
  rw [List.mem_map]
  constructor
  · rintro ⟨⟨x', h'⟩, hmem, heq⟩
    cases heq
    simpa [List.mk_mem_zipIdx_iff_getElem?] using hmem
  · intro hx
    exact ⟨(x, h), by simpa [List.mk_mem_zipIdx_iff_getElem?] using hx, rfl⟩

/-- The items are listed in the order of their handles. -/
theorem pairwise_toList (a : Arena α) : a.toList.Pairwise fun e e' => e.1 < e'.1 := by
  unfold toList
  rw [List.pairwise_map, ← List.pairwise_map (f := Prod.snd) (R := (· < ·)),
    List.zipIdx_map_snd]
  exact List.pairwise_lt_range'

theorem get?_isSome {a : Arena α} {h : Handle} : (a.get? h).isSome ↔ h < a.size := by
  simp [get?, size]

end Arena

end Interconnect
