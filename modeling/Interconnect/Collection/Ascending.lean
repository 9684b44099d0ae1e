/-!
# Ascending lists

The distinct members of a list, smallest first.
-/

namespace Interconnect

variable {α : Type} [LT α] [DecidableLT α] [DecidableEq α]

/-- An ascending list with `x` at its place, unless it is there already. -/
def insertAscending (x : α) : List α → List α
  | [] => [x]
  | y :: ys =>
    if x = y then y :: ys
    else if x < y then x :: y :: ys
    else y :: insertAscending x ys

/-- The distinct members of a list in ascending order. -/
def ascending (xs : List α) : List α :=
  xs.foldr insertAscending []

theorem mem_insertAscending {x y : α} {ys : List α} :
    y ∈ insertAscending x ys ↔ y = x ∨ y ∈ ys := by
  induction ys with
  | nil => simp [insertAscending]
  | cons z zs ih =>
    unfold insertAscending
    split
    · rename_i h
      subst h
      simp
    · split
      · simp
      · simp only [List.mem_cons, ih]
        constructor
        · rintro (h | h | h) <;> simp [h]
        · rintro (h | h | h) <;> simp [h]

section Order

variable [Std.Trichotomous (α := α) (· < ·)]
  [Trans (α := α) (β := α) (γ := α) (· < ·) (· < ·) (· < ·)]

theorem pairwise_insertAscending (x : α) {ys : List α} (hys : ys.Pairwise (· < ·)) :
    (insertAscending x ys).Pairwise (· < ·) := by
  induction ys with
  | nil => simp [insertAscending]
  | cons y ys ih =>
    obtain ⟨hy, htail⟩ := List.pairwise_cons.1 hys
    unfold insertAscending
    split
    · exact hys
    · rename_i hne
      split
      · rename_i hlt
        refine List.pairwise_cons.2 ⟨fun z hz => ?_, hys⟩
        rcases List.mem_cons.1 hz with rfl | hz
        · exact hlt
        · exact Std.lt_trans hlt (hy z hz)
      · rename_i hnlt
        refine List.pairwise_cons.2 ⟨fun z hz => ?_, ih htail⟩
        rcases mem_insertAscending.1 hz with rfl | hz
        · have hor := Std.Trichotomous.rel_or_eq_or_rel_swap (r := (· < ·)) (a := z) (b := y)
          rcases hor with hlt | heq | hlt
          · exact absurd hlt hnlt
          · exact absurd heq hne
          · exact hlt
        · exact hy z hz

/-- An ascending list is ascending. -/
theorem pairwise_ascending (xs : List α) : (ascending xs).Pairwise (· < ·) := by
  induction xs with
  | nil => exact List.Pairwise.nil
  | cons x xs ih => exact pairwise_insertAscending x ih

end Order

@[simp] theorem mem_ascending {y : α} {xs : List α} : y ∈ ascending xs ↔ y ∈ xs := by
  induction xs with
  | nil => simp [ascending]
  | cons x xs ih =>
    unfold ascending at ih ⊢
    rw [List.foldr_cons, mem_insertAscending, ih, List.mem_cons]

end Interconnect
