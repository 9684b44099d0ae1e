import Mathlib.Data.List.Basic

/-!
# Where a text can be cut

A text that was put together of two parts tells both of them if it tells where the first one ends.
There are three ways: the first part is one of several texts none of which is the beginning of
another (`append_code_inj`), or its characters are of another sort than the character that follows
(`append_sort_inj`), or it is free of the separator that follows (`append_separator_inj`).  Where
only the second part is free of the separator, the text can be cut from the back
(`append_separator_inj_right`).
-/

namespace Interconnect

variable {α β : Type} {u v l l' : List α}

/-- If no text of a code is the beginning of another, a text at the front tells what it stands for
and where it ends. -/
theorem append_code_inj {f : β → List α} (hfree : ∀ {a b}, f a <+: f b → a = b) {a b : β}
    (h : f a ++ u = f b ++ v) : a = b ∧ u = v := by
  have ha : f a <+: f b ++ v := h ▸ List.prefix_append (f a) u
  have hab : a = b := by
    rcases List.prefix_or_prefix_of_prefix ha (List.prefix_append (f b) v) with hab | hba
    · exact hfree hab
    · exact (hfree hba).symm
  subst hab
  exact ⟨rfl, List.append_cancel_left h⟩

/-- Elements of one sort at the front end where an element of another sort follows. -/
theorem append_sort_inj {p : α → Prop} (h : l ++ u = l' ++ v) (hl : ∀ x ∈ l, p x)
    (hl' : ∀ x ∈ l', p x) (hu : ∀ x ∈ u.head?, ¬ p x) (hv : ∀ x ∈ v.head?, ¬ p x) :
    l = l' ∧ u = v := by
  induction l generalizing l' with
  | nil =>
    cases l' with
    | nil => exact ⟨rfl, h⟩
    | cons y l' =>
      subst h
      exact absurd (hl' y (by simp)) (hu y (by simp))
  | cons x l ih =>
    cases l' with
    | nil =>
      subst h
      exact absurd (hl x (by simp)) (hv x (by simp))
    | cons y l' =>
      obtain ⟨rfl, hrest⟩ := List.cons.inj h
      obtain ⟨rfl, huv⟩ :=
        ih hrest (fun z hz => hl z (by simp [hz])) fun z hz => hl' z (by simp [hz])
      exact ⟨rfl, huv⟩

section Separator

variable {x : α}

/-- What is free of a separator ends where the separator stands. -/
theorem append_separator_inj (hl : x ∉ l) (hl' : x ∉ l') (h : l ++ x :: u = l' ++ x :: v) :
    l = l' ∧ u = v := by
  obtain ⟨hfront, hback⟩ := append_sort_inj (p := (· ≠ x)) h (fun y hy heq => hl (heq ▸ hy))
    (fun y hy heq => hl' (heq ▸ hy)) (by simp) (by simp)
  exact ⟨hfront, (List.cons.inj hback).2⟩

/-- What is free of a separator starts where the last separator stands. -/
theorem append_separator_inj_right (hu : x ∉ u) (hv : x ∉ v) (h : l ++ x :: u = l' ++ x :: v) :
    l = l' ∧ u = v := by
  have hreverse : u.reverse ++ x :: l.reverse = v.reverse ++ x :: l'.reverse := by
    simpa using congrArg List.reverse h
  obtain ⟨huv, hll'⟩ := append_separator_inj (by simpa using hu) (by simpa using hv) hreverse
  exact ⟨List.reverse_inj.1 hll', List.reverse_inj.1 huv⟩

end Separator

end Interconnect
