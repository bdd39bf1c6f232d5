/-!
# Sums of figures
-/
namespace ContractHost

variable {α : Type} (g : α → Nat)

def sumOf : List α → Nat
  | [] => 0
  | x :: xs => g x + sumOf xs

@[simp] theorem sumOf_nil : sumOf g [] = 0 :=
  rfl

@[simp] theorem sumOf_cons (x : α) (xs : List α) : sumOf g (x :: xs) = g x + sumOf g xs :=
  rfl

theorem sumOf_append (xs ys : List α) : sumOf g (xs ++ ys) = sumOf g xs + sumOf g ys := by
  induction xs with
  | nil => simp
  | cons x xs ih =>
    rw [List.cons_append, sumOf_cons, sumOf_cons, ih]
    omega

theorem sumOf_concat (xs : List α) (x : α) : sumOf g (xs ++ [x]) = sumOf g xs + g x :=
  sumOf_append g xs [x]

theorem le_sumOf {xs : List α} {x : α} (h : x ∈ xs) : g x ≤ sumOf g xs := by
  induction xs with
  | nil => cases h
  | cons y ys ih =>
    rw [sumOf_cons]
    rcases List.mem_cons.mp h with rfl | h
    · exact Nat.le_add_right _ _
    · exact Nat.le_trans (ih h) (Nat.le_add_left _ _)

variable {g} in
theorem sumOf_eq_zero {xs : List α} (h : ∀ x ∈ xs, g x = 0) : sumOf g xs = 0 := by
  induction xs with
  | nil => rfl
  | cons x xs ih =>
    have hx := h x List.mem_cons_self
    have hxs := ih fun y hy => h y (List.mem_cons_of_mem _ hy)
    rw [sumOf_cons, hx, hxs]

end ContractHost
