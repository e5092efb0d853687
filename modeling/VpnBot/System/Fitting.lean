import Mathlib.Data.List.DropRight

/-!
# The items that fit

`fitting w n l` are the leading items of `l` of total weight at most `n`.  Where the items stand for texts, a cut
after `n` characters leaves the texts of the items that fit and a beginning of the next one
(`exists_take_flatMap`).
-/

namespace Sys

variable {α β : Type*}

/-- The leading items of total weight at most `n`. -/
def fitting (w : α → ℕ) : ℕ → List α → List α
  | _, [] => []
  | n, a :: l => if w a ≤ n then a :: fitting w (n - w a) l else []

@[simp] theorem fitting_nil (w : α → ℕ) (n : ℕ) : fitting w n [] = [] := rfl

theorem fitting_cons_of_le (w : α → ℕ) {n : ℕ} {a : α} (h : w a ≤ n) (l : List α) :
    fitting w n (a :: l) = a :: fitting w (n - w a) l := if_pos h

theorem fitting_cons_of_lt (w : α → ℕ) {n : ℕ} {a : α} (h : n < w a) (l : List α) :
    fitting w n (a :: l) = [] := if_neg (Nat.not_le.2 h)

theorem fitting_begins (w : α → ℕ) (n : ℕ) (l : List α) : fitting w n l <+: l := by
  induction l generalizing n with
  | nil => exact List.prefix_rfl
  | cons a l ih =>
    rcases Nat.lt_or_ge n (w a) with hlt | hle
    · rw [fitting_cons_of_lt w hlt]
      exact List.nil_prefix
    · rw [fitting_cons_of_le w hle, List.prefix_cons_inj]
      exact ih _

theorem length_flatMap_fitting_le (f : α → List β) (n : ℕ) (l : List α) :
    ((fitting (fun a => (f a).length) n l).flatMap f).length ≤ n := by
  induction l generalizing n with
  | nil => simp
  | cons a l ih =>
    rcases Nat.lt_or_ge n (f a).length with hlt | hle
    · rw [fitting_cons_of_lt (fun a => (f a).length) hlt]
      simp
    · have hrest := ih (n - (f a).length)
      rw [fitting_cons_of_le (fun a => (f a).length) hle, List.flatMap_cons, List.length_append]
      omega

/-- A piece that a cut leaves of a text: not all of it, and not nothing. -/
def IsHalf (half whole : List β) : Prop := half <+: whole ∧ half ≠ [] ∧ half ≠ whole

/-- **A cut leaves the items that fit**, and nothing or half of the next one. -/
theorem exists_take_flatMap (f : α → List β) (n : ℕ) (l : List α) :
    ∃ half, (l.flatMap f).take n = (fitting (fun a => (f a).length) n l).flatMap f ++ half ∧
      (half = [] ∨ ∃ a, IsHalf half (f a)) := by
  induction l generalizing n with
  | nil => exact ⟨[], by simp, Or.inl rfl⟩
  | cons a l ih =>
    rcases Nat.lt_or_ge n (f a).length with hlt | hle
    · refine ⟨(f a).take n, ?_, ?_⟩
      · rw [fitting_cons_of_lt (fun a => (f a).length) hlt, List.flatMap_cons, List.take_append_of_le_length hlt.le]
        rfl
      · rcases Nat.eq_zero_or_pos n with rfl | hpos
        · exact Or.inl (List.take_zero)
        · refine Or.inr ⟨a, List.take_prefix n (f a), ?_, ?_⟩
          · intro hnil
            have hlen := congrArg List.length hnil
            rw [List.length_take, List.length_nil] at hlen
            omega
          · intro hwhole
            have hlen := congrArg List.length hwhole
            rw [List.length_take] at hlen
            omega
    · obtain ⟨half, htake, hhalf⟩ := ih (n - (f a).length)
      refine ⟨half, ?_, hhalf⟩
      rw [fitting_cons_of_le (fun a => (f a).length) hle, List.flatMap_cons, List.take_append, List.take_of_length_le hle, htake,
        List.flatMap_cons, List.append_assoc]

end Sys
