import Mathlib

/-!
# Windows of events

The first of a sequence of times opens a window of a given length, the first time after the window opens the
next one, and so on (`windowsOf`).  A further time belongs to the last window or opens a new one
(`windowsOf_concat_of_lt`, `windowsOf_concat_of_le`).
-/

namespace Sys

variable {τ : Type} [LinearOrder τ] [Add τ]

/-- The times of each window; the first one opens it. -/
def windowsOf (length : τ) : List τ → List (List τ)
  | [] => []
  | t :: times =>
    (t :: times.takeWhile (· < t + length)) :: windowsOf length (times.dropWhile (· < t + length))
termination_by times => times.length
decreasing_by exact Nat.lt_succ_of_le (List.length_dropWhile_le _ _)

variable {length start t : τ} {times rest : List τ} {ws : List (List τ)}

@[simp] theorem windowsOf_nil : windowsOf length ([] : List τ) = [] := by rw [windowsOf]

theorem windowsOf_cons : windowsOf length (t :: times) =
    (t :: times.takeWhile (· < t + length)) :: windowsOf length (times.dropWhile (· < t + length)) := by
  rw [windowsOf]

@[simp] theorem windowsOf_singleton : windowsOf length [t] = [[t]] := by simp [windowsOf_cons]

theorem windowsOf_eq_nil_iff : windowsOf length times = [] ↔ times = [] := by
  cases times with
  | nil => simp
  | cons t times => simp [windowsOf_cons]

theorem takeWhile_eq_of_windowsOf_dropWhile {p : τ → Bool} (h : windowsOf length (times.dropWhile p) = []) :
    times.takeWhile p = times := by
  have happend := List.takeWhile_append_dropWhile (p := p) (l := times)
  rw [windowsOf_eq_nil_iff.1 h, List.append_nil] at happend
  exact happend

theorem windowsOf_cons_eq_concat (h : windowsOf length (t :: times) = ws ++ [start :: rest]) :
    (ws = [] ∧ start = t ∧ rest = times ∧ times.dropWhile (· < t + length) = []) ∨
      ∃ ws', ws = (t :: times.takeWhile (· < t + length)) :: ws' ∧
        windowsOf length (times.dropWhile (· < t + length)) = ws' ++ [start :: rest] := by
  rw [windowsOf_cons] at h
  cases ws with
  | nil =>
    obtain ⟨hfirst, hnil⟩ := List.cons.inj h
    obtain ⟨rfl, rfl⟩ := List.cons.inj hfirst
    exact Or.inl ⟨rfl, rfl, takeWhile_eq_of_windowsOf_dropWhile hnil, windowsOf_eq_nil_iff.1 hnil⟩
  | cons w ws =>
    obtain ⟨rfl, hrest⟩ := List.cons.inj h
    exact Or.inr ⟨ws, rfl, hrest⟩

theorem dropWhile_ne_nil_of_windowsOf {p : τ → Bool}
    (h : windowsOf length (times.dropWhile p) = ws ++ [start :: rest]) : times.dropWhile p ≠ [] := by
  intro hnil
  rw [hnil, windowsOf_nil] at h
  exact absurd h.symm (by simp)

theorem windowsOf_cons_concat (h : times.dropWhile (· < t + length) ≠ []) (t' : τ) :
    windowsOf length (t :: (times ++ [t'])) = (t :: times.takeWhile (· < t + length)) ::
      windowsOf length (times.dropWhile (· < t + length) ++ [t']) := by
  have hlen : (times.takeWhile (· < t + length)).length ≠ times.length := by
    intro hlen
    have happend := congrArg List.length
      (List.takeWhile_append_dropWhile (p := (· < t + length)) (l := times))
    rw [List.length_append, hlen] at happend
    exact h (List.length_eq_zero_iff.1 (by omega))
  rw [windowsOf_cons, List.takeWhile_append, if_neg hlen, List.dropWhile_append,
    if_neg (by simpa using h)]

/-- A further time changes the last window only. -/
theorem windowsOf_concat (h : windowsOf length times = ws ++ [start :: rest]) :
    windowsOf length (times ++ [t]) =
      ws ++ if t < start + length then [start :: (rest ++ [t])] else [start :: rest, [t]] := by
  induction times using windowsOf.induct length generalizing ws with
  | case1 => simp at h
  | case2 first times ih =>
    rcases windowsOf_cons_eq_concat h with ⟨rfl, rfl, rfl, hdrop⟩ | ⟨ws', rfl, hrest⟩
    · have hnone : windowsOf length (rest.dropWhile (· < start + length)) = [] := by rw [hdrop, windowsOf_nil]
      have htake : rest.takeWhile (· < start + length) = rest :=
        takeWhile_eq_of_windowsOf_dropWhile hnone
      rw [List.cons_append, windowsOf_cons, List.takeWhile_append, htake, if_pos rfl,
        List.dropWhile_append, hdrop]
      by_cases ht : t < start + length <;> simp [ht]
    · rw [List.cons_append, windowsOf_cons_concat (dropWhile_ne_nil_of_windowsOf hrest), ih hrest,
        List.cons_append]

/-- **A further time in the last window.** -/
theorem windowsOf_concat_of_lt (h : windowsOf length times = ws ++ [start :: rest])
    (ht : t < start + length) : windowsOf length (times ++ [t]) = ws ++ [start :: (rest ++ [t])] := by
  rw [windowsOf_concat h, if_pos ht]

/-- **A further time after the last window.** -/
theorem windowsOf_concat_of_le (h : windowsOf length times = ws ++ [start :: rest])
    (ht : start + length ≤ t) : windowsOf length (times ++ [t]) = ws ++ [start :: rest] ++ [[t]] := by
  rw [windowsOf_concat h, if_neg (not_lt.2 ht), List.append_assoc]
  rfl

end Sys
