import Mathlib

/-!
# Blocks between marked lines

Lines from which the first block is cut out: from the first line that opens one to the first line behind it that
closes one.  Where keyed blocks stand one after another behind lines that open none, the block of a key goes and all
other lines stay (`cutOut_blocks`).
-/

namespace Sys

variable {α β κ : Type} {opens closes : α → Bool} {front lines : List α}

/-- What is left when the first block is cut out. -/
def cutOut (opens closes : α → Bool) (lines : List α) : List α :=
  lines.takeWhile (!opens ·) ++ ((lines.dropWhile (!opens ·)).tail.dropWhile (!closes ·)).tail

theorem cutOut_append (h : ∀ l ∈ front, opens l = false) :
    cutOut opens closes (front ++ lines) = front ++ cutOut opens closes lines := by
  induction front with
  | nil => rfl
  | cons l front ih =>
    have hl := h l List.mem_cons_self
    have hfront := ih fun m hm => h m (List.mem_cons_of_mem _ hm)
    unfold cutOut at hfront ⊢
    rw [List.cons_append, List.takeWhile_cons_of_pos (by simp [hl]), List.dropWhile_cons_of_pos (by simp [hl]),
      List.cons_append, hfront, List.cons_append]

/-- A block begins with the only line that opens it and ends with the only line that closes it. -/
def Framed (opens closes : α → Bool) (block : List α) : Prop :=
  ∃ start body finish, block = start :: (body ++ [finish]) ∧ opens start = true ∧
    (∀ l ∈ body, closes l = false) ∧ closes finish = true

theorem Framed.cutOut_append {block : List α} (h : Framed opens closes block) (rest : List α) :
    cutOut opens closes (block ++ rest) = rest := by
  obtain ⟨start, body, finish, rfl, hstart, hbody, hfinish⟩ := h
  have hbefore : (start :: (body ++ [finish]) ++ rest).takeWhile (!opens ·) = [] :=
    List.takeWhile_cons_of_neg (by simp [hstart])
  have hbehind : (start :: (body ++ [finish]) ++ rest).dropWhile (!opens ·) = start :: (body ++ [finish]) ++ rest :=
    List.dropWhile_cons_of_neg (by simp [hstart])
  rw [cutOut, hbefore, hbehind, List.cons_append, List.tail_cons, List.append_assoc, List.nil_append,
    List.dropWhile_append_of_pos fun l hl => by simp [hbody l hl], List.singleton_append,
    List.dropWhile_cons_of_neg (by simp [hfinish]), List.tail_cons]

section Keyed

variable [DecidableEq κ] {key : β → κ} {text : β → List α} {k : κ} {blocks : List β}

/-- **The block of a key is cut out, and nothing else.** -/
theorem cutOut_blocks (hfront : ∀ l ∈ front, opens l = false) (hnodup : (blocks.map key).Nodup)
    (hothers : ∀ b ∈ blocks, key b ≠ k → ∀ l ∈ text b, opens l = false)
    (hframed : ∀ b ∈ blocks, key b = k → Framed opens closes (text b)) :
    cutOut opens closes (front ++ blocks.flatMap text) = front ++ (blocks.filter (key · ≠ k)).flatMap text := by
  rw [cutOut_append hfront]
  congr 1
  induction blocks with
  | nil => rfl
  | cons b blocks ih =>
    rw [List.map_cons, List.nodup_cons] at hnodup
    rw [List.flatMap_cons]
    by_cases hkey : key b = k
    · -- No other block has the key.
      have hrest : blocks.filter (key · ≠ k) = blocks := by
        rw [List.filter_eq_self]
        intro b' hb'
        rw [decide_eq_true_eq]
        rintro rfl
        exact hnodup.1 (hkey ▸ List.mem_map_of_mem hb')
      rw [(hframed b List.mem_cons_self hkey).cutOut_append, List.filter_cons_of_neg (by simp [hkey]), hrest]
    · rw [cutOut_append (hothers b List.mem_cons_self hkey), List.filter_cons_of_pos (by simp [hkey]), List.flatMap_cons,
        ih hnodup.2 (fun b' hb' => hothers b' (List.mem_cons_of_mem _ hb'))
          fun b' hb' => hframed b' (List.mem_cons_of_mem _ hb')]

end Keyed

end Sys
