import VpnBot.Python.ContentLines
import VpnBot.Warp.ApplyHelper

/-!
# The entries of a list text

The manager and the helper both cut a text into lines, take the comment and the white space off each line and
skip what is then empty; they differ in where a line ends.  `entriesBy` has the class of the characters that end
a line as its argument: `splitlines` has more of them than the helper, which reads its input with universal
newlines (`readEntries_eq`, `scriptEntries_eq`).  Everything else follows from `entriesBy_append_cons`, that the
entries of a text are those before a line end and those after it.
-/

namespace VpnBot.Warp

open Py

variable {p q : Char → Bool} {c : Char} {t u v w : Text}

/-! ### One line -/

def entryOfLine (raw : Text) : Text := strip (beforeComment raw)

/-- The entries of a text whose lines end at these characters. -/
def entriesBy (p : Char → Bool) (t : Text) : List Text :=
  ((t.splitOnP p).map entryOfLine).filter (!·.isEmpty)

/-- The entries that `read_list` finds. -/
def readEntries (t : Text) : List Text := ((splitlines t).map entryOfLine).filter (!·.isEmpty)

/-- The characters at which the helper ends a line. -/
def isNewline (c : Char) : Bool := c = '\n' || c = '\r'

theorem beforeComment_eq_takeWhile (t : Text) : beforeComment t = t.takeWhile (· ≠ '#') := by
  unfold beforeComment
  induction t with
  | nil => rfl
  | cons c t ih =>
    rw [splitOnce, List.takeWhile_cons]
    by_cases hc : c = '#'
    · simp [hc]
    · rw [if_neg hc]
      cases h : splitOnce '#' t with
      | none =>
        rw [h] at ih
        simpa [hc] using ih
      | some parts =>
        rw [h] at ih
        simpa [hc] using ih

theorem ne_hash_of_isSpace (hc : isSpace c = true) : c ≠ '#' := by
  rintro rfl
  revert hc
  decide

theorem entryOfLine_cons_of_isSpace (hc : isSpace c = true) (t : Text) :
    entryOfLine (c :: t) = entryOfLine t := by
  rw [entryOfLine, beforeComment_eq_takeWhile, List.takeWhile_cons_of_pos (by simpa using ne_hash_of_isSpace hc),
    strip_cons_of_isSpace hc, entryOfLine, beforeComment_eq_takeWhile]

theorem beforeComment_of_not_mem (h : '#' ∉ t) : beforeComment t = t := by
  rw [beforeComment_eq_takeWhile, List.takeWhile_eq_self_iff]
  intro c hc
  rw [decide_eq_true_eq]
  rintro rfl
  exact h hc

theorem beforeComment_append_hash (t u : Text) : beforeComment (t ++ '#' :: u) = beforeComment t := by
  rw [beforeComment_eq_takeWhile, beforeComment_eq_takeWhile, List.takeWhile_append]
  split_ifs with h
  · rw [List.takeWhile_cons_of_neg (by simp), List.append_nil]
    exact ((List.takeWhile_prefix _).eq_of_length h).symm ▸ rfl
  · rfl

/-! ### Cutting at line ends -/

@[simp] theorem entriesBy_nil : entriesBy p [] = [] := rfl

theorem entriesBy_append_cons (hc : p c = true) (t u : Text) :
    entriesBy p (t ++ c :: u) = entriesBy p t ++ entriesBy p u := by
  rw [entriesBy, List.splitOnP_append_cons _ _ hc, List.map_append, List.filter_append]
  rfl

theorem entriesBy_line (h : ∀ c ∈ t, p c = false) :
    entriesBy p t = if entryOfLine t = [] then [] else [entryOfLine t] := by
  rw [entriesBy, List.splitOnP_eq_singleton h]
  simp only [List.map_cons, List.map_nil, List.filter_cons, List.filter_nil]
  cases entryOfLine t <;> rfl

theorem entriesBy_cons_of_isSpace (hc : isSpace c = true) (t : Text) : entriesBy p (c :: t) = entriesBy p t := by
  by_cases hp : p c = true
  · exact entriesBy_append_cons hp [] t
  · rw [entriesBy, entriesBy, List.splitOnP_cons_eq_if_modifyHead, if_neg hp]
    cases h : t.splitOnP p with
    | nil => exact absurd h (List.splitOnP_ne_nil _ _)
    | cons l ls =>
      rw [List.modifyHead_cons, List.map_cons, List.map_cons, entryOfLine_cons_of_isSpace hc]

theorem entriesBy_append_left (hv : ∀ c ∈ v, isSpace c = true) (t : Text) :
    entriesBy p (v ++ t) = entriesBy p t := by
  induction v with
  | nil => rfl
  | cons c v ih =>
    rw [List.cons_append, entriesBy_cons_of_isSpace (hv c List.mem_cons_self),
      ih fun d hd => hv d (List.mem_cons_of_mem _ hd)]

theorem entriesBy_of_forall (hv : ∀ c ∈ v, isSpace c = true) : entriesBy p v = [] := by
  have h := entriesBy_append_left (p := p) hv []
  rwa [List.append_nil] at h

theorem exists_first_line (p : Char → Bool) (t : Text) : (∀ c ∈ t, p c = false) ∨
    ∃ l c u, t = l ++ c :: u ∧ p c = true ∧ ∀ d ∈ l, p d = false := by
  have hfirst : ∀ d ∈ t.takeWhile (!p ·), p d = false := fun d hd => by
    simpa using List.mem_takeWhile_imp hd
  have hsplit : t.takeWhile (!p ·) ++ t.dropWhile (!p ·) = t := List.takeWhile_append_dropWhile
  cases hdrop : t.dropWhile (!p ·) with
  | nil =>
    rw [hdrop, List.append_nil] at hsplit
    rw [hsplit] at hfirst
    exact Or.inl hfirst
  | cons c u =>
    rw [hdrop] at hsplit
    have hc := List.head?_dropWhile_not (!p ·) t
    rw [hdrop] at hc
    exact Or.inr ⟨_, c, u, hsplit.symm, by simpa using hc, hfirst⟩

theorem entriesBy_padded (hv : ∀ c ∈ v, isSpace c = true) (hw : ∀ c ∈ w, isSpace c = true)
    (ht : ∀ c ∈ t, p c = false) (hhash : '#' ∉ t) (hstrip : strip t = t) (hne : t ≠ []) :
    entriesBy p (v ++ (t ++ w)) = [t] := by
  have hentry : ∀ w : Text, (∀ c ∈ w, isSpace c = true) → entryOfLine (t ++ w) = t := by
    intro w hw
    have hnot : '#' ∉ t ++ w := by
      intro hmem
      rcases List.mem_append.mp hmem with hmem | hmem
      · exact hhash hmem
      · exact ne_hash_of_isSpace (hw _ hmem) rfl
    rw [entryOfLine, beforeComment_of_not_mem hnot, strip_append_of_forall hw, hstrip]
  rw [entriesBy_append_left hv]
  rcases exists_first_line p w with hall | ⟨l, c, u, rfl, hc, hl⟩
  · rw [entriesBy_line, hentry w hw, if_neg hne]
    exact fun c hc => (List.mem_append.mp hc).elim (ht c) (hall c)
  · have hl' : ∀ c ∈ l, isSpace c = true := fun c hc => hw c (List.mem_append_left _ hc)
    have hu : ∀ c ∈ u, isSpace c = true := fun c hc =>
      hw c (List.mem_append_right _ (List.mem_cons_of_mem _ hc))
    rw [← List.append_assoc, entriesBy_append_cons hc, entriesBy_of_forall hu, List.append_nil, entriesBy_line,
      hentry l hl', if_neg hne]
    exact fun c hc => (List.mem_append.mp hc).elim (ht c) (hl c)

theorem entriesBy_append_of_ends (hw : ∀ c ∈ w, p c = true) (t : Text) :
    entriesBy p (t ++ w) = entriesBy p t := by
  induction w generalizing t with
  | nil => rw [List.append_nil]
  | cons c w ih =>
    have hnil := ih (fun d hd => hw d (List.mem_cons_of_mem _ hd)) []
    rw [entriesBy_append_cons (hw c List.mem_cons_self)]
    rw [List.nil_append] at hnil
    rw [hnil, entriesBy_nil, List.append_nil]

/-- What a comment hides begins behind the entries of the text before it. -/
theorem exists_entriesBy_append_hash (p : Char → Bool) (t u : Text) :
    ∃ later, entriesBy p (t ++ '#' :: u) = entriesBy p t ++ later := by
  induction hn : t.length using Nat.strong_induction_on generalizing t with
  | _ n ih =>
    rcases exists_first_line p t with hall | ⟨l, c, t', rfl, hc, hl⟩
    · by_cases hhash : p '#' = true
      · exact ⟨_, entriesBy_append_cons hhash t u⟩
      have hline : ∀ u : Text, (∀ c ∈ u, p c = false) → entriesBy p (t ++ '#' :: u) = entriesBy p t := by
        intro u hu
        rw [entriesBy_line hall, entriesBy_line, entryOfLine, beforeComment_append_hash, ← entryOfLine]
        intro c hc
        rcases List.mem_append.mp hc with hc | hc
        · exact hall c hc
        · rcases List.mem_cons.mp hc with rfl | hc
          · simpa using hhash
          · exact hu c hc
      rcases exists_first_line p u with hu | ⟨l, c, u', rfl, hc, hl⟩
      · exact ⟨[], by rw [hline u hu, List.append_nil]⟩
      · refine ⟨entriesBy p u', ?_⟩
        rw [← List.cons_append, ← List.append_assoc, entriesBy_append_cons hc, hline l hl]
    · obtain ⟨later, hlater⟩ := ih t'.length (by rw [← hn, List.length_append, List.length_cons]; omega) t' rfl
      refine ⟨later, ?_⟩
      rw [List.append_assoc, List.cons_append, entriesBy_append_cons hc, entriesBy_append_cons hc, hlater,
        List.append_assoc]

/-! ### The two readers -/

/-- The entries of the parts that are left of a cut are those of the parts themselves. -/
theorem entryOfLine_strip (t : Text) : entryOfLine (strip t) = entryOfLine t := by
  obtain ⟨v, w, hv, hw, ht⟩ := exists_strip t
  have hfront : ∀ (v u : Text), (∀ c ∈ v, isSpace c = true) → entryOfLine (v ++ u) = entryOfLine u := by
    intro v u hv
    induction v with
    | nil => rfl
    | cons c v ih =>
      rw [List.cons_append, entryOfLine_cons_of_isSpace (hv c List.mem_cons_self),
        ih fun d hd => hv d (List.mem_cons_of_mem _ hd)]
  have hback : entryOfLine (strip t ++ w) = entryOfLine (strip t) := by
    by_cases hhash : '#' ∈ strip t
    · obtain ⟨a, b, heq⟩ := List.append_of_mem hhash
      rw [heq, List.append_assoc, List.cons_append, entryOfLine, beforeComment_append_hash, entryOfLine,
        beforeComment_append_hash]
    · have hnot : '#' ∉ strip t ++ w := by
        intro hmem
        rcases List.mem_append.mp hmem with hmem | hmem
        · exact hhash hmem
        · exact ne_hash_of_isSpace (hw _ hmem) rfl
      rw [entryOfLine, beforeComment_of_not_mem hnot, strip_append_of_forall hw, entryOfLine,
        beforeComment_of_not_mem hhash]
  calc entryOfLine (strip t) = entryOfLine (strip t ++ w) := hback.symm
    _ = entryOfLine (v ++ (strip t ++ w)) := (hfront v _ hv).symm
    _ = entryOfLine t := by rw [← List.append_assoc, ← ht]

theorem entries_contents (ls : List Text) : ((contents ls).map entryOfLine).filter (!·.isEmpty) =
    (ls.map entryOfLine).filter (!·.isEmpty) := by
  induction ls with
  | nil => rfl
  | cons l ls ih =>
    have hcons : contents (l :: ls) = if strip l = [] then contents ls else strip l :: contents ls := by
      rw [contents, List.map_cons, List.filter_cons, contents]
      cases strip l <;> rfl
    rw [hcons, List.map_cons]
    split_ifs with hnil
    · have hentry : entryOfLine l = [] := by
        rw [← entryOfLine_strip, hnil]
        rfl
      rw [ih, hentry]
      rfl
    · rw [List.map_cons, entryOfLine_strip, List.filter_cons, List.filter_cons, ih]

/-- **The entries that the manager reads.** -/
theorem readEntries_eq (t : Text) : readEntries t = entriesBy isLineBreak t := by
  have hcontents : contents (splitlines t) = contents (t.splitOnP isLineBreak) := contentLines_eq t
  rw [readEntries, entriesBy, ← entries_contents, hcontents, entries_contents]

theorem entries_universalNewlines (t : Text) :
    ((splitAt '\n' (universalNewlines t)).map entryOfLine).filter (!·.isEmpty) = entriesBy isNewline t := by
  have hcut : ∀ u : Text, splitAt '\n' u = u.splitOnP (· == '\n') := fun u => List.splitOn_eq_splitOnP
  have hfeed : ('\n' == '\n') = true := rfl
  -- The first lines agree, and the other ones up to empty lines.
  have hmain : ∃ l ls ms, splitAt '\n' (universalNewlines t) = l :: ls ∧ t.splitOnP isNewline = l :: ms ∧
      (ls.map entryOfLine).filter (!·.isEmpty) = (ms.map entryOfLine).filter (!·.isEmpty) := by
    simp only [hcut]
    fun_induction universalNewlines t with
    | case1 => exact ⟨[], [], [], rfl, rfl, rfl⟩
    | case2 t ih =>
      obtain ⟨l, ls, ms, hl, hm, heq⟩ := ih
      have hr : isNewline '\r' = true := rfl
      have hn : isNewline '\n' = true := rfl
      refine ⟨[], l :: ls, [] :: l :: ms, ?_, ?_, ?_⟩
      · rw [List.splitOnP_cons_eq_if_modifyHead, if_pos hfeed, hl]
      · rw [List.splitOnP_cons_eq_if_modifyHead, if_pos hr, List.splitOnP_cons_eq_if_modifyHead, if_pos hn, hm]
      · change _ = (List.map entryOfLine (l :: ms)).filter (!·.isEmpty)
        rw [List.map_cons, List.map_cons, List.filter_cons, List.filter_cons, heq]
    | case3 t hne ih =>
      obtain ⟨l, ls, ms, hl, hm, heq⟩ := ih
      have hr : isNewline '\r' = true := rfl
      refine ⟨[], l :: ls, l :: ms, ?_, ?_, ?_⟩
      · rw [List.splitOnP_cons_eq_if_modifyHead, if_pos hfeed, hl]
      · rw [List.splitOnP_cons_eq_if_modifyHead, if_pos hr, hm]
      · rw [List.map_cons, List.map_cons, List.filter_cons, List.filter_cons, heq]
    | case4 c t hpair hcr ih =>
      obtain ⟨l, ls, ms, hl, hm, heq⟩ := ih
      have hne : c ≠ '\r' := fun h => hcr h
      by_cases hc : c = '\n'
      · subst hc
        have hn : isNewline '\n' = true := rfl
        refine ⟨[], l :: ls, l :: ms, ?_, ?_, ?_⟩
        · rw [List.splitOnP_cons_eq_if_modifyHead, if_pos hfeed, hl]
        · rw [List.splitOnP_cons_eq_if_modifyHead, if_pos hn, hm]
        · rw [List.map_cons, List.map_cons, List.filter_cons, List.filter_cons, heq]
      · have hnot : isNewline c = false := by simp [isNewline, hc, hne]
        refine ⟨c :: l, ls, ms, ?_, ?_, heq⟩
        · rw [List.splitOnP_cons_eq_if_modifyHead, if_neg (by simpa using hc), hl, List.modifyHead_cons]
        · rw [List.splitOnP_cons_eq_if_modifyHead, if_neg (by simp [hnot]), hm, List.modifyHead_cons]
  obtain ⟨l, ls, ms, hl, hm, heq⟩ := hmain
  rw [entriesBy, hl, hm, List.map_cons, List.map_cons, List.filter_cons, List.filter_cons, heq]

/-- **The entries that the helper finds.** -/
theorem scriptEntries_eq (content : Text) : scriptEntries content = entriesBy isNewline content := by
  have hend : entriesBy isNewline (content ++ ['\n']) = entriesBy isNewline content :=
    entriesBy_append_of_ends (fun c hc => by rw [List.mem_singleton.mp hc]; rfl) content
  rw [← hend, ← entries_universalNewlines]
  rfl

/-! ### A coarser and a finer cut -/

theorem splitOnP_eq_flatMap (hpq : ∀ c, p c = true → q c = true) (t : Text) :
    t.splitOnP q = (t.splitOnP p).flatMap fun part => part.splitOnP q := by
  induction t with
  | nil => rfl
  | cons c t ih =>
    rw [List.splitOnP_cons_eq_if_modifyHead, List.splitOnP_cons_eq_if_modifyHead]
    obtain ⟨l, ls, hl⟩ := List.exists_cons_of_ne_nil (List.splitOnP_ne_nil p t)
    rw [ih, hl]
    by_cases hp : p c = true
    · rw [if_pos hp, if_pos (hpq c hp)]
      rfl
    · rw [if_neg hp, List.modifyHead_cons, List.flatMap_cons, List.flatMap_cons,
        List.splitOnP_cons_eq_if_modifyHead]
      obtain ⟨m, ms, hm⟩ := List.exists_cons_of_ne_nil (List.splitOnP_ne_nil q l)
      rw [hm]
      split_ifs <;> rfl

theorem entriesBy_eq_flatMap (hpq : ∀ c, p c = true → q c = true) (t : Text) :
    entriesBy q t = (t.splitOnP p).flatMap (entriesBy q) := by
  rw [entriesBy, splitOnP_eq_flatMap hpq, List.map_flatMap, List.filter_flatMap]
  rfl

/-- Characters that end no line can be left out before the cut or after it. -/
theorem splitOnP_filter (hpq : ∀ c, p c = true → q c = true) (t : Text) :
    (t.filter q).splitOnP p = (t.splitOnP p).map (List.filter q) := by
  induction t with
  | nil => rfl
  | cons c t ih =>
    rw [List.splitOnP_cons_eq_if_modifyHead]
    obtain ⟨l, ls, hl⟩ := List.exists_cons_of_ne_nil (List.splitOnP_ne_nil p t)
    rw [hl] at ih ⊢
    by_cases hp : p c = true
    · rw [if_pos hp, List.filter_cons_of_pos (hpq c hp), List.splitOnP_cons_eq_if_modifyHead, if_pos hp, ih]
      rfl
    · rw [if_neg hp, List.modifyHead_cons, List.map_cons]
      by_cases hq : q c = true
      · rw [List.filter_cons_of_pos hq, List.splitOnP_cons_eq_if_modifyHead, if_neg hp, ih,
          List.filter_cons_of_pos hq, List.map_cons, List.modifyHead_cons]
      · rw [List.filter_cons_of_neg hq, ih, List.filter_cons_of_neg hq, List.map_cons]

end VpnBot.Warp
