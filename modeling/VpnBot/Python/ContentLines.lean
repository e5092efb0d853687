import VpnBot.Python.Lines
import Mathlib.Data.List.DropRight

/-!
# The lines with content

A parser that strips every line and skips the empty ones sees the list `contentLines` of a text.  This list
does not depend on the white space around the text (`contentLines_strip`), and it is the list of the parts
between the line breaks (`contentLines_append_cons`).
-/

namespace Py

variable {t u w l : Text} {c : Char}

/-! ### Stripping -/

theorem isSpace_of_isLineBreak (h : isLineBreak c = true) : isSpace c = true := by
  simp only [isLineBreak, isSpace, Bool.or_eq_true, Bool.and_eq_true, decide_eq_true_eq] at h ⊢
  omega

theorem strip_cons_of_isSpace (hc : isSpace c = true) (t : Text) : strip (c :: t) = strip t := by
  rw [strip, strip, List.dropWhile_cons_of_pos hc]

theorem strip_of_forall (hw : ∀ c ∈ w, isSpace c = true) : strip w = [] := by
  have hdrop : w.dropWhile isSpace = [] := List.dropWhile_eq_nil_iff.2 hw
  rw [strip, hdrop]
  rfl

theorem strip_append_of_forall (hw : ∀ c ∈ w, isSpace c = true) (t : Text) :
    strip (t ++ w) = strip t := by
  by_cases ht : ∀ c ∈ t, isSpace c = true
  · have htw : ∀ c ∈ t ++ w, isSpace c = true := fun c hc =>
      (List.mem_append.1 hc).elim (ht c) (hw c)
    rw [strip_of_forall ht, strip_of_forall htw]
  · have hfront : (t ++ w).dropWhile isSpace = t.dropWhile isSpace ++ w := by
      rw [List.dropWhile_append, if_neg]
      rw [List.isEmpty_iff, List.dropWhile_eq_nil_iff]
      exact ht
    have hback : w.reverse.dropWhile isSpace = [] :=
      List.dropWhile_eq_nil_iff.2 fun c hc => hw c (List.mem_reverse.1 hc)
    rw [strip, strip, hfront, List.reverse_append, List.dropWhile_append, hback]
    rfl

theorem exists_strip (t : Text) : ∃ v w : Text, (∀ c ∈ v, isSpace c = true) ∧
    (∀ c ∈ w, isSpace c = true) ∧ t = v ++ strip t ++ w := by
  refine ⟨t.takeWhile isSpace, (t.dropWhile isSpace).rtakeWhile isSpace,
    fun c => List.mem_takeWhile_imp, fun c => List.mem_rtakeWhile_imp, ?_⟩
  have hback : strip t ++ (t.dropWhile isSpace).rtakeWhile isSpace = t.dropWhile isSpace :=
    List.rdropWhile_append_rtakeWhile
  rw [List.append_assoc, hback, List.takeWhile_append_dropWhile]

theorem strip_append_left (hw : ∀ c ∈ w, isSpace c = true) (t : Text) : strip (w ++ t) = strip t := by
  induction w with
  | nil => rfl
  | cons c w ih =>
    rw [List.cons_append, strip_cons_of_isSpace (hw c List.mem_cons_self),
      ih fun d hd => hw d (List.mem_cons_of_mem _ hd)]

@[simp] theorem strip_strip (t : Text) : strip (strip t) = strip t := by
  obtain ⟨v, w, hv, hw, ht⟩ := exists_strip t
  have h : strip (v ++ strip t ++ w) = strip (strip t) := by
    rw [strip_append_of_forall hw, strip_append_left hv]
  rw [← h, ← ht]

theorem mem_of_mem_strip (hc : c ∈ strip t) : c ∈ t := by
  obtain ⟨v, w, -, -, ht⟩ := exists_strip t
  rw [ht]
  exact List.mem_append_left _ (List.mem_append_right _ hc)

theorem length_strip_le (t : Text) : (strip t).length ≤ t.length := by
  obtain ⟨v, w, -, -, ht⟩ := exists_strip t
  have hlen := congrArg List.length ht
  simp only [List.length_append] at hlen
  omega

theorem mem_strip_of_mem (hc : c ∈ t) (hspace : isSpace c = false) : c ∈ strip t := by
  obtain ⟨v, w, hv, hw, ht⟩ := exists_strip t
  rw [ht] at hc
  rcases List.mem_append.1 hc with hc | hc
  · rcases List.mem_append.1 hc with hc | hc
    · exact absurd (hv c hc) (by rw [hspace]; exact Bool.false_ne_true)
    · exact hc
  · exact absurd (hw c hc) (by rw [hspace]; exact Bool.false_ne_true)

theorem strip_cons_of_not_isSpace (hspace : isSpace c = false) (t : Text) :
    ∃ r, strip (c :: t) = c :: r := by
  obtain ⟨v, w, hv, hw, ht⟩ := exists_strip (c :: t)
  have hmem : c ∈ strip (c :: t) := mem_strip_of_mem List.mem_cons_self hspace
  cases v with
  | nil =>
    cases hstrip : strip (c :: t) with
    | nil =>
      rw [hstrip] at hmem
      cases hmem
    | cons d r =>
      rw [hstrip] at ht
      exact ⟨r, by rw [(List.cons.inj ht).1]⟩
  | cons d v =>
    have hd : isSpace d = true := hv d List.mem_cons_self
    rw [← (List.cons.inj ht).1, hspace] at hd
    cases hd

theorem strip_of_ends (hhead : ∀ c ∈ t.head?, isSpace c = false)
    (hlast : ∀ c ∈ t.getLast?, isSpace c = false) : strip t = t := by
  have hfront : t.dropWhile isSpace = t := by
    cases t with
    | nil => rfl
    | cons c t => rw [List.dropWhile_cons_of_neg (by simp [hhead c rfl])]
  have hback : t.rdropWhile isSpace = t := by
    rw [List.rdropWhile_eq_self_iff]
    intro hne
    rw [hlast _ (List.getLast?_eq_some_getLast hne)]
    exact Bool.false_ne_true
  show (t.dropWhile isSpace).rdropWhile isSpace = t
  rw [hfront, hback]

/-! ### Lines -/

/-- The lines without the white space around them, the empty ones left out. -/
def contentLines (t : Text) : List Text := ((splitlines t).map strip).filter (!·.isEmpty)

/-- What is left of a list of parts. -/
def contents (ls : List Text) : List Text := (ls.map strip).filter (!·.isEmpty)

theorem contents_append (ls ms : List Text) : contents (ls ++ ms) = contents ls ++ contents ms := by
  rw [contents, List.map_append, List.filter_append]
  rfl

theorem contents_nil_cons (ls : List Text) : contents ([] :: ls) = contents ls := rfl

theorem contents_cons_congr (h : strip l = strip u) (ls : List Text) :
    contents (l :: ls) = contents (u :: ls) := by
  rw [contents, contents, List.map_cons, List.map_cons, h]

/-- `splitlines` and the parts between the line breaks differ in empty parts only. -/
theorem splitlines_eq_or (t : Text) : (t = [] ∧ splitlines t = []) ∨
    ∃ l ls ms, splitlines t = l :: ls ∧ t.splitOnP isLineBreak = l :: ms ∧ contents ls = contents ms := by
  induction t with
  | nil => exact .inl ⟨rfl, rfl⟩
  | cons c t ih =>
    right
    rw [splitlines, List.splitOnP_cons_eq_if_modifyHead]
    split_ifs with hcr hbreak hbreak
    · -- The carriage return in front of a line feed: one break for two.
      obtain ⟨rfl, hhead⟩ := hcr
      obtain ⟨t, rfl⟩ : ∃ s, t = '\n' :: s := by
        cases t with
        | nil => cases hhead
        | cons d s => exact ⟨s, by rw [Option.some.inj hhead]⟩
      obtain ⟨h, -⟩ | ⟨l, ls, ms, hl, hm, hls⟩ := ih
      · cases h
      · have hfeed : ('\n' :: t).splitOnP isLineBreak = [] :: t.splitOnP isLineBreak := by
          rw [List.splitOnP_cons_eq_if_modifyHead, if_pos (by decide)]
        rw [hfeed] at hm
        obtain ⟨rfl, rfl⟩ := List.cons.inj hm
        exact ⟨[], ls, _, hl, rfl, by rw [hls, hfeed, contents_nil_cons]⟩
    · obtain ⟨rfl, -⟩ := hcr
      exact absurd (by decide) hbreak
    · refine ⟨[], _, _, rfl, rfl, ?_⟩
      obtain ⟨rfl, hl⟩ | ⟨l, ls, ms, hl, hm, hls⟩ := ih
      · rw [hl]
        rfl
      · rw [hl, hm, ← List.singleton_append, ← List.singleton_append (l := ms), contents_append,
          contents_append, hls]
    · obtain ⟨rfl, hl⟩ | ⟨l, ls, ms, hl, hm, hls⟩ := ih
      · exact ⟨[c], [], [], by rw [hl], rfl, rfl⟩
      · exact ⟨c :: l, ls, ms, by rw [hl], by rw [hm]; rfl, hls⟩

/-- **The lines with content are the parts with content between the line breaks.** -/
theorem contentLines_eq (t : Text) : contentLines t = contents (t.splitOnP isLineBreak) := by
  show contents (splitlines t) = _
  obtain ⟨rfl, hl⟩ | ⟨l, ls, ms, hl, hm, hls⟩ := splitlines_eq_or t
  · rw [hl]
    rfl
  · rw [hl, hm, ← List.singleton_append, contents_append, hls, ← contents_append]
    rfl

@[simp] theorem contentLines_nil : contentLines [] = [] := rfl

theorem contentLines_append_cons (hc : isLineBreak c = true) (t u : Text) :
    contentLines (t ++ c :: u) = contentLines t ++ contentLines u := by
  rw [contentLines_eq, contentLines_eq, contentLines_eq, List.splitOnP_append_cons _ _ hc,
    contents_append]

theorem contentLines_line (hl : ∀ c ∈ l, isLineBreak c = false) :
    contentLines l = if strip l = [] then [] else [strip l] := by
  rw [contentLines_eq, List.splitOnP_eq_singleton hl]
  simp only [contents, List.map_cons, List.map_nil, List.filter_cons, List.filter_nil]
  cases strip l <;> rfl

theorem contentLines_cons_of_isSpace (hc : isSpace c = true) (t : Text) :
    contentLines (c :: t) = contentLines t := by
  rw [contentLines_eq, contentLines_eq, List.splitOnP_cons_eq_if_modifyHead]
  split_ifs with hbreak
  · exact contents_nil_cons _
  · cases h : t.splitOnP isLineBreak with
    | nil => exact absurd h (List.splitOnP_ne_nil _ _)
    | cons l ls => exact contents_cons_congr (strip_cons_of_isSpace hc l) ls

theorem contentLines_append_left (hw : ∀ c ∈ w, isSpace c = true) (t : Text) :
    contentLines (w ++ t) = contentLines t := by
  induction w with
  | nil => rfl
  | cons c w ih =>
    rw [List.cons_append, contentLines_cons_of_isSpace (hw c List.mem_cons_self),
      ih fun d hd => hw d (List.mem_cons_of_mem _ hd)]

theorem exists_last_line (t : Text) : (∀ c ∈ t, isLineBreak c = false) ∨
    ∃ u c l, t = u ++ c :: l ∧ isLineBreak c = true ∧ ∀ d ∈ l, isLineBreak d = false := by
  have hsplit : t.rdropWhile (!isLineBreak ·) ++ t.rtakeWhile (!isLineBreak ·) = t :=
    List.rdropWhile_append_rtakeWhile
  have hlast : ∀ d ∈ t.rtakeWhile (!isLineBreak ·), isLineBreak d = false := fun d hd => by
    simpa using List.mem_rtakeWhile_imp hd
  by_cases hne : t.rdropWhile (!isLineBreak ·) = []
  · rw [hne, List.nil_append] at hsplit
    rw [hsplit] at hlast
    exact .inl hlast
  · have hbreak := List.rdropWhile_last_not _ _ hne
    refine .inr ⟨(t.rdropWhile (!isLineBreak ·)).dropLast, _, _, ?_, by simpa using hbreak, hlast⟩
    rw [← List.singleton_append, ← List.append_assoc, List.dropLast_append_getLast, hsplit]

theorem contentLines_concat_of_isSpace (hc : isSpace c = true) (t : Text) :
    contentLines (t ++ [c]) = contentLines t := by
  by_cases hbreak : isLineBreak c = true
  · rw [contentLines_append_cons hbreak, contentLines_nil, List.append_nil]
  · have hline : ∀ l : Text, (∀ d ∈ l, isLineBreak d = false) →
        contentLines (l ++ [c]) = contentLines l := by
      intro l hl
      have hlc : ∀ d ∈ l ++ [c], isLineBreak d = false := by
        intro d hd
        rcases List.mem_append.1 hd with hd | hd
        · exact hl d hd
        · rw [List.mem_singleton.1 hd]
          simpa using hbreak
      have hstrip : strip (l ++ [c]) = strip l :=
        strip_append_of_forall (fun d hd => by rwa [List.mem_singleton.1 hd]) l
      rw [contentLines_line hlc, contentLines_line hl, hstrip]
    obtain hall | ⟨u, d, l, rfl, hd, hl⟩ := exists_last_line t
    · exact hline t hall
    · rw [List.append_assoc, List.cons_append, contentLines_append_cons hd,
        contentLines_append_cons hd, hline l hl]

theorem contentLines_append_of_forall (hw : ∀ c ∈ w, isSpace c = true) (t : Text) :
    contentLines (t ++ w) = contentLines t := by
  induction w generalizing t with
  | nil => rw [List.append_nil]
  | cons c w ih =>
    rw [← List.singleton_append, ← List.append_assoc, ih fun d hd => hw d (List.mem_cons_of_mem _ hd),
      contentLines_concat_of_isSpace (hw c List.mem_cons_self)]

/-- **The lines with content do not depend on the white space around the text.** -/
@[simp] theorem contentLines_strip (t : Text) : contentLines (strip t) = contentLines t := by
  obtain ⟨v, w, hv, hw, ht⟩ := exists_strip t
  have h : contentLines (v ++ strip t ++ w) = contentLines (strip t) := by
    rw [contentLines_append_of_forall hw, contentLines_append_left hv]
  rw [← h, ← ht]

theorem mem_of_mem_splitlines (hl : l ∈ splitlines t) (hc : c ∈ l) : c ∈ t := by
  induction t generalizing l with
  | nil => cases hl
  | cons d t ih =>
    rw [splitlines] at hl
    split_ifs at hl with h1 h2
    · exact List.mem_cons_of_mem _ (ih hl hc)
    · rcases List.mem_cons.1 hl with rfl | hl
      · cases hc
      · exact List.mem_cons_of_mem _ (ih hl hc)
    · cases hs : splitlines t with
      | nil =>
        rw [hs] at hl
        rw [List.mem_singleton.1 hl] at hc
        exact List.mem_cons.2 (.inl (List.mem_singleton.1 hc))
      | cons m ms =>
        rw [hs] at hl ih
        rcases List.mem_cons.1 hl with rfl | hl
        · rcases List.mem_cons.1 hc with rfl | hc
          · exact List.mem_cons_self
          · exact List.mem_cons_of_mem _ (ih List.mem_cons_self hc)
        · exact List.mem_cons_of_mem _ (ih (List.mem_cons_of_mem _ hl) hc)

theorem mem_of_mem_contentLines (hl : l ∈ contentLines t) (hc : c ∈ l) : c ∈ t := by
  obtain ⟨m, hm, rfl⟩ := List.mem_map.1 (List.mem_of_mem_filter hl)
  exact mem_of_mem_splitlines hm (mem_of_mem_strip hc)

end Py
