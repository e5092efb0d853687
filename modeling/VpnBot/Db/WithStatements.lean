import VpnBot.Db.IsWrite

/-!
# Statements that begin with `WITH`

What `_is_write_statement` makes of a statement with common table expressions, against the keyword of its main
statement.  The scanner decides behind the first parenthesis that closes at depth zero with no comma behind it; in a
statement that can be read that is the end of the last body unless there is a column list, or a comment between a
body and what is behind it (`decision_eq`).

`isWriteStatement_eq_writes_iff` says for every text that begins with `WITH` when the two agree.
-/

namespace VpnBot.Db

open Py
open Sql (Lexeme Place lexemes lexemes_nil lexemes_cons lexeme_induction capitals writeWords mainWords mainKeyword
  behindWith writes)

variable {depth : ℤ} {c : Char} {t u f w : Text} {place : Place} {lexeme : Lexeme}

/-! ### The scanner over lexemes -/

/-- What is behind the first parenthesis that closes at depth zero with no comma behind it. -/
def groupEnd : ℤ → List (Lexeme × Text) → Option Text
  | _, [] => none
  | depth, (.opening, _) :: rest => groupEnd (depth + 1) rest
  | depth, (.closing, follow) :: rest =>
    if depth - 1 = 0 then
      if startsWith ",".toList (lstrip follow) then groupEnd 0 rest else some (lstrip follow)
    else groupEnd (depth - 1) rest
  | depth, _ :: rest => groupEnd depth rest

theorem groupEnd_cons (h : lexeme.depth = 0) (depth : ℤ) (follow : Text) (rest : List (Lexeme × Text)) :
    groupEnd depth ((lexeme, follow) :: rest) = groupEnd depth rest := by
  cases lexeme with
  | opening => cases h
  | closing => cases h
  | _ => rfl

/-- A character that the scanner passes by. -/
def isPlain (c : Char) : Bool :=
  !(c = '\'' || c = '"' || c = '`' || c = '[' || c = '-' || c = '/' || c = '(' || c = ')')

theorem cteScan_cons_of_isPlain (h : isPlain c = true) (depth : ℤ) (t : Text) :
    cteScan depth (c :: t) = cteScan depth t := by
  simp only [isPlain, Bool.not_eq_true', Bool.or_eq_false_iff, decide_eq_false_iff_not] at h
  obtain ⟨⟨⟨⟨⟨⟨⟨h1, h2⟩, h3⟩, h4⟩, h5⟩, h6⟩, h7⟩, h8⟩ := h
  rw [cteScan]
  simp [h1, h2, h3, h4, h5, h6, h7, h8]

theorem cteScan_append_of_isPlain (h : ∀ c ∈ u, isPlain c = true) (depth : ℤ) (t : Text) :
    cteScan depth (u ++ t) = cteScan depth t := by
  induction u with
  | nil => rfl
  | cons c u ih =>
    obtain ⟨hc, hu⟩ := List.forall_mem_cons.1 h
    rw [List.cons_append, cteScan_cons_of_isPlain hc, ih hu]

/-- Characters of a class without the scanner's own characters. -/
theorem isPlain_of {p : Char → Bool} (h : ['\'', '"', '`', '[', '-', '/', '(', ')'].all (fun c => !p c) = true)
    (hc : p c = true) : isPlain c = true := by
  have hne : ∀ d ∈ ['\'', '"', '`', '[', '-', '/', '(', ')'], c ≠ d := by
    rintro d hd rfl
    have := List.all_eq_true.1 h c hd
    rw [hc] at this
    cases this
  simp only [List.mem_cons, List.not_mem_nil, or_false, forall_eq_or_imp, forall_eq] at hne
  simp [isPlain, hne]

theorem cteScan_dropWhile {p : Char → Bool}
    (h : ['\'', '"', '`', '[', '-', '/', '(', ')'].all (fun c => !p c) = true) (depth : ℤ) (t : Text) :
    cteScan depth (t.dropWhile p) = cteScan depth t := by
  conv_rhs => rw [← List.takeWhile_append_dropWhile (p := p) (l := t)]
  exact (cteScan_append_of_isPlain (fun c hc => isPlain_of h (List.mem_takeWhile_imp hc)) depth _).symm

theorem skipQuoted_eq (q : Char) (t : Text) : skipQuoted q t = (Sql.afterQuote q t).getD [] := by
  induction t using skipQuoted.induct q with
  | case1 => rfl
  | case2 d =>
    rw [skipQuoted, Sql.afterQuote]
    split_ifs <;> rfl
  | case3 t ih => rw [skipQuoted, Sql.afterQuote, if_pos rfl, if_pos rfl, if_pos rfl, if_pos rfl, ih]
  | case4 d t hd =>
    rw [skipQuoted, Sql.afterQuote, if_pos rfl, if_neg hd, if_pos rfl, if_neg hd]
    rfl
  | case5 d e t hd ih => rw [skipQuoted, Sql.afterQuote, if_neg hd, if_neg hd, ih]

theorem skipComment_eq (t : Text) : skipComment t = Sql.afterComment t := by
  induction t using skipComment.induct with
  | case1 => rfl
  | case2 => rfl
  | case3 c d t h => rw [skipComment, Sql.afterComment, if_pos h, if_pos h]
  | case4 c d t h ih => rw [skipComment, Sql.afterComment, if_neg h, if_neg h, ih]

theorem tail_dropWhile_eq (t : Text) : (t.dropWhile (· ≠ ']')).tail = (Sql.afterBracket t).getD [] := by
  induction t with
  | nil => rfl
  | cons c t ih =>
    rw [Sql.afterBracket]
    by_cases hc : c = ']'
    · simp [hc]
    · rw [List.dropWhile_cons_of_pos (by simpa using hc), if_neg hc, ih]

theorem closed_snd (rest : Option Text) : (Sql.closed rest).2 = rest.getD [] := by
  cases rest <;> rfl

theorem depth_closed (rest : Option Text) : (Sql.closed rest).1.depth = 0 := by
  cases rest <;> rfl

/-- The scanner passes by a lexeme that is not a parenthesis. -/
theorem cteScan_next (h : (Sql.next c t).1.depth = 0) (depth : ℤ) :
    cteScan depth (c :: t) = cteScan depth (Sql.next c t).2 := by
  by_cases hspace : Sql.isSpace c = true
  · rw [Sql.next_space hspace, cteScan_cons_of_isPlain (isPlain_of (by decide) hspace),
      cteScan_dropWhile (by decide)]
  by_cases hline : c = '-' ∧ t.head? = some '-'
  · rw [Sql.next, if_neg hspace, if_pos hline, cteScan]
    simp [hline]
  by_cases hblock : c = '/' ∧ t.head? = some '*'
  · rw [Sql.next, if_neg hspace, if_neg hline, if_pos hblock, cteScan, skipComment_eq]
    simp [hblock]
  by_cases hquote : Sql.isQuote c = true
  · have hquote' : c = '\'' ∨ c = '"' ∨ c = '`' := by simpa [Sql.isQuote, or_assoc] using hquote
    rw [Sql.next, if_neg hspace, if_neg hline, if_neg hblock, if_pos hquote, cteScan, if_pos hquote', closed_snd,
      skipQuoted_eq]
  have hquote' : ¬ (c = '\'' ∨ c = '"' ∨ c = '`') := by simpa [Sql.isQuote, or_assoc] using hquote
  by_cases hbracket : c = '['
  · rw [Sql.next, if_neg hspace, if_neg hline, if_neg hblock, if_neg hquote, if_pos hbracket, cteScan, if_neg hquote',
      if_pos hbracket, closed_snd, tail_dropWhile_eq]
  rw [Sql.next, if_neg hspace, if_neg hline, if_neg hblock, if_neg hquote, if_neg hbracket] at h ⊢
  by_cases hopening : c = '('
  · rw [if_pos hopening] at h
    cases h
  by_cases hclosing : c = ')'
  · rw [if_neg hopening, if_pos hclosing] at h
    cases h
  have hpass : cteScan depth (c :: t) = cteScan depth t := by
    rw [cteScan, if_neg hquote', if_neg hbracket, if_neg hline, if_neg hblock, if_neg hopening, if_neg hclosing]
  rw [if_neg hopening, if_neg hclosing, hpass]
  split_ifs
  · rfl
  · exact (cteScan_dropWhile (by decide) depth t).symm
  · rfl

/-- A parenthesis is a lexeme. -/
theorem next_of_depth_ne (h : (Sql.next c t).1.depth ≠ 0) :
    c = '(' ∧ Sql.next c t = (.opening, t) ∨ c = ')' ∧ Sql.next c t = (.closing, t) := by
  by_cases hopening : c = '('
  · subst hopening
    exact Or.inl ⟨rfl, rfl⟩
  by_cases hclosing : c = ')'
  · subst hclosing
    exact Or.inr ⟨rfl, rfl⟩
  refine absurd ?_ h
  unfold Sql.next
  split_ifs <;> first | rfl | exact depth_closed _

/-- **The scanner counts the parentheses among the lexemes.** -/
theorem cteScan_eq (depth : ℤ) (text : Text) :
    cteScan depth text = (groupEnd depth (lexemes text)).all decidesWrite := by
  induction text using lexeme_induction generalizing depth with
  | nil =>
    rw [lexemes_nil, cteScan]
    rfl
  | cons c t ih =>
    by_cases hdepth : (Sql.next c t).1.depth = 0
    · rw [cteScan_next hdepth, lexemes_cons, ih, ← groupEnd_cons hdepth depth (Sql.next c t).2]
    · obtain ⟨rfl, hnext⟩ | ⟨rfl, hnext⟩ := next_of_depth_ne hdepth
      · rw [hnext] at ih
        rw [lexemes_cons, hnext, groupEnd, ← ih, cteScan]
        simp
      · rw [hnext] at ih
        rw [lexemes_cons, hnext, groupEnd, cteScan]
        simp only [show ¬ (')' = '\'' ∨ ')' = '"' ∨ ')' = '`') by decide, if_false, show ')' ≠ '[' by decide,
          show ')' ≠ '-' by decide, show ')' ≠ '/' by decide, show ')' ≠ '(' by decide, false_and, if_true, ih]
        split_ifs <;> rfl

/-! ### Words -/

theorem forall_ascii : ∀ n < 128, (upperChar (Char.ofNat n)).all (· = ';') = decide (Char.ofNat n = ';') ∧
    ((Char.ofNat n).toUpper.isUpper = true → Py.isSpace (Char.ofNat n) = false ∧
      upperChar (Char.ofNat n) = [(Char.ofNat n).toUpper]) := by
  decide

theorem toUpper_of_ge (h : 128 ≤ c.toNat) : c.toUpper = c := by
  unfold Char.toUpper
  split_ifs with hc
  · have hle : c.toNat ≤ 122 := UInt32.le_iff_toNat_le.1 hc.2
    omega
  · rfl

theorem letter_spec (h : c.toUpper.isUpper = true) : Py.isSpace c = false ∧ upperChar c = [c.toUpper] := by
  by_cases hlt : c.toNat < 128
  · have := (forall_ascii c.toNat hlt).2
    rw [Char.ofNat_toNat] at this
    exact this h
  · rw [toUpper_of_ge (by omega)] at h
    have hupper : c.val ≥ 'A'.val ∧ c.val ≤ 'Z'.val := of_decide_eq_true h
    have hle : c.toNat ≤ 90 := UInt32.le_iff_toNat_le.1 hupper.2
    omega

/-- The capitals of a character are semicolons when it is one. -/
theorem all_upperChar (c : Char) : (upperChar c).all (· = ';') = decide (c = ';') := by
  by_cases hlt : c.toNat < 128
  · have := (forall_ascii c.toNat hlt).1
    rwa [Char.ofNat_toNat] at this
  · have hne : c ≠ ';' := by
      rintro rfl
      exact hlt (by decide)
    rw [decide_eq_false hne, upperChar, toUpper_of_ge (by omega)]
    cases hc : capitalLetters.lookup c with
    | some capital =>
      obtain ⟨before, behind, hlist, -⟩ := List.lookup_eq_some_iff.1 hc
      have hall : capitalLetters.all (fun p => !p.2.all (· = ';')) = true := by decide
      have := List.all_eq_true.1 hall (c, capital) (by rw [hlist]; simp)
      rw [Option.getD_some]
      rwa [Bool.not_eq_true'] at this
    | none => simp [hne]

theorem letters_of (h : (capitals w).all Char.isUpper = true) : ∀ c ∈ w, c.toUpper.isUpper = true := fun _ hc =>
  List.all_eq_true.1 h _ (List.mem_map_of_mem hc)

theorem upper_eq_capitals (h : (capitals w).all Char.isUpper = true) : upper w = capitals w := by
  have hletters := letters_of h
  clear h
  induction w with
  | nil => rfl
  | cons c w ih =>
    obtain ⟨hc, hw⟩ := List.forall_mem_cons.1 hletters
    have htail : upper (c :: w) = upperChar c ++ upper w := rfl
    rw [htail, (letter_spec hc).2, ih hw]
    rfl

theorem headWord_append (h : (capitals w).all Char.isUpper = true) (f : Text) :
    headWord (w ++ f) = w ++ headWord f := by
  have hletters := letters_of h
  exact List.takeWhile_append_of_pos fun c hc => by rw [(letter_spec (hletters c hc)).1]; rfl

theorem lstrip_cons_of_not (h : Py.isSpace c = false) (t : Text) : lstrip (c :: t) = c :: t :=
  List.dropWhile_cons_of_neg (by rw [h]; decide)

theorem lstrip_append (h : (capitals w).all Char.isUpper = true) (hw : w ≠ []) (f : Text) :
    lstrip (w ++ f) = w ++ f := by
  cases w with
  | nil => exact absurd rfl hw
  | cons c w => exact lstrip_cons_of_not (letter_spec (letters_of h c List.mem_cons_self)).1 _

theorem upper_append (t u : Text) : upper (t ++ u) = upper t ++ upper u := List.flatMap_append

theorem rstripSemicolons_append (t u : Text) : rstripSemicolons (t ++ u) =
    if rstripSemicolons u = [] then rstripSemicolons t else t ++ rstripSemicolons u := by
  unfold rstripSemicolons List.rdropWhile
  rw [List.reverse_append, List.dropWhile_append]
  by_cases h : (u.reverse.dropWhile (· = ';')) = []
  · simp [h]
  · simp [h]

theorem rstripSemicolons_eq_nil_iff (t : Text) : rstripSemicolons t = [] ↔ t.all (· = ';') = true := by
  rw [rstripSemicolons, List.rdropWhile_eq_nil_iff, List.all_eq_true]

theorem rstripSemicolons_of_letters (h : (capitals w).all Char.isUpper = true) :
    rstripSemicolons (capitals w) = capitals w := by
  rw [rstripSemicolons, List.rdropWhile_eq_self_iff]
  intro hne hlast
  have := List.all_eq_true.1 h _ (List.getLast_mem hne)
  rw [of_decide_eq_true hlast] at this
  cases this

theorem all_upper (t : Text) : (upper t).all (· = ';') = t.all (· = ';') := by
  induction t with
  | nil => rfl
  | cons c t ih =>
    have htail : upper (c :: t) = upperChar c ++ upper t := rfl
    rw [htail, List.all_append, all_upperChar, ih, List.all_cons]

/-! ### Decisions -/

/-- A keyword is not the beginning of another one. -/
theorem eq_nil_of_append_mem {k : Text} (hk : k ∈ mainWords) (h : k ++ u ∈ writeWords) : u = [] := by
  simp only [mainWords, writeWords, List.cons_append, List.nil_append, List.mem_cons, List.not_mem_nil, or_false]
    at hk h
  rcases hk with rfl | rfl | rfl | rfl | rfl | rfl <;> rcases h with h | h | h | h <;> simp_all

/-- **The decision at a keyword** is that it writes and that nothing but semicolons stands at once behind it. -/
theorem decidesWrite_append (hw : capitals w ∈ mainWords) (f : Text) :
    decidesWrite (w ++ f) = ((headWord f).all (· = ';') && decide (capitals w ∈ writeWords)) := by
  have hletters : (capitals w).all Char.isUpper = true := by
    have hall : mainWords.all (fun k => k.all Char.isUpper) = true := by decide
    exact List.all_eq_true.1 hall _ hw
  rw [decidesWrite, headWord_append hletters, upper_append, upper_eq_capitals hletters, rstripSemicolons_append]
  by_cases hspaced : (headWord f).all (· = ';') = true
  · rw [if_pos ((rstripSemicolons_eq_nil_iff _).2 ((all_upper _).trans hspaced)),
      rstripSemicolons_of_letters hletters, hspaced, Bool.true_and, List.contains_eq_mem]
  · have hne : rstripSemicolons (upper (headWord f)) ≠ [] := fun hnil =>
      hspaced ((all_upper _).symm.trans ((rstripSemicolons_eq_nil_iff _).1 hnil))
    rw [if_neg hne, Bool.eq_false_of_not_eq_true hspaced, Bool.false_and, List.contains_eq_mem,
      decide_eq_false fun hmem => hne (eq_nil_of_append_mem hw hmem)]

theorem decidesWrite_cons {k : Char} (hspace : Py.isSpace c = false) (hupper : upperChar c = [k]) (hk : k ≠ ';')
    (hwrite : writeWords.all (fun word => word.head? ≠ some k) = true) (t : Text) : decidesWrite (c :: t) = false := by
  have hhead : headWord (c :: t) = c :: headWord t := List.takeWhile_cons_of_pos (by rw [hspace]; rfl)
  have hcons : upper (c :: headWord t) = [k] ++ upper (headWord t) := by
    rw [← hupper]
    rfl
  have hself : rstripSemicolons [k] = [k] := by
    rw [rstripSemicolons, List.rdropWhile_eq_self_iff]
    intro hne hlast
    exact hk (of_decide_eq_true hlast)
  have hbegins : ∃ u, rstripSemicolons (upper (c :: headWord t)) = k :: u := by
    rw [hcons, rstripSemicolons_append]
    split_ifs
    · exact ⟨[], hself⟩
    · exact ⟨_, rfl⟩
  obtain ⟨u, hu⟩ := hbegins
  rw [decidesWrite, hhead, hu, List.contains_eq_mem]
  refine decide_eq_false fun hmem => ?_
  have := List.all_eq_true.1 hwrite _ hmem
  simp at this

/-! ### The head of the text -/

theorem space_of_space (h : Sql.isSpace c = true) : Py.isSpace c = true := by
  simp only [Sql.isSpace, Bool.or_eq_true, decide_eq_true_iff] at h
  rcases h with (((rfl | rfl) | rfl) | rfl) | rfl <;> rfl

theorem lstrip_dropWhile (t : Text) : lstrip (t.dropWhile Sql.isSpace) = lstrip t := by
  induction t with
  | nil => rfl
  | cons c t ih =>
    by_cases hc : Sql.isSpace c = true
    · rw [List.dropWhile_cons_of_pos hc, ih, lstrip, lstrip, List.dropWhile_cons_of_pos (space_of_space hc)]
    · rw [List.dropWhile_cons_of_neg hc]

theorem dropWhile_of_afterNewline (t : Text) :
    t.dropWhile (· ≠ '\n') = ((afterNewline t).map ('\n' :: ·)).getD [] := by
  induction t with
  | nil => rfl
  | cons c t ih =>
    rw [afterNewline]
    by_cases hc : c = '\n'
    · simp [hc]
    · rw [List.dropWhile_cons_of_pos (by simpa using hc), if_neg hc, ih]

theorem afterComment_of_afterStarSlash (t : Text) : Sql.afterComment t = (afterStarSlash t).getD [] := by
  induction t using afterStarSlash.induct with
  | case1 => rfl
  | case2 => rfl
  | case3 c d t h =>
    rw [Sql.afterComment, afterStarSlash, if_pos h, if_pos h]
    rfl
  | case4 c d t h ih => rw [Sql.afterComment, afterStarSlash, if_neg h, if_neg h, ih]

theorem stripNoise_line (t : Text) :
    stripNoise ('-' :: '-' :: t) = ((afterNewline t).map stripLeadingSqlNoise).getD [] := by
  have hafter : afterNewline ('-' :: '-' :: t) = afterNewline t := rfl
  rw [stripNoise, if_pos (by rfl)]
  split
  · next hnone => rw [← hafter, hnone]; rfl
  · next r hsome => rw [← hafter, hsome]; rfl

/-- The loop at a comment that is closed. -/
theorem stripNoise_block {r : Text} (h : afterStarSlash t = some r) :
    stripNoise ('/' :: '*' :: t) = stripLeadingSqlNoise r := by
  have hline : startsWith "--".toList ('/' :: '*' :: t) = false := rfl
  rw [stripNoise, if_neg (by rw [hline]; exact Bool.false_ne_true), if_pos (by rfl)]
  split
  · next hnone =>
    rw [List.drop_succ_cons, List.drop_succ_cons, List.drop_zero, h] at hnone
    cases hnone
  · next r' hsome =>
    rw [List.drop_succ_cons, List.drop_succ_cons, List.drop_zero, h] at hsome
    rw [Option.some.inj hsome]
    rfl

theorem stripNoise_of_letter (h : c.toUpper.isUpper = true) (t : Text) : stripNoise (c :: t) = c :: t := by
  have hne : c ≠ '-' ∧ c ≠ '/' := by
    constructor <;> rintro rfl <;> revert h <;> decide
  rw [stripNoise, if_neg, if_neg]
  · simp [startsWith, List.isPrefixOf, hne.2.symm]
  · simp [startsWith, List.isPrefixOf, hne.1.symm]

/-- **A leading keyword** is found by the function as it is by the lexemes. -/
theorem stripLeadingSqlNoise_eq {rest : List (Lexeme × Text)} (hw : (capitals w).all Char.isUpper = true)
    (text : Text) (h : (lexemes text).dropWhile (fun p => p.1.isNoise) = (.word w, f) :: rest) :
    stripLeadingSqlNoise text = w ++ f := by
  induction text using lexeme_induction with
  | nil =>
    rw [lexemes_nil] at h
    cases h
  | cons c t ih =>
    rw [lexemes_cons] at h
    obtain ⟨hspace, hnext⟩ | ⟨rfl, hhead, hnext⟩ | ⟨rfl, hhead, hnext⟩ | hquoted | ⟨-, hnext⟩ | ⟨-, hnext⟩ |
      ⟨-, hnext⟩ | hnext | hnext := Sql.next_cases c t
    · rw [hnext] at ih h
      rw [stripLeadingSqlNoise, ← lstrip_dropWhile, List.dropWhile_cons_of_pos hspace]
      exact ih h
    · rw [hnext, List.dropWhile_cons_of_pos (by rfl)] at h
      rw [hnext] at ih
      obtain ⟨t, rfl⟩ : ∃ t', t = '-' :: t' := ⟨t.tail, (List.cons_head?_tail hhead).symm⟩
      have hrest := ih h
      rw [List.dropWhile_cons_of_pos (by rfl), dropWhile_of_afterNewline] at h hrest
      rw [stripLeadingSqlNoise, lstrip_cons_of_not (by rfl), stripNoise_line, ← hrest]
      cases hafter : afterNewline t with
      | none =>
        rw [hafter, Option.map_none, Option.getD_none, lexemes_nil] at h
        cases h
      | some r =>
        have hnewline : lstrip ('\n' :: r) = lstrip r := List.dropWhile_cons_of_pos (by rfl)
        rw [Option.map_some, Option.getD_some, Option.map_some, Option.getD_some, stripLeadingSqlNoise,
          stripLeadingSqlNoise, hnewline]
    · rw [hnext, List.dropWhile_cons_of_pos (by rfl)] at h
      rw [hnext] at ih
      obtain ⟨t, rfl⟩ : ∃ t', t = '*' :: t' := ⟨t.tail, (List.cons_head?_tail hhead).symm⟩
      have hrest := ih h
      rw [List.tail_cons, afterComment_of_afterStarSlash] at h hrest
      rw [stripLeadingSqlNoise, lstrip_cons_of_not (by rfl), ← hrest]
      cases hafter : afterStarSlash t with
      | none =>
        rw [hafter, Option.getD_none, lexemes_nil] at h
        cases h
      | some r => rw [stripNoise_block hafter, Option.getD_some]
    · rcases hquoted with hfst | hfst <;> rw [List.dropWhile_cons_of_neg (by rw [hfst]; decide)] at h <;>
        rw [(List.cons.inj h).1] at hfst <;> cases hfst
    · rw [hnext, List.dropWhile_cons_of_neg Bool.false_ne_true] at h
      cases h
    · rw [hnext, List.dropWhile_cons_of_neg Bool.false_ne_true] at h
      cases h
    · rw [hnext, List.dropWhile_cons_of_neg Bool.false_ne_true] at h
      cases h
    · rw [hnext, List.dropWhile_cons_of_neg Bool.false_ne_true] at h
      have hhead := (List.cons.inj h).1
      obtain rfl : c :: t.takeWhile Sql.isWordChar = w := Lexeme.word.inj (Prod.mk.inj hhead).1
      rw [← (Prod.mk.inj hhead).2, Sql.word_append]
      have hletter := letters_of hw c List.mem_cons_self
      rw [stripLeadingSqlNoise, lstrip_cons_of_not (letter_spec hletter).1, stripNoise_of_letter hletter]
    · rw [hnext, List.dropWhile_cons_of_neg Bool.false_ne_true] at h
      cases h

theorem all_mainWords (h : capitals w ∈ mainWords) : (capitals w).all Char.isUpper = true := by
  have hall : mainWords.all (fun k => k.all Char.isUpper) = true := by decide
  exact List.all_eq_true.1 hall _ h

theorem upper_eq_nil (h : upper t = []) : t = [] := by
  cases t with
  | nil => rfl
  | cons c t =>
    have hcapital : upperChar c = [] := (List.append_eq_nil_iff.1 (h : upperChar c ++ upper t = [])).1
    have hall := all_upperChar c
    rw [hcapital] at hall
    obtain rfl : c = ';' := of_decide_eq_true hall.symm
    cases hcapital

theorem rstripSemicolons_word (h : (capitals w).all Char.isUpper = true) : rstripSemicolons w = w := by
  rw [rstripSemicolons, List.rdropWhile_eq_self_iff]
  intro hne hlast
  have hletter := letters_of h _ (List.getLast_mem hne)
  rw [of_decide_eq_true hlast] at hletter
  revert hletter
  decide

theorem isPlain_of_letter (h : c.toUpper.isUpper = true) : isPlain c = true :=
  isPlain_of (p := fun c => c.toUpper.isUpper) (by decide) h

/-- **What the function makes of a text that begins with `WITH`.** -/
theorem isWriteStatement_eq {text : Text} (h : behindWith text = some f) : isWriteStatement text =
    (!(headWord f).all (· = ';') || (groupEnd 0 (lexemes f)).all decidesWrite) := by
  obtain ⟨w, rest, hlexemes, hwith⟩ : ∃ w rest, (lexemes text).dropWhile (fun p => p.1.isNoise) = (.word w, f) :: rest ∧
      capitals w = "WITH".toList := by
    unfold behindWith at h
    split at h
    · next w follow rest heq =>
      split_ifs at h with hwith
      obtain rfl := Option.some.inj h
      exact ⟨w, rest, heq, hwith⟩
    · cases h
  have hletters : (capitals w).all Char.isUpper = true := by
    rw [hwith]
    decide
  have hstripped := stripLeadingSqlNoise_eq hletters text hlexemes
  have hne : w ++ f ≠ [] := by
    rintro hnil
    rw [(List.append_eq_nil_iff.1 hnil).1] at hwith
    cases hwith
  have hscan : cteIsWrite (w ++ f) = (groupEnd 0 (lexemes f)).all decidesWrite := by
    rw [cteIsWrite, cteScan_append_of_isPlain fun c hc => isPlain_of_letter (letters_of hletters c hc), cteScan_eq]
  have hfirst : upper (rstripSemicolons (headWord (w ++ f))) =
      if rstripSemicolons (headWord f) = [] then "WITH".toList
      else "WITH".toList ++ upper (rstripSemicolons (headWord f)) := by
    rw [headWord_append hletters, rstripSemicolons_append, rstripSemicolons_word hletters]
    split_ifs
    · rw [upper_eq_capitals hletters, hwith]
    · rw [upper_append, upper_eq_capitals hletters, hwith]
  rw [isWriteStatement, hstripped]
  simp only [hfirst, if_neg hne]
  by_cases hspaced : rstripSemicolons (headWord f) = []
  · have hall := (rstripSemicolons_eq_nil_iff _).1 hspaced
    simp only [hspaced, if_true]
    rw [if_neg (by decide), if_neg (by decide), hscan, hall]
    rfl
  · have hall : (headWord f).all (· = ';') = false :=
      Bool.eq_false_of_not_eq_true fun htrue => hspaced ((rstripSemicolons_eq_nil_iff _).2 htrue)
    have hupper : upper (rstripSemicolons (headWord f)) ≠ [] := fun hnil => hspaced (upper_eq_nil hnil)
    obtain ⟨c, u, hcons⟩ := List.exists_cons_of_ne_nil hupper
    simp only [hspaced, if_false, hall, Bool.not_false, Bool.true_or, hcons]
    rw [if_neg (by simp), if_neg (by simp), if_neg (by simp)]

/-! ### In step with the head of the statement -/

/-- What the scanner makes of the text behind a parenthesis that closes at depth zero. -/
def afterGroup (text : Text) : Bool :=
  if startsWith ",".toList (lstrip text) then (groupEnd 0 (lexemes text)).all decidesWrite
  else decidesWrite (lstrip text)

/-- Behind a parenthesis that has closed. -/
def behindGroup : Place → Bool
  | .listed => true
  | .done => true
  | _ => false

/-- What the scanner makes of the text at a place. -/
def decision (place : Place) (text : Text) : Bool :=
  if behindGroup place then afterGroup text else (groupEnd place.depth (lexemes text)).all decidesWrite

/-- Where the scanner takes something for the main statement that is not: behind a column list, and at a comment
behind a body. -/
def diverts : Place → Lexeme → Bool
  | .columns 0, .closing => true
  | .done, .comment => true
  | _, _ => false

/-- **No column list, no comment behind a body**, and nothing but semicolons at once behind the main keyword. -/
def plain : Place → List (Lexeme × Text) → Bool
  | _, [] => true
  | place, (lexeme, follow) :: rest =>
    match place.main? lexeme with
    | some _ => (headWord follow).all (· = ';')
    | none =>
      match place.next lexeme with
      | some place' => !diverts place lexeme && plain place' rest
      | none => true

theorem afterGroup_space (hc : Sql.isSpace c = true) (t : Text) :
    afterGroup (c :: t) = afterGroup (t.dropWhile Sql.isSpace) := by
  have hstrip : lstrip (c :: t) = lstrip (t.dropWhile Sql.isSpace) := by
    rw [lstrip_dropWhile, lstrip, lstrip, List.dropWhile_cons_of_pos (space_of_space hc)]
  have hgroup : groupEnd 0 (lexemes (c :: t)) = groupEnd 0 (lexemes (t.dropWhile Sql.isSpace)) := by
    rw [lexemes_cons, Sql.next_space hc]
    exact groupEnd_cons rfl _ _ _
  rw [afterGroup, afterGroup, hstrip, hgroup]

theorem afterGroup_cons {k : Char} (hspace : Py.isSpace c = false) (hupper : upperChar c = [k]) (hk : k ≠ ';')
    (hcomma : c ≠ ',') (hwrite : writeWords.all (fun word => word.head? ≠ some k) = true) (t : Text) :
    afterGroup (c :: t) = false := by
  rw [afterGroup, lstrip_cons_of_not hspace, if_neg, decidesWrite_cons hspace hupper hk hwrite]
  simp [startsWith, List.isPrefixOf, hcomma.symm]

theorem afterGroup_comment (hc : c = '-' ∨ c = '/') (t : Text) : afterGroup (c :: t) = false := by
  rcases hc with rfl | rfl
  · exact afterGroup_cons rfl rfl (by decide) (by decide) (by decide) t
  · exact afterGroup_cons rfl rfl (by decide) (by decide) (by decide) t

theorem behindGroup_inside {here : ℕ → Place} {behind place' : Place} {around : ℕ}
    (hhere : ∀ n, behindGroup (here n) = false) (hbehind : behindGroup behind = true)
    (h : Place.inside here behind around lexeme = some place') :
    behindGroup place' = true ↔ around = 0 ∧ lexeme = .closing := by
  cases lexeme with
  | closing =>
    cases around with
    | zero =>
      obtain rfl := Option.some.inj h
      exact iff_of_true hbehind ⟨rfl, rfl⟩
    | succ n =>
      obtain rfl := Option.some.inj h
      simp [hhere]
  | opening =>
    have hplace : place' = here (around + 1) := by cases around <;> exact (Option.some.inj h).symm
    simp [hplace, hhere]
  | broken => cases around <;> cases h
  | _ =>
    have hplace : place' = here around := by cases around <;> exact (Option.some.inj h).symm
    simp [hplace, hhere]

theorem behindGroup_next {place' : Place} (hplace : behindGroup place = false)
    (h : place.next lexeme = some place') :
    behindGroup place' = true ↔ place.depth - 1 = 0 ∧ lexeme = .closing := by
  unfold Place.next at h
  split_ifs at h with hnoise
  · obtain rfl := Option.some.inj h
    cases lexeme with
    | space | comment => simp [hplace]
    | _ => cases hnoise
  · cases place with
    | columns around => rw [behindGroup_inside (fun _ => rfl) rfl h, Place.depth]; simp
    | body around => rw [behindGroup_inside (fun _ => rfl) rfl h, Place.depth]; simp
    | listed => cases hplace
    | done => cases hplace
    | _ =>
      cases lexeme with
      | word w =>
        simp only [Place.behind] at h
        (try split_ifs at h) <;> cases h <;> simp [behindGroup]
      | _ => cases h <;> simp [behindGroup, Place.depth]

theorem decision_next {place' : Place} (hplace : behindGroup place = false)
    (h : place.next (Sql.next c t).1 = some place') : decision place (c :: t) = decision place' (Sql.next c t).2 := by
  have hdepth := Place.depth_next h
  have hbehind := behindGroup_next hplace h
  by_cases hzero : (Sql.next c t).1.depth = 0
  · have hplace' : behindGroup place' = false := by
      rw [← Bool.not_eq_true, hbehind]
      rintro ⟨-, hclosing⟩
      rw [hclosing] at hzero
      cases hzero
    rw [decision, decision, hplace, hplace', if_neg Bool.false_ne_true, if_neg Bool.false_ne_true, lexemes_cons, hdepth,
      hzero, add_zero]
    exact congrArg (·.all decidesWrite) (groupEnd_cons hzero _ _ _)
  · obtain ⟨rfl, hnext⟩ | ⟨rfl, hnext⟩ := next_of_depth_ne hzero
    · rw [hnext] at hdepth hbehind ⊢
      have hplace' : behindGroup place' = false := by
        rw [← Bool.not_eq_true, hbehind]
        rintro ⟨-, hclosing⟩
        cases hclosing
      rw [decision, decision, hplace, hplace', if_neg Bool.false_ne_true, if_neg Bool.false_ne_true, lexemes_cons,
        hnext, groupEnd, hdepth]
      rfl
    · rw [hnext] at hdepth hbehind ⊢
      rw [decision, hplace, if_neg Bool.false_ne_true, lexemes_cons, hnext, groupEnd]
      by_cases hlast : place.depth - 1 = 0
      · rw [if_pos hlast, decision, if_pos (hbehind.2 ⟨hlast, rfl⟩), afterGroup]
        split_ifs <;> rfl
      · rw [if_neg hlast, decision, if_neg fun htrue => hlast (hbehind.1 htrue).1, hdepth]
        rfl

/-- **Behind a column list** the decision is for no write. -/
theorem afterGroup_listed (text : Text) (h : (mainKeyword .listed (lexemes text)).isSome = true) :
    afterGroup text = false := by
  induction text using lexeme_induction with
  | nil =>
    rw [lexemes_nil] at h
    cases h
  | cons c t ih =>
    rw [lexemes_cons] at h
    obtain ⟨hspace, hnext⟩ | ⟨rfl, -, -⟩ | ⟨rfl, -, -⟩ | hquoted | ⟨-, hnext⟩ | ⟨-, hnext⟩ | ⟨-, hnext⟩ | hnext |
      hnext := Sql.next_cases c t
    · rw [hnext] at ih h
      rw [afterGroup_space hspace]
      exact ih h
    · exact afterGroup_comment (Or.inl rfl) t
    · exact afterGroup_comment (Or.inr rfl) t
    · rw [mainKeyword] at h
      rcases hquoted with hfst | hfst <;> rw [hfst] at h <;> cases h
    · rw [hnext] at h
      cases h
    · rw [hnext] at h
      cases h
    · rw [hnext] at h
      cases h
    · rw [hnext] at h
      by_cases has : capitals (c :: t.takeWhile Sql.isWordChar) = "AS".toList
      · have hc : c.toUpper = 'A' := (List.cons.inj has).1
        have hletter : c.toUpper.isUpper = true := by rw [hc]; rfl
        have hupper : upperChar c = ['A'] := by rw [(letter_spec hletter).2, hc]
        have hcomma : c ≠ ',' := by
          rintro rfl
          revert hc
          decide
        exact afterGroup_cons (letter_spec hletter).1 hupper (by decide) hcomma (by decide) t
      · have hbehind : Place.next .listed (.word (c :: t.takeWhile Sql.isWordChar)) = none := if_neg has
        rw [mainKeyword, hbehind] at h
        cases h
    · rw [hnext] at h
      cases h

theorem afterGroup_main (hw : capitals w ∈ mainWords) (f : Text) :
    afterGroup (w ++ f) = ((headWord f).all (· = ';') && decide (capitals w ∈ writeWords)) := by
  have hne : w ≠ [] := by
    rintro rfl
    revert hw
    decide
  rw [afterGroup, lstrip_append (all_mainWords hw) hne, if_neg, decidesWrite_append hw]
  cases w with
  | nil => exact absurd rfl hne
  | cons c w =>
    have hletter := letters_of (all_mainWords hw) c List.mem_cons_self
    have hcomma : c ≠ ',' := by
      rintro rfl
      revert hletter
      decide
    simp [startsWith, List.isPrefixOf, hcomma.symm]

theorem eq_append_of_next_word (h : (Sql.next c t).1 = .word w) : c :: t = w ++ (Sql.next c t).2 := by
  obtain ⟨-, hnext⟩ | ⟨-, -, hnext⟩ | ⟨-, -, hnext⟩ | hfst | ⟨-, hnext⟩ | ⟨-, hnext⟩ | ⟨-, hnext⟩ | hnext | hnext :=
    Sql.next_cases c t
  case inr.inr.inr.inr.inr.inr.inr.inl =>
    rw [hnext] at h ⊢
    rw [← Lexeme.word.inj h, Sql.word_append]
  case inr.inr.inr.inl => rcases hfst with hfst | hfst <;> rw [hfst] at h <;> cases h
  all_goals
    rw [hnext] at h
    cases h

theorem main?_eq_some (h : place.main? lexeme = some w) :
    place = .done ∧ lexeme = .word w ∧ capitals w ∈ mainWords := by
  cases place with
  | done =>
    cases lexeme with
    | word v =>
      rw [Place.main?] at h
      split_ifs at h with hmem
      obtain rfl := Option.some.inj h
      exact ⟨rfl, rfl, hmem⟩
    | _ => cases h
  | _ => cases h

theorem diverts_iff {place' : Place} (hplace : behindGroup place = false) (h : place.next lexeme = some place') :
    diverts place lexeme = true ↔ place' = .listed := by
  have hbehind := behindGroup_next hplace h
  constructor
  · intro hdiverts
    cases place with
    | columns around =>
      cases around with
      | zero =>
        cases lexeme with
        | closing => exact (Option.some.inj h).symm
        | _ => cases hdiverts
      | succ n => cases hdiverts
    | done => cases hplace
    | _ => cases hdiverts
  · rintro rfl
    obtain ⟨hdepth, rfl⟩ := hbehind.1 rfl
    cases place with
    | columns around =>
      obtain rfl : around = 0 := by
        rw [Place.depth] at hdepth
        omega
      rfl
    | body around =>
      obtain rfl : around = 0 := by
        rw [Place.depth] at hdepth
        omega
      cases h
    | _ => cases h

/-- One lexeme behind a body. -/
theorem afterGroup_next {place' : Place} (h : Place.next .done (Sql.next c t).1 = some place') :
    diverts .done (Sql.next c t).1 = true ∧ afterGroup (c :: t) = false ∨
      diverts .done (Sql.next c t).1 = false ∧ place' ≠ .listed ∧
        afterGroup (c :: t) = decision place' (Sql.next c t).2 := by
  obtain ⟨hspace, hnext⟩ | ⟨rfl, -, hnext⟩ | ⟨rfl, -, hnext⟩ | hfst | ⟨-, hnext⟩ | ⟨-, hnext⟩ | ⟨rfl, hnext⟩ | hnext |
    hnext := Sql.next_cases c t
  · rw [hnext] at h ⊢
    obtain rfl := Option.some.inj h
    refine Or.inr ⟨rfl, by simp, ?_⟩
    rw [afterGroup_space hspace]
    rfl
  · rw [hnext]
    exact Or.inl ⟨rfl, afterGroup_comment (Or.inl rfl) t⟩
  · rw [hnext]
    exact Or.inl ⟨rfl, afterGroup_comment (Or.inr rfl) t⟩
  · rcases hfst with hfst | hfst <;> rw [hfst] at h <;> cases h
  · rw [hnext] at h
    cases h
  · rw [hnext] at h
    cases h
  · rw [hnext] at h ⊢
    obtain rfl := Option.some.inj h
    refine Or.inr ⟨rfl, by simp, ?_⟩
    have hstrip : lstrip (',' :: t) = ',' :: t := lstrip_cons_of_not (by rfl) t
    rw [afterGroup, hstrip, if_pos (by rfl), lexemes_cons, hnext]
    rfl
  · rw [hnext] at h
    cases h
  · rw [hnext] at h
    cases h

/-- **The scanner in step with the head of the statement.** -/
theorem decision_eq {text : Text} (hplace : place ≠ .listed) (h : mainKeyword place (lexemes text) = some (w, f)) :
    decision place text = (plain place (lexemes text) && decide (capitals w ∈ writeWords)) := by
  induction text using lexeme_induction generalizing place with
  | nil =>
    rw [lexemes_nil] at h
    cases h
  | cons c t ih =>
    rw [lexemes_cons] at h ⊢
    rw [mainKeyword] at h
    rw [plain]
    cases hmain : place.main? (Sql.next c t).1 with
    | some v =>
      rw [hmain] at h
      obtain ⟨rfl, hword, hmem⟩ := main?_eq_some hmain
      obtain ⟨rfl, rfl⟩ : v = w ∧ (Sql.next c t).2 = f := Prod.mk.inj (Option.some.inj h)
      rw [decision, if_pos (by rfl), eq_append_of_next_word hword, afterGroup_main hmem]
    | none =>
      rw [hmain] at h
      cases hnext : place.next (Sql.next c t).1 with
      | none =>
        rw [hnext] at h
        cases h
      | some place' =>
        rw [hnext] at h
        replace h : mainKeyword place' (lexemes (Sql.next c t).2) = some (w, f) := h
        cases hbehind : behindGroup place with
        | false =>
          rw [decision_next hbehind hnext]
          by_cases hlisted : place' = .listed
          · rw [(diverts_iff hbehind hnext).2 hlisted]
            subst hlisted
            have hgroup := afterGroup_listed (Sql.next c t).2 (by rw [h]; rfl)
            exact hgroup
          · rw [ih hlisted h, Bool.eq_false_of_not_eq_true fun htrue => hlisted ((diverts_iff hbehind hnext).1 htrue)]
            rfl
        | true =>
          obtain rfl : place = .done := by
            cases place with
            | done => rfl
            | listed => exact absurd rfl hplace
            | _ => cases hbehind
          obtain ⟨hdiverts, hfalse⟩ | ⟨hdiverts, hlisted, hgroup⟩ := afterGroup_next hnext
          · rw [hdiverts]
            exact hfalse
          · rw [hdiverts]
            exact hgroup.trans (ih hlisted h)

/-! ### Agreement -/

/-- **When the function meets the main statement.**  With a main keyword that writes: something other than white space
and semicolons stands at once behind `WITH`, or there is neither a column list nor a comment behind a body and nothing
but semicolons stands at once behind the keyword.  With one that reads: nothing but semicolons stands at once behind
`WITH`.  With none: something else does, or no parenthesis closes at depth zero without a comma behind it, or the first
one that does has a keyword that writes behind it. -/
def Agrees (follow : Text) : Prop :=
  match mainKeyword .first (lexemes follow) with
  | some (w, _) =>
    if capitals w ∈ writeWords then (headWord follow).all (· = ';') = false ∨ plain .first (lexemes follow) = true
    else (headWord follow).all (· = ';') = true
  | none => (headWord follow).all (· = ';') = false ∨ ∀ rest ∈ groupEnd 0 (lexemes follow), decidesWrite rest = true

/-- **For every text that begins with `WITH`** the function says whether the main statement writes exactly where
`Agrees` holds of what follows the keyword. -/
theorem isWriteStatement_eq_writes_iff {text follow : Text} (h : behindWith text = some follow) :
    isWriteStatement text = writes follow ↔ Agrees follow := by
  rw [isWriteStatement_eq h, writes, Agrees]
  cases hmain : mainKeyword .first (lexemes follow) with
  | none => cases (headWord follow).all (· = ';') <;> simp [Option.all_eq_true]
  | some p =>
    obtain ⟨w, f⟩ := p
    have hdecision := decision_eq (by simp) hmain
    replace hdecision : (groupEnd 0 (lexemes follow)).all decidesWrite =
      (plain .first (lexemes follow) && decide (capitals w ∈ writeWords)) := hdecision
    rw [hdecision]
    by_cases hwrite : capitals w ∈ writeWords
    · cases (headWord follow).all (· = ';') <;> simp [hwrite]
    · cases (headWord follow).all (· = ';') <;> simp [hwrite]

/-- A body with nested parentheses and a parenthesis in a string, and a main statement that deletes. -/
theorem withDelete_agrees :
    behindWith "WITH t AS MATERIALIZED (SELECT (1), ')' FROM u), v AS (SELECT 2) DELETE FROM w;".toList =
      some " t AS MATERIALIZED (SELECT (1), ')' FROM u), v AS (SELECT 2) DELETE FROM w;".toList ∧
    (isWriteStatement "WITH t AS MATERIALIZED (SELECT (1), ')' FROM u), v AS (SELECT 2) DELETE FROM w;".toList =
        writes " t AS MATERIALIZED (SELECT (1), ')' FROM u), v AS (SELECT 2) DELETE FROM w;".toList ↔
      Agrees " t AS MATERIALIZED (SELECT (1), ')' FROM u), v AS (SELECT 2) DELETE FROM w;".toList) := by
  have h : behindWith "WITH t AS MATERIALIZED (SELECT (1), ')' FROM u), v AS (SELECT 2) DELETE FROM w;".toList =
      some " t AS MATERIALIZED (SELECT (1), ')' FROM u), v AS (SELECT 2) DELETE FROM w;".toList := by
    decide +kernel
  exact ⟨h, isWriteStatement_eq_writes_iff h⟩

/-- A column list: the parenthesis behind `x` closes at depth zero. -/
theorem columnList_missed :
    ¬ ∀ text follow, behindWith text = some follow → isWriteStatement text = writes follow := by
  intro hall
  have hread : behindWith "WITH t(x) AS (SELECT 1) DELETE FROM w".toList =
      some " t(x) AS (SELECT 1) DELETE FROM w".toList := by
    decide +kernel
  have hfalse : isWriteStatement "WITH t(x) AS (SELECT 1) DELETE FROM w".toList = false := by decide +kernel
  have htrue : writes " t(x) AS (SELECT 1) DELETE FROM w".toList = true := by decide +kernel
  have := hall _ _ hread
  rw [hfalse, htrue] at this
  cases this

end VpnBot.Db
