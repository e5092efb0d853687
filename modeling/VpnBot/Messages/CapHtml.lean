import VpnBot.Messages.Html

/-!
# Cutting a message to a limit

`cap_telegram_html` cuts a text that is too long at a line break or at the limit, drops a tag or an entity that
the cut has halved, closes what is open, and cuts once more where the closing tags do not fit.

On a well-formed text each cut leaves whole tokens, the trailing white space dropped (`snippetTo_render`), and the
closing tags are those of the stack of open ones (`closingTags_render`).
-/

namespace VpnBot.Messages

open Py Sys

/-! ### The functions -/

/-- `_TRUNCATED_SUFFIX`. -/
def truncatedSuffix : Text := "\n...обрезано".toList

/-- `TELEGRAM_TEXT_LIMIT`. -/
def telegramTextLimit : ℕ := 4096

/-- `_trim_partial_entity`. -/
def trimPartialEntity (text : Text) : Text :=
  let amp := rfind '&' text
  if amp = -1 ∨ ';' ∈ text.drop amp.toNat then text
  else if text.length - amp ≤ 10 then rstrip (text.take amp.toNat)
  else text

/-- The tags of `_closing_tags`. -/
def allTags : List (Bracket Tag) :=
  [.b, .i, .u, .s, .code, .pre, .blockquote].flatMap fun tag => [.opens tag, .closes tag]

/-- The tag at the beginning of a text. -/
def tagAt (text : Text) : Option (Bracket Tag) := allTags.find? fun tag => startsWith (tagText tag) text

/-- The tags in a text.  A tag has its only `<` in front, so no two of them overlap. -/
def tagsIn : Text → List (Bracket Tag)
  | [] => []
  | c :: text => (tagAt (c :: text)).toList ++ tagsIn text

/-- The stack of `_closing_tags`, its last element first, after a tag; a tag that is not open closes nothing. -/
def stackStep (stack : List Tag) : Bracket Tag → List Tag
  | .opens tag => tag :: stack
  | .closes tag => stack.erase tag

/-- `_closing_tags`. -/
def closingTags (text : Text) : Text := closers ((tagsIn text).foldl stackStep [])

def withoutHalfTag (snippet : Text) : Text :=
  if rfind '>' snippet < rfind '<' snippet then rstrip (snippet.take (rfind '<' snippet).toNat) else snippet

/-- The first characters of a text without halves; the function does this twice. -/
def snippetTo (text : Text) (cut : ℕ) : Text := trimPartialEntity (withoutHalfTag (rstrip (text.take cut)))

/-- The place of the first cut: the last line break, unless it is in the first half. -/
def firstCut (text : Text) (rawLimit : ℕ) : ℕ :=
  let cut := rfind '\n' (text.take rawLimit)
  if cut < (rawLimit / 2 : ℕ) then rawLimit else cut.toNat

/-- `cap_telegram_html`. -/
def capTelegramHtml (text : Text) (limit : ℕ) : Text :=
  if text.length ≤ limit then text
  else if limit ≤ truncatedSuffix.length then
    -- `suffix[-limit:]`; with no characters at all the slice is the whole suffix
    if limit = 0 then truncatedSuffix else truncatedSuffix.drop (truncatedSuffix.length - limit)
  else
    let snippet := snippetTo text (firstCut text (limit - truncatedSuffix.length))
    let closing := closingTags snippet
    if limit < snippet.length + closing.length + truncatedSuffix.length then
      let snippet := snippetTo snippet (limit - closing.length - truncatedSuffix.length)
      snippet ++ closingTags snippet ++ truncatedSuffix
    else snippet ++ closing ++ truncatedSuffix

/-! ### Whole tokens -/

variable {tokens : List Token}

theorem rfind_lt_le_rfind_gt (tokens : List Token) : rfind '<' (render tokens) ≤ rfind '>' (render tokens) := by
  induction tokens using List.reverseRecOn with
  | nil => decide
  | append_singleton tokens token ih =>
    rw [render_concat]
    cases token with
    | char c plain =>
      simp only [List.mem_cons, List.not_mem_nil, or_false, not_or] at plain
      rw [Token.text, rfind_append_of_notMem (by simpa using Ne.symm plain.1),
        rfind_append_of_notMem (by simpa using Ne.symm plain.2.1)]
      exact ih
    | entity e =>
      have hinner : ∀ c ∈ e.body, Inner c := e.inner.2
      have hlt : '<' ∉ e.body := fun h => absurd (hinner _ h) (by decide)
      have hgt : '>' ∉ e.body := fun h => absurd (hinner _ h) (by decide)
      rw [Token.text, rfind_append_of_notMem (by simp [hlt]), rfind_append_of_notMem (by simp [hgt])]
      exact ih
    | tag b =>
      have hend : render tokens ++ tagText b = (render tokens ++ '<' :: tagInner b) ++ ['>'] := by
        rw [tagText_eq]
        simp
      have hlt := rfind_lt_length '<' (render tokens ++ tagText b)
      rw [Token.text]
      rw [hend] at hlt ⊢
      rw [rfind_append_cons List.not_mem_nil]
      rw [List.length_append, List.length_singleton] at hlt
      omega

theorem mem_drop_rfind_amp (tokens : List Token) : rfind '&' (render tokens) = -1 ∨
    ';' ∈ (render tokens).drop (rfind '&' (render tokens)).toNat := by
  have hkeep : ∀ {t r : Text}, '&' ∉ r → (rfind '&' t = -1 ∨ ';' ∈ t.drop (rfind '&' t).toNat) →
      rfind '&' (t ++ r) = -1 ∨ ';' ∈ (t ++ r).drop (rfind '&' (t ++ r)).toNat := by
    intro t r hr h
    rw [rfind_append_of_notMem hr]
    refine h.imp_right fun hmem => ?_
    rw [List.drop_append]
    exact List.mem_append_left _ hmem
  induction tokens using List.reverseRecOn with
  | nil => exact Or.inl rfl
  | append_singleton tokens token ih =>
    rw [render_concat]
    cases token with
    | char c plain =>
      refine hkeep ?_ ih
      rintro hmem
      obtain rfl := List.mem_singleton.1 hmem
      exact plain (by decide)
    | entity e =>
      have hinner : ∀ c ∈ e.body, Inner c := e.inner.2
      have hamp : '&' ∉ e.body ++ [';'] := by
        rw [List.mem_append, List.mem_singleton, not_or]
        exact ⟨fun h => absurd (hinner _ h) (by decide), by decide⟩
      rw [Token.text, rfind_append_cons hamp]
      right
      rw [Int.toNat_natCast, List.drop_left]
      simp
    | tag b =>
      refine hkeep ?_ ih
      rw [Token.text, tagText_eq]
      have hinner : '&' ∉ tagInner b := fun h => absurd (inner_of_mem_tagInner _ h) (by decide)
      simp [hinner]

@[simp] theorem withoutHalfTag_render (tokens : List Token) : withoutHalfTag (render tokens) = render tokens :=
  if_neg (not_lt.2 (rfind_lt_le_rfind_gt tokens))

@[simp] theorem trimPartialEntity_render (tokens : List Token) :
    trimPartialEntity (render tokens) = render tokens := if_pos (mem_drop_rfind_amp tokens)

theorem rstrip_render (tokens : List Token) :
    rstrip (render tokens) = render (tokens.rdropWhile Token.isSpace) := by
  induction tokens using List.reverseRecOn with
  | nil => rfl
  | append_singleton tokens token ih =>
    have hsharp : ∀ c : Char, isSpace c = false → ∀ r, token.text = r ++ [c] → token.isSpace = false →
        rstrip (render (tokens ++ [token])) = render ((tokens ++ [token]).rdropWhile Token.isSpace) := by
      intro c hc r htext htoken
      rw [render_concat, htext, ← List.append_assoc, rstrip_concat_of_not hc,
        List.rdropWhile_concat_neg _ _ _ (by rw [htoken]; exact Bool.false_ne_true), render_concat, htext,
        List.append_assoc]
    cases token with
    | char c plain =>
      by_cases hspace : isSpace c = true
      · have htoken : (Token.char c plain).isSpace = true := hspace
        rw [render_concat, Token.text, rstrip, List.rdropWhile_concat_pos _ _ _ hspace, ← rstrip, ih,
          List.rdropWhile_concat_pos _ _ _ htoken]
      · rw [Bool.not_eq_true] at hspace
        exact hsharp c hspace [] rfl hspace
    | entity e => exact hsharp ';' (by decide) ('&' :: e.body) rfl rfl
    | tag b => exact hsharp '>' (by decide) ('<' :: tagInner b) (tagText_eq b) rfl

/-! ### A cut -/

def cutTokens (cut : ℕ) (tokens : List Token) : List Token :=
  (fitting (fun token => token.text.length) cut tokens).rdropWhile Token.isSpace

theorem cutTokens_begins (cut : ℕ) (tokens : List Token) : cutTokens cut tokens <+: tokens :=
  (List.rdropWhile_prefix _ _).trans (fitting_begins _ _ _)

theorem length_render_cutTokens_le (cut : ℕ) (tokens : List Token) :
    (render (cutTokens cut tokens)).length ≤ cut :=
  (render_begins (List.rdropWhile_prefix _ _)).length_le.trans (length_flatMap_fitting_le Token.text cut tokens)

/-- Half of a tag or an entity stays when white space is dropped. -/
theorem rstrip_append_half {c : Char} {r : Text} (hc : isSpace c = false) (hr : ∀ d ∈ r, Inner d) (t : Text) :
    rstrip (t ++ c :: r) = t ++ c :: r := by
  rcases List.eq_nil_or_concat r with rfl | ⟨front, last, rfl⟩
  · exact rstrip_concat_of_not hc t
  · rw [List.concat_eq_append] at hr ⊢
    have hlast : isSpace last = false := (hr last (by simp)).2
    have hend : t ++ c :: (front ++ [last]) = (t ++ c :: front) ++ [last] := by simp
    rw [hend, rstrip_concat_of_not hlast]

theorem withoutHalfTag_append {r : Text} (hr : ∀ d ∈ r, Inner d) (tokens : List Token) :
    withoutHalfTag (render tokens ++ '<' :: r) = rstrip (render tokens) := by
  have hlt : '<' ∉ r := fun h => absurd (hr _ h) (by decide)
  have hgt : '>' ∉ '<' :: r := by
    rw [List.mem_cons, not_or]
    exact ⟨by decide, fun h => absurd (hr _ h) (by decide)⟩
  have hbefore := rfind_lt_length '>' (render tokens)
  rw [withoutHalfTag, rfind_append_cons hlt, rfind_append_of_notMem hgt, if_pos hbefore, Int.toNat_natCast,
    List.take_left]

theorem trimPartialEntity_append {r : Text} (hr : ∀ d ∈ r, Inner d) (hlen : r.length ≤ 8) (t : Text) :
    trimPartialEntity (t ++ '&' :: r) = rstrip t := by
  have hamp : '&' ∉ r := fun h => absurd (hr _ h) (by decide)
  have hstop : ';' ∉ '&' :: r := by
    rw [List.mem_cons, not_or]
    exact ⟨by decide, fun h => absurd (hr _ h) (by decide)⟩
  rw [trimPartialEntity, rfind_append_cons hamp, Int.toNat_natCast, List.drop_left, List.take_left, if_neg,
    if_pos]
  · rw [List.length_append, List.length_cons]
    omega
  · rintro (hneg | hmem)
    · omega
    · exact hstop hmem

/-- **A cut leaves whole tokens.** -/
theorem snippetTo_render (tokens : List Token) (cut : ℕ) :
    snippetTo (render tokens) cut = render (cutTokens cut tokens) := by
  obtain ⟨half, htake, hhalf⟩ := exists_take_flatMap Token.text cut tokens
  rw [snippetTo, render, htake, ← render, cutTokens, ← rstrip_render]
  rcases hhalf with rfl | ⟨token, hhalf⟩
  · rw [List.append_nil, rstrip_render, withoutHalfTag_render, trimPartialEntity_render]
  · cases token with
    | char c plain =>
      -- one character has no half
      obtain ⟨hbegins, hne, hwhole⟩ := hhalf
      rcases List.prefix_cons_iff.1 hbegins with hnil | ⟨r, hr, hrest⟩
      · exact absurd hnil hne
      · rw [List.prefix_nil.1 hrest] at hr
        exact absurd hr hwhole
    | entity e =>
      obtain ⟨r, rfl, hr⟩ := exists_of_isHalf hhalf
      have hinner : ∀ d ∈ r, Inner d := fun d hd => e.inner.2 d (hr.subset hd)
      have hlen : r.length ≤ 8 := hr.length_le.trans e.inner.1
      have hlt : '<' ∉ '&' :: r := by
        rw [List.mem_cons, not_or]
        exact ⟨by decide, fun h => absurd (hinner _ h) (by decide)⟩
      have hgt : '>' ∉ '&' :: r := by
        rw [List.mem_cons, not_or]
        exact ⟨by decide, fun h => absurd (hinner _ h) (by decide)⟩
      rw [rstrip_append_half (by decide) hinner, withoutHalfTag, rfind_append_of_notMem hlt,
        rfind_append_of_notMem hgt, if_neg (not_lt.2 (rfind_lt_le_rfind_gt _)), trimPartialEntity_append hinner hlen]
    | tag b =>
      rw [Token.text, tagText_eq] at hhalf
      obtain ⟨r, rfl, hr⟩ := exists_of_isHalf hhalf
      have hinner : ∀ d ∈ r, Inner d := fun d hd => inner_of_mem_tagInner d (hr.subset hd)
      rw [rstrip_append_half (by decide) hinner, withoutHalfTag_append hinner, rstrip_render,
        trimPartialEntity_render]

/-! ### The closing tags -/

theorem tagAt_tagText (tag : Bracket Tag) (text : Text) : tagAt (tagText tag ++ text) = some tag := by
  cases tag with
  | opens tag => cases tag <;> rfl
  | closes tag => cases tag <;> rfl

theorem tagAt_cons_of_ne {c : Char} (h : c ≠ '<') (text : Text) : tagAt (c :: text) = none := by
  refine List.find?_eq_none.2 fun tag _ => ?_
  rw [tagText_eq, startsWith, List.isPrefixOf_cons_cons, Bool.and_eq_true]
  rintro ⟨heq, -⟩
  exact h (beq_iff_eq.1 heq).symm

theorem tagsIn_append_of_notMem {t : Text} (h : '<' ∉ t) (text : Text) : tagsIn (t ++ text) = tagsIn text := by
  induction t with
  | nil => rfl
  | cons c t ih =>
    rw [List.mem_cons, not_or] at h
    rw [List.cons_append, tagsIn, tagAt_cons_of_ne (Ne.symm h.1), ih h.2]
    rfl

theorem tagsIn_tagText_append (tag : Bracket Tag) (text : Text) :
    tagsIn (tagText tag ++ text) = tag :: tagsIn text := by
  have hinner : '<' ∉ tagInner tag ++ ['>'] := by
    rw [List.mem_append, List.mem_singleton, not_or]
    exact ⟨fun h => absurd (inner_of_mem_tagInner _ h) (by decide), by decide⟩
  have htag := tagAt_tagText tag text
  rw [tagText_eq, List.cons_append] at htag ⊢
  rw [tagsIn, htag, tagsIn_append_of_notMem hinner]
  rfl

theorem tagsIn_render (tokens : List Token) : tagsIn (render tokens) = tags tokens := by
  induction tokens with
  | nil => rfl
  | cons token tokens ih =>
    rw [render, List.flatMap_cons, ← render]
    cases token with
    | char c plain =>
      have hlt : '<' ∉ [c] := by
        rintro hmem
        obtain rfl := List.mem_singleton.1 hmem
        exact plain (by decide)
      rw [Token.text, tagsIn_append_of_notMem hlt, ih]
      rfl
    | entity e =>
      have hlt : '<' ∉ '&' :: (e.body ++ [';']) := by
        rw [List.mem_cons, List.mem_append, List.mem_singleton, not_or, not_or]
        exact ⟨by decide, fun h => absurd (e.inner.2 _ h) (by decide), by decide⟩
      rw [Token.text, tagsIn_append_of_notMem hlt, ih]
      rfl
    | tag b =>
      rw [Token.text, tagsIn_tagText_append, ih]
      rfl

theorem foldl_stackStep {stack stack' : List Tag} {brackets : List (Bracket Tag)}
    (h : Bracket.stackAfter stack brackets = some stack') : brackets.foldl stackStep stack = stack' := by
  induction brackets generalizing stack with
  | nil => exact Option.some.inj h
  | cons bracket brackets ih =>
    rw [Bracket.stackAfter, List.foldlM_cons] at h
    obtain ⟨next, hpush, hrest⟩ := Option.bind_eq_some_iff.1 h
    have hstep : stackStep stack bracket = next := by
      cases bracket with
      | opens tag => exact Option.some.inj hpush
      | closes tag =>
        cases stack with
        | nil => cases hpush
        | cons top stack =>
          rw [Bracket.push] at hpush
          split_ifs at hpush with heq
          rw [stackStep, heq, List.erase_cons_head]
          exact Option.some.inj hpush
    rw [List.foldl_cons, hstep]
    exact ih hrest

/-- **The closing tags are those of the open ones.** -/
theorem closingTags_render {stack : List Tag} (h : Bracket.stackAfter [] (tags tokens) = some stack) :
    closingTags (render tokens) = closers stack := by
  rw [closingTags, tagsIn_render, foldl_stackStep h]

end VpnBot.Messages
