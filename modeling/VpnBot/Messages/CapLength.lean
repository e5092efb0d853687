import VpnBot.Messages.CapHtml

/-!
# What cutting a message keeps

Whatever the limit, what `cap_telegram_html` returns for a well-formed text is well formed, and a reader sees a
beginning of the text and the suffix (`exists_tokens_capTelegramHtml`).  Its length is another matter: the second
cut makes room for the tags that were open at the first one, and it can take a closing tag away with what it
drops, so that there is one more tag to close (`nested_too_long`).

`keepsSendable_iff` says when the result is within the limit: the piece that the second cut drops must not close
more of its surroundings than it leaves open itself, in characters, but for the room that is left unused.
-/

namespace VpnBot.Messages

open Py Sys

/-! ### What is promised -/

/-- What the text that is sent keeps of one with the given tokens. -/
structure KeepsSendable (tokens : List Token) (limit : ℕ) (sent : Text) : Prop where
  fits : sent.length ≤ limit
  itself : (render tokens).length ≤ limit → sent = render tokens
  wellFormed : ∃ tokens', Balanced tokens' ∧ render tokens' = sent ∧ (visible tokens' <+: visible tokens ∨
    ∃ shown, visible tokens' = shown ++ truncatedSuffix ∧ shown <+: visible tokens)

def openTags (tokens : List Token) : List Tag := (Bracket.stackAfter [] (tags tokens)).getD []

/-- The limit leaves room for the suffix and the closing tags of the deepest nesting. -/
def LeavesRoom (tokens : List Token) (limit : ℕ) : Prop :=
  ∀ part, part <+: tokens → truncatedSuffix.length + (closers (openTags part)).length ≤ limit

/-- The tokens in front of the first cut. -/
def firstPart (tokens : List Token) (limit : ℕ) : List Token :=
  cutTokens (firstCut (render tokens) (limit - truncatedSuffix.length)) tokens

/-- The characters that the tags which are open at the first cut leave to the text. -/
def room (tokens : List Token) (limit : ℕ) : ℕ :=
  limit - (closers (openTags (firstPart tokens limit))).length - truncatedSuffix.length

/-- The tokens in front of the second cut. -/
def secondPart (tokens : List Token) (limit : ℕ) : List Token :=
  cutTokens (room tokens limit) (firstPart tokens limit)

/-- The tokens between the cuts. -/
def between (tokens : List Token) (limit : ℕ) : List Token :=
  (firstPart tokens limit).drop (secondPart tokens limit).length

/-- The text fits, or the first cut leaves room for its closing tags, or of the tokens between the cuts the tags
that they close of their surroundings are no longer, as closing tags, than those that they leave open and the room
that the second cut leaves. -/
def RoomToClose (tokens : List Token) (limit : ℕ) : Prop :=
  (render tokens).length ≤ limit ∨ limit ≤ truncatedSuffix.length ∨
  (render (firstPart tokens limit)).length ≤ room tokens limit ∨
  (closers (Bracket.unmatched (tags (between tokens limit))).1).length ≤
    (closers (Bracket.unmatched (tags (between tokens limit))).2).length +
      (room tokens limit - (render (secondPart tokens limit)).length)

instance (tokens : List Token) : Decidable (Balanced tokens) := inferInstanceAs (Decidable (_ = _))

instance (tokens : List Token) (limit : ℕ) : Decidable (RoomToClose tokens limit) :=
  inferInstanceAs (Decidable (_ ∨ _))

variable {tokens part : List Token} {limit : ℕ}

theorem firstPart_begins (tokens : List Token) (limit : ℕ) : firstPart tokens limit <+: tokens :=
  cutTokens_begins _ _

theorem secondPart_begins (tokens : List Token) (limit : ℕ) : secondPart tokens limit <+: firstPart tokens limit :=
  cutTokens_begins _ _

theorem secondPart_append_between (tokens : List Token) (limit : ℕ) :
    secondPart tokens limit ++ between tokens limit = firstPart tokens limit := by
  obtain ⟨rest, hrest⟩ := secondPart_begins tokens limit
  rw [between, ← hrest, List.drop_left]

theorem stackAfter_openTags (hbalanced : Balanced tokens) (hpart : part <+: tokens) :
    Bracket.stackAfter [] (tags part) = some (openTags part) := by
  obtain ⟨stack, hstack⟩ := exists_stackAfter_of_prefix hbalanced hpart
  rw [openTags, hstack, Option.getD_some]

theorem closingTags_part (hbalanced : Balanced tokens) (hpart : part <+: tokens) :
    closingTags (render part) = closers (openTags part) :=
  closingTags_render (stackAfter_openTags hbalanced hpart)

/-! ### What is sent -/

/-- A part of the text with its closing tags and the suffix. -/
def closedPart (part : List Token) : Text := render part ++ closers (openTags part) ++ truncatedSuffix

theorem length_closedPart (part : List Token) : (closedPart part).length =
    (render part).length + (closers (openTags part)).length + truncatedSuffix.length := by
  rw [closedPart, List.length_append, List.length_append]

theorem capTelegramHtml_eq (hbalanced : Balanced tokens) (hroom : LeavesRoom tokens limit) :
    capTelegramHtml (render tokens) limit =
      if (render tokens).length ≤ limit then render tokens
      else if limit ≤ truncatedSuffix.length then closedPart []
      else if (render (firstPart tokens limit)).length ≤ room tokens limit then
        closedPart (firstPart tokens limit)
      else closedPart (secondPart tokens limit) := by
  have hfirst := hroom _ (firstPart_begins tokens limit)
  have hsecond := (secondPart_begins tokens limit).trans (firstPart_begins tokens limit)
  have hsuffix : truncatedSuffix.length = 12 := by decide
  rw [capTelegramHtml, snippetTo_render, ← firstPart]
  simp only [closingTags_part hbalanced (firstPart_begins tokens limit)]
  rw [← room, snippetTo_render, ← secondPart, closingTags_part hbalanced hsecond]
  by_cases hfits : (render tokens).length ≤ limit
  · rw [if_pos hfits, if_pos hfits]
  rw [if_neg hfits, if_neg hfits]
  by_cases hshort : limit ≤ truncatedSuffix.length
  · -- the limit leaves room for the suffix, so it is as long
    have hwhole : truncatedSuffix.length - limit = 0 := by omega
    rw [if_pos hshort, if_pos hshort, if_neg (by omega), hwhole, List.drop_zero]
    rfl
  rw [if_neg hshort, if_neg hshort]
  by_cases hcloses : (render (firstPart tokens limit)).length ≤ room tokens limit
  · rw [if_pos hcloses, if_neg (by rw [room] at hcloses; omega), closedPart]
  · rw [if_neg hcloses, if_pos (by rw [room] at hcloses; omega), closedPart]

theorem plain_of_mem_truncatedSuffix : ∀ c ∈ truncatedSuffix, c ∉ ['<', '>', '&'] := by
  have hall : truncatedSuffix.all (fun c => decide (c ∉ ['<', '>', '&'])) = true := by decide
  intro c hc
  exact of_decide_eq_true (List.all_eq_true.1 hall c hc)

theorem exists_tokens_closedPart (hbalanced : Balanced tokens) (hpart : part <+: tokens) :
    ∃ tokens', Balanced tokens' ∧ render tokens' = closedPart part ∧
      ∃ shown, visible tokens' = shown ++ truncatedSuffix ∧ shown <+: visible tokens := by
  obtain ⟨suffix, hsuffix, hshown, hnone⟩ := exists_render_eq plain_of_mem_truncatedSuffix
  obtain ⟨closing, hclosing, hhidden, hcloses⟩ := exists_render_closers (openTags part)
  refine ⟨part ++ closing ++ suffix, ?_, ?_, visible part, ?_, visible_begins hpart⟩
  · rw [Balanced, tags_append, tags_append, hnone, List.append_nil, Bracket.stackAfter_append,
      stackAfter_openTags hbalanced hpart, Option.bind_some, hcloses, Bracket.stackAfter_closes]
  · rw [render_append, render_append, hsuffix, hclosing, closedPart]
  · rw [visible_append, visible_append, hhidden, hshown, List.append_nil]

/-- **What is sent is well formed**, and shows a beginning of the text. -/
theorem exists_tokens_capTelegramHtml (hbalanced : Balanced tokens) (hroom : LeavesRoom tokens limit) :
    ∃ tokens', Balanced tokens' ∧ render tokens' = capTelegramHtml (render tokens) limit ∧
      (visible tokens' <+: visible tokens ∨
        ∃ shown, visible tokens' = shown ++ truncatedSuffix ∧ shown <+: visible tokens) := by
  have hclosed : ∀ part, part <+: tokens → ∃ tokens', Balanced tokens' ∧ render tokens' = closedPart part ∧
      (visible tokens' <+: visible tokens ∨
        ∃ shown, visible tokens' = shown ++ truncatedSuffix ∧ shown <+: visible tokens) := by
    intro part hpart
    obtain ⟨tokens', hbal, hrender, hshown⟩ := exists_tokens_closedPart hbalanced hpart
    exact ⟨tokens', hbal, hrender, Or.inr hshown⟩
  rw [capTelegramHtml_eq hbalanced hroom]
  split_ifs
  · exact ⟨tokens, hbalanced, rfl, Or.inl List.prefix_rfl⟩
  · exact hclosed [] List.nil_prefix
  · exact hclosed _ (firstPart_begins tokens limit)
  · exact hclosed _ ((secondPart_begins tokens limit).trans (firstPart_begins tokens limit))

theorem length_closers_between (hbalanced : Balanced tokens) (limit : ℕ) :
    (closers (openTags (secondPart tokens limit))).length +
        (closers (Bracket.unmatched (tags (between tokens limit))).2).length =
      (closers (openTags (firstPart tokens limit))).length +
        (closers (Bracket.unmatched (tags (between tokens limit))).1).length := by
  have hfirst := stackAfter_openTags hbalanced (firstPart_begins tokens limit)
  have hsecond := stackAfter_openTags hbalanced
    ((secondPart_begins tokens limit).trans (firstPart_begins tokens limit))
  rw [← secondPart_append_between, tags_append, Bracket.stackAfter_append, hsecond, Option.bind_some,
    secondPart_append_between] at hfirst
  obtain ⟨rest, hbefore, hafter⟩ := Bracket.exists_rest_of_stackAfter hfirst
  have hbeforeLength := congrArg (fun stack => (closers stack).length) hbefore
  have hafterLength := congrArg (fun stack => (closers stack).length) hafter
  simp only [closers_append, List.length_append] at hbeforeLength hafterLength
  omega

/-- **The length of what is sent.** -/
theorem length_capTelegramHtml_le_iff (hbalanced : Balanced tokens) (hroom : LeavesRoom tokens limit) :
    (capTelegramHtml (render tokens) limit).length ≤ limit ↔ RoomToClose tokens limit := by
  have hfirst := hroom _ (firstPart_begins tokens limit)
  have hleast := hroom [] List.nil_prefix
  have hsecond : (render (secondPart tokens limit)).length ≤ room tokens limit :=
    length_render_cutTokens_le _ _
  have hbetween := length_closers_between hbalanced limit
  have hempty : (closedPart []).length = truncatedSuffix.length := rfl
  rw [capTelegramHtml_eq hbalanced hroom, RoomToClose]
  split_ifs with hfits hshort hcloses
  · exact iff_of_true hfits (Or.inl hfits)
  · exact iff_of_true (by omega) (Or.inr (Or.inl hshort))
  · refine iff_of_true ?_ (Or.inr (Or.inr (Or.inl hcloses)))
    rw [length_closedPart]
    rw [room] at hcloses
    omega
  · rw [length_closedPart]
    simp only [hfits, hshort, hcloses, false_or]
    rw [room] at hsecond hcloses ⊢
    omega

/-- **The text that is sent is sendable** when there is room to close its tags, and only then. -/
theorem keepsSendable_iff (tokens : List Token) (limit : ℕ) (hbalanced : Balanced tokens)
    (hroom : LeavesRoom tokens limit) :
    KeepsSendable tokens limit (capTelegramHtml (render tokens) limit) ↔ RoomToClose tokens limit := by
  constructor
  · intro h
    exact (length_capTelegramHtml_le_iff hbalanced hroom).1 h.fits
  · intro h
    refine ⟨(length_capTelegramHtml_le_iff hbalanced hroom).2 h, fun hfits => ?_, ?_⟩
    · rw [capTelegramHtml, if_pos hfits]
    · exact exists_tokens_capTelegramHtml hbalanced hroom

/-! ### A tag that is closed between the cuts -/

theorem plain_x : 'x' ∉ ['<', '>', '&'] := by decide

/-- `<i><b>xxxxxxxx</b>`, more of the letter, and `</i>`. -/
def nested (more : ℕ) : List Token :=
  [.tag (.opens .i), .tag (.opens .b)] ++ List.replicate 8 (.char 'x' plain_x) ++ [.tag (.closes .b)] ++
    List.replicate more (.char 'x' plain_x) ++ [.tag (.closes .i)]

theorem leavesRoom_of_inits {tokens : List Token} {limit : ℕ}
    (h : ∀ part ∈ tokens.inits, truncatedSuffix.length + (closers (openTags part)).length ≤ limit) :
    LeavesRoom tokens limit := fun part hpart => h part ((List.mem_inits part tokens).2 hpart)

/-- The first cut at 18 characters leaves `</i>` to write, the second one at 14 drops `</b>` and leaves both. -/
theorem nested_too_long : Balanced (nested 10) ∧ LeavesRoom (nested 10) 30 ∧
    ¬ KeepsSendable (nested 10) 30 (capTelegramHtml (render (nested 10)) 30) := by
  refine ⟨by decide +kernel, leavesRoom_of_inits (by decide +kernel), fun h => ?_⟩
  exact absurd h.fits (by decide +kernel)

/-- Four characters more and the second cut is behind `</b>`. -/
theorem nested_sendable : KeepsSendable (nested 20) 34 (capTelegramHtml (render (nested 20)) 34) :=
  (keepsSendable_iff (nested 20) 34 (by decide +kernel) (leavesRoom_of_inits (by decide +kernel))).2
    (by decide +kernel)

end VpnBot.Messages
