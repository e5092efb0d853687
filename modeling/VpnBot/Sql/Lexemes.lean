import Mathlib.Data.List.Infix
import VpnBot.Python.Lines

/-!
# Lexemes of SQL

A text of SQL as white space, comments, words, quoted names and strings, parentheses, commas and other characters.
Each lexeme comes with the text that follows it, and `lexemes` of that text are the lexemes behind it
(`lexemes_cons`).

A quote is doubled inside the text that it delimits; a comment ends at a line feed or at `*/`, or with the text.  A
quote or a bracket that is not closed is `broken`.
-/

namespace Sql

open Py

/-! ### Characters -/

/-- White space of SQL. -/
def isSpace (c : Char) : Bool := c = ' ' || c = '\t' || c = '\n' || c = '\x0c' || c = '\r'

def isWordStart (c : Char) : Bool := c.isAlpha || c = '_' || 0x80 ≤ c.toNat

def isWordChar (c : Char) : Bool := isWordStart c || c.isDigit || c = '$'

/-- The characters that delimit a string or a name, themselves doubled inside. -/
def isQuote (c : Char) : Bool := c = '\'' || c = '"' || c = '`'

/-! ### Lexemes -/

inductive Lexeme where
  | space
  | comment
  | word (text : Text)
  | quoted
  | comma
  | opening
  | closing
  | other
  | broken
  deriving DecidableEq

/-- What follows the end of a quoted text. -/
def afterQuote (q : Char) : Text → Option Text
  | [] => none
  | [c] => if c = q then some [] else none
  | c :: d :: t => if c = q then if d = q then afterQuote q t else some (d :: t) else afterQuote q (d :: t)

/-- What follows the end of a bracketed name. -/
def afterBracket : Text → Option Text
  | [] => none
  | c :: t => if c = ']' then some t else afterBracket t

/-- What follows the end of a comment between `/*` and `*/`; it may end with the text. -/
def afterComment : Text → Text
  | [] => []
  | [_] => []
  | c :: d :: t => if c = '*' ∧ d = '/' then t else afterComment (d :: t)

def closed (rest : Option Text) : Lexeme × Text :=
  match rest with
  | some t => (.quoted, t)
  | none => (.broken, [])

/-- The lexeme that begins with a character, and what follows it. -/
def next (c : Char) (t : Text) : Lexeme × Text :=
  if isSpace c then (.space, t.dropWhile isSpace)
  else if c = '-' ∧ t.head? = some '-' then (.comment, t.dropWhile (· ≠ '\n'))
  else if c = '/' ∧ t.head? = some '*' then (.comment, afterComment t.tail)
  else if isQuote c then closed (afterQuote c t)
  else if c = '[' then closed (afterBracket t)
  else if c = '(' then (.opening, t)
  else if c = ')' then (.closing, t)
  else if c = ',' then (.comma, t)
  else if isWordStart c then (.word (c :: t.takeWhile isWordChar), t.dropWhile isWordChar)
  else (.other, t)

theorem length_afterQuote_le {q : Char} {t r : Text} (h : afterQuote q t = some r) : r.length ≤ t.length := by
  induction t using afterQuote.induct q with
  | case1 => cases h
  | case2 =>
    rw [afterQuote, if_pos rfl] at h
    obtain rfl := Option.some.inj h
    exact Nat.zero_le _
  | case3 c hc =>
    rw [afterQuote, if_neg hc] at h
    cases h
  | case4 t ih =>
    rw [afterQuote, if_pos rfl, if_pos rfl] at h
    have := ih h
    simp only [List.length_cons]
    omega
  | case5 d t hd =>
    rw [afterQuote, if_pos rfl, if_neg hd] at h
    obtain rfl := Option.some.inj h
    simp only [List.length_cons]
    omega
  | case6 c d t hc ih =>
    rw [afterQuote, if_neg hc] at h
    have := ih h
    simp only [List.length_cons] at this ⊢
    omega

theorem length_afterBracket_le {t r : Text} (h : afterBracket t = some r) : r.length ≤ t.length := by
  induction t with
  | nil => cases h
  | cons c t ih =>
    rw [afterBracket] at h
    split_ifs at h
    · obtain rfl := Option.some.inj h
      exact Nat.le_succ _
    · exact (ih h).trans (Nat.le_succ _)

theorem length_afterComment_le (t : Text) : (afterComment t).length ≤ t.length := by
  induction t using afterComment.induct with
  | case1 => exact le_rfl
  | case2 => exact Nat.zero_le _
  | case3 c d t h =>
    rw [afterComment, if_pos h]
    simp only [List.length_cons]
    omega
  | case4 c d t h ih =>
    rw [afterComment, if_neg h]
    simp only [List.length_cons] at ih ⊢
    omega

theorem length_closed_le {rest : Option Text} {n : ℕ} (h : ∀ t ∈ rest, t.length ≤ n) :
    (closed rest).2.length ≤ n := by
  cases rest with
  | none => exact Nat.zero_le _
  | some t => exact h t rfl

/-- What follows a lexeme is shorter. -/
theorem length_next_le (c : Char) (t : Text) : (next c t).2.length ≤ t.length := by
  unfold next
  split_ifs
  · exact (List.dropWhile_suffix _).length_le
  · exact (List.dropWhile_suffix _).length_le
  · exact (length_afterComment_le _).trans (by simp)
  · exact length_closed_le fun r hr => length_afterQuote_le hr
  · exact length_closed_le fun r hr => length_afterBracket_le hr
  · exact le_rfl
  · exact le_rfl
  · exact le_rfl
  · exact (List.dropWhile_suffix _).length_le
  · exact le_rfl

/-- The lexemes of a text, each with the text that follows it. -/
def lexemes : Text → List (Lexeme × Text)
  | [] => []
  | c :: t => next c t :: lexemes (next c t).2
termination_by t => t.length
decreasing_by
  have := length_next_le c t
  simp only [List.length_cons]
  omega

@[simp] theorem lexemes_nil : lexemes [] = [] := by rw [lexemes]

theorem lexemes_cons (c : Char) (t : Text) : lexemes (c :: t) = next c t :: lexemes (next c t).2 := by
  rw [lexemes]

theorem lexeme_induction {motive : Text → Prop} (nil : motive [])
    (cons : ∀ c t, motive (next c t).2 → motive (c :: t)) (t : Text) : motive t := by
  induction hn : t.length using Nat.strong_induction_on generalizing t with
  | _ n ih =>
    cases t with
    | nil => exact nil
    | cons c t =>
      have hle := length_next_le c t
      rw [List.length_cons] at hn
      exact cons c t (ih (next c t).2.length (by omega) _ rfl)

/-! ### White space in front -/

theorem next_space {c : Char} (h : isSpace c = true) (t : Text) : next c t = (.space, t.dropWhile isSpace) :=
  if_pos h

theorem closed_fst (rest : Option Text) : (closed rest).1 = .quoted ∨ (closed rest).1 = .broken := by
  cases rest with
  | none => exact Or.inr rfl
  | some t => exact Or.inl rfl

theorem next_cases (c : Char) (t : Text) :
    isSpace c = true ∧ next c t = (.space, t.dropWhile isSpace) ∨
    c = '-' ∧ t.head? = some '-' ∧ next c t = (.comment, t.dropWhile (· ≠ '\n')) ∨
    c = '/' ∧ t.head? = some '*' ∧ next c t = (.comment, afterComment t.tail) ∨
    ((next c t).1 = .quoted ∨ (next c t).1 = .broken) ∨
    c = '(' ∧ next c t = (.opening, t) ∨
    c = ')' ∧ next c t = (.closing, t) ∨
    c = ',' ∧ next c t = (.comma, t) ∨
    next c t = (.word (c :: t.takeWhile isWordChar), t.dropWhile isWordChar) ∨
    next c t = (.other, t) := by
  unfold next
  split_ifs with hspace hline hblock hquote hbracket hopening hclosing hcomma hword
  · exact Or.inl ⟨hspace, rfl⟩
  · exact Or.inr (Or.inl ⟨hline.1, hline.2, rfl⟩)
  · exact Or.inr (Or.inr (Or.inl ⟨hblock.1, hblock.2, rfl⟩))
  · exact Or.inr (Or.inr (Or.inr (Or.inl (closed_fst _))))
  · exact Or.inr (Or.inr (Or.inr (Or.inl (closed_fst _))))
  · exact Or.inr (Or.inr (Or.inr (Or.inr (Or.inl ⟨hopening, rfl⟩))))
  · exact Or.inr (Or.inr (Or.inr (Or.inr (Or.inr (Or.inl ⟨hclosing, rfl⟩)))))
  · exact Or.inr (Or.inr (Or.inr (Or.inr (Or.inr (Or.inr (Or.inl ⟨hcomma, rfl⟩))))))
  · exact Or.inr (Or.inr (Or.inr (Or.inr (Or.inr (Or.inr (Or.inr (Or.inl rfl)))))))
  · exact Or.inr (Or.inr (Or.inr (Or.inr (Or.inr (Or.inr (Or.inr (Or.inr rfl)))))))

theorem word_append (c : Char) (t : Text) : (c :: t.takeWhile isWordChar) ++ t.dropWhile isWordChar = c :: t := by
  rw [List.cons_append, List.takeWhile_append_dropWhile]

end Sql
