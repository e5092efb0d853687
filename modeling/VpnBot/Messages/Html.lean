import VpnBot.Python.Find
import VpnBot.System.Brackets
import VpnBot.System.Fitting

/-!
# Telegram HTML

A text of the formatters is a sequence of characters, entities and tags (`Token`); it is well formed when every
tag is closed by its own name (`Balanced`).  `render` writes the tokens and `visible` gives what a reader sees of
them.

Inside a tag or an entity there is neither white space nor one of the characters that delimit them
(`Inner`): a piece of one is recognised by its first character (`exists_of_isHalf`).
-/

namespace VpnBot.Messages

open Py Sys

/-! ### Tags and entities -/

/-- The tags that the formatters write. -/
inductive Tag where
  | b | i | u | s | code | pre | blockquote
  deriving DecidableEq

def Tag.name : Tag → Text
  | .b => "b".toList
  | .i => "i".toList
  | .u => "u".toList
  | .s => "s".toList
  | .code => "code".toList
  | .pre => "pre".toList
  | .blockquote => "blockquote".toList

/-- `<tag>` and `</tag>`. -/
def tagText : Bracket Tag → Text
  | .opens tag => '<' :: (tag.name ++ ['>'])
  | .closes tag => '<' :: ('/' :: tag.name ++ ['>'])

def namedEntities : List (Text × Char) :=
  [("amp".toList, '&'), ("lt".toList, '<'), ("gt".toList, '>'), ("quot".toList, '\"')]

/-- The digits to a base, with the values of those to the base sixteen. -/
def digitsTo (base : ℕ) : Text :=
  if base = 16 then "0123456789abcdefABCDEF".toList else "0123456789".toList

def digitOf (c : Char) : ℕ :=
  let place := (digitsTo 16).idxOf c
  if place < 16 then place else place - 6

/-- The character with a number that is written in at most `width` digits. -/
def numericChar (base width : ℕ) (digits : Text) : Option Char :=
  if 1 ≤ digits.length ∧ digits.length ≤ width ∧ digits.all (· ∈ digitsTo base) then
    some (Char.ofNat (digits.foldl (fun n c => base * n + digitOf c) 0))
  else none

/-- The character that an entity stands for, by what is between `&` and `;`. -/
def entityChar : Text → Option Char
  | '#' :: 'x' :: digits => numericChar 16 6 digits
  | '#' :: 'X' :: digits => numericChar 16 6 digits
  | '#' :: digits => numericChar 10 7 digits
  | name => namedEntities.lookup name

structure Entity where
  body : Text
  char : Char
  meaning : entityChar body = some char

/-- A character, an entity or a tag. -/
inductive Token where
  | char (c : Char) (plain : c ∉ ['<', '>', '&'])
  | entity (entity : Entity)
  | tag (tag : Bracket Tag)

namespace Token

def text : Token → Text
  | char c _ => [c]
  | entity e => '&' :: (e.body ++ [';'])
  | tag b => tagText b

/-- What a reader sees. -/
def visible : Token → Text
  | char c _ => [c]
  | entity e => [e.char]
  | tag _ => []

def bracket : Token → Option (Bracket Tag)
  | tag b => some b
  | _ => none

def isSpace : Token → Bool
  | char c _ => Py.isSpace c
  | _ => false

end Token

/-! ### Texts -/

/-- The text of the tokens. -/
def render (tokens : List Token) : Text := tokens.flatMap Token.text

/-- What a reader sees of the tokens. -/
def visible (tokens : List Token) : Text := tokens.flatMap Token.visible

/-- The tags among the tokens. -/
def tags (tokens : List Token) : List (Bracket Tag) := tokens.filterMap Token.bracket

/-- Every tag is closed, the last one first. -/
def Balanced (tokens : List Token) : Prop := Bracket.stackAfter [] (tags tokens) = some []

/-- The closing tags of a stack of open ones. -/
def closers (stack : List Tag) : Text := stack.flatMap fun tag => tagText (.closes tag)

variable {tokens tokens' : List Token}

@[simp] theorem render_append (tokens tokens' : List Token) :
    render (tokens ++ tokens') = render tokens ++ render tokens' := List.flatMap_append

@[simp] theorem visible_append (tokens tokens' : List Token) :
    visible (tokens ++ tokens') = visible tokens ++ visible tokens' := List.flatMap_append

@[simp] theorem tags_append (tokens tokens' : List Token) : tags (tokens ++ tokens') = tags tokens ++ tags tokens' :=
  List.filterMap_append

theorem render_concat (tokens : List Token) (token : Token) :
    render (tokens ++ [token]) = render tokens ++ token.text := by
  rw [render_append]
  simp [render]

@[simp] theorem closers_append (stack stack' : List Tag) :
    closers (stack ++ stack') = closers stack ++ closers stack' := List.flatMap_append

theorem render_begins (h : tokens <+: tokens') : render tokens <+: render tokens' := by
  obtain ⟨rest, rfl⟩ := h
  exact ⟨render rest, (render_append tokens rest).symm⟩

theorem visible_begins (h : tokens <+: tokens') : visible tokens <+: visible tokens' := by
  obtain ⟨rest, rfl⟩ := h
  exact ⟨visible rest, (visible_append tokens rest).symm⟩

theorem exists_stackAfter_of_prefix (hbalanced : Balanced tokens') (h : tokens <+: tokens') :
    ∃ stack, Bracket.stackAfter [] (tags tokens) = some stack := by
  obtain ⟨rest, rfl⟩ := h
  rw [Balanced, tags_append] at hbalanced
  obtain ⟨stack, hstack, -⟩ := Bracket.exists_stackAfter_of_append hbalanced
  exact ⟨stack, hstack⟩

theorem exists_render_eq {t : Text} (h : ∀ c ∈ t, c ∉ ['<', '>', '&']) :
    ∃ tokens, render tokens = t ∧ visible tokens = t ∧ tags tokens = [] := by
  induction t with
  | nil => exact ⟨[], rfl, rfl, rfl⟩
  | cons c t ih =>
    obtain ⟨tokens, hrender, hvisible, htags⟩ := ih fun d hd => h d (List.mem_cons_of_mem c hd)
    refine ⟨.char c (h c List.mem_cons_self) :: tokens, ?_, ?_, ?_⟩
    · rw [render, List.flatMap_cons, ← render, hrender]
      rfl
    · rw [visible, List.flatMap_cons, ← visible, hvisible]
      rfl
    · rw [tags, List.filterMap_cons_none rfl, ← tags, htags]

theorem exists_render_closers (stack : List Tag) :
    ∃ tokens, render tokens = closers stack ∧ visible tokens = [] ∧ tags tokens = stack.map .closes := by
  refine ⟨stack.map fun tag => .tag (.closes tag), ?_, ?_, ?_⟩
  · rw [render, closers, List.flatMap_map]
    rfl
  · rw [visible, List.flatMap_map]
    exact List.flatMap_eq_nil_iff.2 fun _ _ => rfl
  · rw [tags, List.filterMap_map]
    exact List.filterMap_eq_map_iff_forall_eq_some.2 fun _ _ => rfl

/-! ### Inside a tag or an entity -/

/-- A character that delimits nothing. -/
def Inner (c : Char) : Prop := c ∉ ['<', '>', '&', ';'] ∧ isSpace c = false

instance : DecidablePred Inner := fun _ => inferInstanceAs (Decidable (_ ∧ _))

theorem inner_of_all {t : Text} (h : t.all (fun c => decide (Inner c)) = true) : ∀ c ∈ t, Inner c := by
  intro c hc
  exact of_decide_eq_true (List.all_eq_true.1 h c hc)

theorem inner_of_mem_digitsTo {base : ℕ} {c : Char} (h : c ∈ digitsTo base) : Inner c := by
  unfold digitsTo at h
  split_ifs at h
  · exact inner_of_all (by decide) c h
  · exact inner_of_all (by decide) c h

theorem inner_of_numericChar {base width : ℕ} {digits : Text} {c : Char}
    (h : numericChar base width digits = some c) : digits.length ≤ width ∧ ∀ d ∈ digits, Inner d := by
  unfold numericChar at h
  split_ifs at h with hdigits
  have hall : ∀ d ∈ digits, d ∈ digitsTo base := fun d hd =>
    of_decide_eq_true (List.all_eq_true.1 hdigits.2.2 d hd)
  exact ⟨hdigits.2.1, fun d hd => inner_of_mem_digitsTo (hall d hd)⟩

theorem inner_of_lookup {name : Text} {c : Char} (h : namedEntities.lookup name = some c) :
    name.length ≤ 4 ∧ ∀ d ∈ name, Inner d := by
  have hall : ∀ p ∈ namedEntities, p.1.length ≤ 4 ∧ p.1.all (fun c => decide (Inner c)) = true := by decide
  rw [List.lookup_eq_some_iff] at h
  obtain ⟨before, after, hlist, -⟩ := h
  have hmem : (name, c) ∈ namedEntities := by
    rw [hlist]
    simp
  exact ⟨(hall (name, c) hmem).1, inner_of_all (hall (name, c) hmem).2⟩

theorem Entity.inner (entity : Entity) : entity.body.length ≤ 8 ∧ ∀ c ∈ entity.body, Inner c := by
  obtain ⟨body, char, h⟩ := entity
  show body.length ≤ 8 ∧ ∀ c ∈ body, Inner c
  have hmark : Inner '#' ∧ Inner 'x' ∧ Inner 'X' := by decide
  unfold entityChar at h
  split at h
  · obtain ⟨hlen, hinner⟩ := inner_of_numericChar h
    refine ⟨by simp only [List.length_cons]; omega, ?_⟩
    simp only [List.forall_mem_cons]
    exact ⟨hmark.1, hmark.2.1, hinner⟩
  · obtain ⟨hlen, hinner⟩ := inner_of_numericChar h
    refine ⟨by simp only [List.length_cons]; omega, ?_⟩
    simp only [List.forall_mem_cons]
    exact ⟨hmark.1, hmark.2.2, hinner⟩
  · obtain ⟨hlen, hinner⟩ := inner_of_numericChar h
    refine ⟨by simp only [List.length_cons]; omega, ?_⟩
    simp only [List.forall_mem_cons]
    exact ⟨hmark.1, hinner⟩
  · obtain ⟨hlen, hinner⟩ := inner_of_lookup h
    exact ⟨hlen.trans (by decide), hinner⟩

/-- What is between the ends of a tag. -/
def tagInner : Bracket Tag → Text
  | .opens tag => tag.name
  | .closes tag => '/' :: tag.name

theorem tagText_eq (tag : Bracket Tag) : tagText tag = '<' :: (tagInner tag ++ ['>']) := by
  cases tag <;> rfl

theorem inner_of_mem_tagInner {tag : Bracket Tag} : ∀ c ∈ tagInner tag, Inner c := by
  cases tag with
  | opens tag => cases tag <;> exact inner_of_all (by decide)
  | closes tag => cases tag <;> exact inner_of_all (by decide)

/-- Half of a tag or an entity begins it and does not reach its end. -/
theorem exists_of_isHalf {first last : Char} {inner half : Text} (h : IsHalf half (first :: (inner ++ [last]))) :
    ∃ r, half = first :: r ∧ r <+: inner := by
  obtain ⟨hbegins, hne, hwhole⟩ := h
  rw [← List.cons_append, List.prefix_concat_iff] at hbegins
  cases half with
  | nil => exact absurd rfl hne
  | cons c r =>
    obtain ⟨rfl, hr⟩ := List.cons_prefix_cons.1 (hbegins.resolve_left hwhole)
    exact ⟨r, rfl, hr⟩

end VpnBot.Messages
