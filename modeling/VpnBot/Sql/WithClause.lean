import VpnBot.Sql.Lexemes

/-!
# Statements with common table expressions

The head of a statement that begins with `WITH`, read lexeme by lexeme: perhaps `RECURSIVE`, then expressions
separated by commas, each a name, perhaps a column list, `AS`, perhaps a hint about materialization, and a body in
parentheses; then the keyword of the main statement.  White space and comments may stand between any two lexemes.

`mainKeyword` gives that keyword, or nothing where the text cannot be read so.
-/

namespace Sql

open Py

/-- A place in the head of the statement.  Inside parentheses the number says how many of them are open around the
innermost list. -/
inductive Place where
  /-- Behind `WITH`. -/
  | first
  /-- In front of a name. -/
  | name
  /-- Behind the name. -/
  | named
  /-- Inside the column list. -/
  | columns (around : ℕ)
  /-- Behind the column list. -/
  | listed
  /-- Behind `AS`. -/
  | hint
  /-- Behind `NOT`. -/
  | negated
  /-- In front of the body. -/
  | bare
  /-- Inside the body. -/
  | body (around : ℕ)
  /-- Behind the body. -/
  | done

def capitals (word : Text) : Text := word.map Char.toUpper

/-- The keywords of main statements that write. -/
def writeWords : List Text := ["INSERT".toList, "UPDATE".toList, "DELETE".toList, "REPLACE".toList]

/-- The keywords of main statements. -/
def mainWords : List Text := ["SELECT".toList, "VALUES".toList] ++ writeWords

/-- The place behind a lexeme in parentheses. -/
def Place.inside (here : ℕ → Place) (behind : Place) : ℕ → Lexeme → Option Place
  | around, .opening => some (here (around + 1))
  | 0, .closing => some behind
  | around + 1, .closing => some (here around)
  | _, .broken => none
  | around, _ => some (here around)

/-- The place behind a lexeme that is neither white space nor a comment. -/
def Place.behind : Place → Lexeme → Option Place
  | .first, .word w => some (if capitals w = "RECURSIVE".toList then .name else .named)
  | .first, .quoted => some .named
  | .name, .word _ => some .named
  | .name, .quoted => some .named
  | .named, .opening => some (.columns 0)
  | .named, .word w => if capitals w = "AS".toList then some .hint else none
  | .columns around, lexeme => Place.inside .columns .listed around lexeme
  | .listed, .word w => if capitals w = "AS".toList then some .hint else none
  | .hint, .opening => some (.body 0)
  | .hint, .word w =>
    if capitals w = "NOT".toList then some .negated
    else if capitals w = "MATERIALIZED".toList then some .bare
    else none
  | .negated, .word w => if capitals w = "MATERIALIZED".toList then some .bare else none
  | .bare, .opening => some (.body 0)
  | .body around, lexeme => Place.inside .body .done around lexeme
  | .done, .comma => some .name
  | _, _ => none

/-- White space and comments. -/
def Lexeme.isNoise (lexeme : Lexeme) : Bool := lexeme = .space || lexeme = .comment

/-- The place behind a lexeme. -/
def Place.next (place : Place) (lexeme : Lexeme) : Option Place :=
  if lexeme.isNoise then some place else place.behind lexeme

/-- The keyword of the main statement, if the lexeme is one. -/
def Place.main? : Place → Lexeme → Option Text
  | .done, .word w => if capitals w ∈ mainWords then some w else none
  | _, _ => none

/-- The keyword of the main statement, with what follows it. -/
def mainKeyword : Place → List (Lexeme × Text) → Option (Text × Text)
  | _, [] => none
  | place, (lexeme, follow) :: rest =>
    match place.main? lexeme with
    | some w => some (w, follow)
    | none =>
      match place.next lexeme with
      | some place' => mainKeyword place' rest
      | none => none

/-- What follows the leading keyword of a text, if that is `WITH`. -/
def behindWith (text : Text) : Option Text :=
  match (lexemes text).dropWhile fun p => p.1.isNoise with
  | (.word w, follow) :: _ => if capitals w = "WITH".toList then some follow else none
  | _ => none

/-- **Whether the statement whose head follows writes**; one that cannot be read does. -/
def writes (follow : Text) : Bool :=
  match mainKeyword .first (lexemes follow) with
  | some (w, _) => capitals w ∈ writeWords
  | none => true

/-! ### Parentheses -/

/-- How many parentheses are open at a place. -/
def Place.depth : Place → ℤ
  | .columns n => n + 1
  | .body n => n + 1
  | _ => 0

def Lexeme.depth : Lexeme → ℤ
  | .opening => 1
  | .closing => -1
  | _ => 0

theorem Place.depth_inside {here : ℕ → Place} {behind place : Place} (hhere : ∀ n : ℕ, (here n).depth = n + 1)
    (hbehind : behind.depth = 0) {around : ℕ} {lexeme : Lexeme}
    (h : Place.inside here behind around lexeme = some place) : place.depth = around + 1 + lexeme.depth := by
  cases lexeme with
  | opening =>
    have hplace : place = here (around + 1) := by cases around <;> exact (Option.some.inj h).symm
    rw [hplace, hhere, Lexeme.depth]
    push_cast
    ring
  | closing =>
    cases around with
    | zero =>
      obtain rfl := Option.some.inj h
      rw [hbehind, Lexeme.depth]
      norm_num
    | succ n =>
      obtain rfl := Option.some.inj h
      rw [hhere, Lexeme.depth]
      push_cast
      ring
  | broken => cases around <;> cases h
  | _ =>
    have hplace : place = here around := by cases around <;> exact (Option.some.inj h).symm
    rw [hplace, hhere]
    exact (add_zero _).symm

theorem Place.depth_next {place place' : Place} {lexeme : Lexeme} (h : place.next lexeme = some place') :
    place'.depth = place.depth + lexeme.depth := by
  unfold Place.next at h
  split_ifs at h with hnoise
  · obtain rfl := Option.some.inj h
    cases lexeme with
    | space | comment => exact (add_zero _).symm
    | _ => cases hnoise
  · cases place with
    | columns around => exact Place.depth_inside (fun _ => rfl) rfl h
    | body around => exact Place.depth_inside (fun _ => rfl) rfl h
    | _ =>
      cases lexeme with
      | word w =>
        simp only [Place.behind] at h
        (try split_ifs at h) <;> cases h <;> rfl
      | _ => cases h <;> rfl

end Sql
