import VpnBot.Python.Find
import VpnBot.Sql.WithClause

/-!
# Which statements write

`_is_write_statement` and what it calls: white space and comments are taken off the front of the text, the first
word decides, and behind `WITH` a scanner looks for the first parenthesis that closes at depth zero with no comma
behind it, and decides by the word that follows.

The scanner goes over the text character by character.  `cteScan_eq` says what it does lexeme by lexeme: quoted text
and comments are passed over, and the parentheses of the others are counted.
-/

namespace VpnBot.Db

open Py

/-! ### Words -/

/-- The letters outside ASCII whose capitals are in ASCII. -/
def capitalLetters : List (Char × Text) :=
  [('ı', "I".toList), ('ſ', "S".toList), ('ß', "SS".toList), ('ﬀ', "FF".toList), ('ﬁ', "FI".toList),
   ('ﬂ', "FL".toList), ('ﬃ', "FFI".toList), ('ﬄ', "FFL".toList), ('ﬅ', "ST".toList), ('ﬆ', "ST".toList)]

/-- The capital of a letter, as far as it is in ASCII. -/
def upperChar (c : Char) : Text := (capitalLetters.lookup c).getD [c.toUpper]

/-- `t.upper()`, for a comparison with words in ASCII. -/
def upper (t : Text) : Text := t.flatMap upperChar

/-- `t.lower()`, for a comparison with words in ASCII. -/
def lowerAscii (t : Text) : Text := t.map fun c => if c = 'K' then 'k' else c.toLower

/-- `t.lstrip()`. -/
def lstrip (t : Text) : Text := t.dropWhile isSpace

/-- `t.rstrip(";")`. -/
def rstripSemicolons (t : Text) : Text := t.rdropWhile (· = ';')

/-- `t.split(None, 1)[0]` of a text that does not begin with white space. -/
def headWord (t : Text) : Text := t.takeWhile (!isSpace ·)

/-! ### The functions -/

/-- What follows the first line feed. -/
def afterNewline : Text → Option Text
  | [] => none
  | c :: t => if c = '\n' then some t else afterNewline t

/-- `t[t.find(end) + 2:]` for the end of a comment. -/
def afterStarSlash : Text → Option Text
  | [] => none
  | [_] => none
  | c :: d :: t => if c = '*' ∧ d = '/' then some t else afterStarSlash (d :: t)

theorem length_afterNewline_lt {t r : Text} (h : afterNewline t = some r) : r.length < t.length := by
  induction t with
  | nil => cases h
  | cons c t ih =>
    rw [afterNewline] at h
    split_ifs at h
    · obtain rfl := Option.some.inj h
      exact Nat.lt_succ_self _
    · exact (ih h).trans (Nat.lt_succ_self _)

theorem length_afterStarSlash_lt {t r : Text} (h : afterStarSlash t = some r) : r.length < t.length := by
  induction t using afterStarSlash.induct with
  | case1 => cases h
  | case2 => cases h
  | case3 c d t hend =>
    rw [afterStarSlash, if_pos hend] at h
    obtain rfl := Option.some.inj h
    simp only [List.length_cons]
    omega
  | case4 c d t hend ih =>
    rw [afterStarSlash, if_neg hend] at h
    have := ih h
    simp only [List.length_cons] at this ⊢
    omega

theorem length_lstrip_le (t : Text) : (lstrip t).length ≤ t.length := (List.dropWhile_suffix _).length_le

/-- The loop of `_strip_leading_sql_noise`. -/
def stripNoise (t : Text) : Text :=
  if startsWith "--".toList t then
    match _h : afterNewline t with
    | none => []
    | some rest => stripNoise (lstrip rest)
  else if startsWith "/*".toList t then
    match _h : afterStarSlash (t.drop 2) with
    | none => t
    | some rest => stripNoise (lstrip rest)
  else t
termination_by t.length
decreasing_by
  · exact (length_lstrip_le rest).trans_lt (length_afterNewline_lt (by assumption))
  · have hrest := (length_lstrip_le rest).trans_lt (length_afterStarSlash_lt (by assumption))
    rw [List.length_drop] at hrest
    omega

/-- `_strip_leading_sql_noise`. -/
def stripLeadingSqlNoise (sql : Text) : Text := stripNoise (lstrip sql)

/-- The pragmas that `_pragma_mutates` knows. -/
def mutatingPragmas : List Text :=
  ["application_id".toList, "auto_vacuum".toList, "busy_timeout".toList, "foreign_keys".toList,
   "incremental_vacuum".toList, "journal_mode".toList, "locking_mode".toList, "optimize".toList,
   "synchronous".toList, "user_version".toList, "vacuum".toList, "wal_checkpoint".toList]

/-- `_pragma_mutates`. -/
def pragmaMutates (sql : Text) : Bool :=
  let body := strip (lstrip (sql.dropWhile (!isSpace ·)))
  if '=' ∈ body then true
  else
    let name := lowerAscii (strip ((body.takeWhile (· ≠ '(')).takeWhile (· ≠ ';')))
    mutatingPragmas.contains (headWord name)

/-- What follows a quote that is not doubled; nothing where there is none. -/
def skipQuoted (q : Char) : Text → Text
  | [] => []
  | [_] => []
  | c :: d :: t => if c = q then if d = q then skipQuoted q t else d :: t else skipQuoted q (d :: t)

/-- What follows the end of a comment; nothing where it does not end. -/
def skipComment : Text → Text
  | [] => []
  | [_] => []
  | c :: d :: t => if c = '*' ∧ d = '/' then t else skipComment (d :: t)

theorem length_skipQuoted_le (q : Char) (t : Text) : (skipQuoted q t).length ≤ t.length := by
  induction t using skipQuoted.induct q with
  | case1 => exact le_rfl
  | case2 => exact Nat.zero_le _
  | case3 t ih =>
    rw [skipQuoted, if_pos rfl, if_pos rfl]
    simp only [List.length_cons]
    omega
  | case4 d t hd =>
    rw [skipQuoted, if_pos rfl, if_neg hd]
    simp only [List.length_cons]
    omega
  | case5 c d t hc ih =>
    rw [skipQuoted, if_neg hc]
    simp only [List.length_cons] at ih ⊢
    omega

theorem length_skipComment_le (t : Text) : (skipComment t).length ≤ t.length := by
  induction t using skipComment.induct with
  | case1 => exact le_rfl
  | case2 => exact Nat.zero_le _
  | case3 c d t h =>
    rw [skipComment, if_pos h]
    simp only [List.length_cons]
    omega
  | case4 c d t h ih =>
    rw [skipComment, if_neg h]
    simp only [List.length_cons] at ih ⊢
    omega

/-- The statements that the scanner counts as writes, by the word behind the parenthesis. -/
def decidesWrite (rest : Text) : Bool := Sql.writeWords.contains (rstripSemicolons (upper (headWord rest)))

/-- The loop of `_cte_is_write` on `sql[i:]`. -/
def cteScan (depth : ℤ) (text : Text) : Bool :=
  match text with
  | [] => true
  | c :: t =>
    if c = '\'' ∨ c = '"' ∨ c = '`' then cteScan depth (skipQuoted c t)
    else if c = '[' then cteScan depth (t.dropWhile (· ≠ ']')).tail
    else if c = '-' ∧ t.head? = some '-' then cteScan depth (t.dropWhile (· ≠ '\n'))
    else if c = '/' ∧ t.head? = some '*' then cteScan depth (skipComment t.tail)
    else if c = '(' then cteScan (depth + 1) t
    else if c = ')' then
      if depth - 1 = 0 then
        if startsWith ",".toList (lstrip t) then cteScan 0 t else decidesWrite (lstrip t)
      else cteScan (depth - 1) t
    else cteScan depth t
termination_by text.length
decreasing_by
  all_goals simp only [List.length_cons, List.length_tail]
  · have := length_skipQuoted_le c t
    omega
  · have := (List.dropWhile_suffix (l := t) (· ≠ ']')).length_le
    omega
  · have := (List.dropWhile_suffix (l := t) (· ≠ '\n')).length_le
    omega
  · have := length_skipComment_le t.tail
    rw [List.length_tail] at this
    omega
  · omega
  · omega
  · omega
  · omega

/-- `_cte_is_write`. -/
def cteIsWrite (sql : Text) : Bool := cteScan 0 sql

/-- `_is_write_statement`. -/
def isWriteStatement (sql : Text) : Bool :=
  let stripped := stripLeadingSqlNoise sql
  if stripped = [] then false
  else
    let first := upper (rstripSemicolons (headWord stripped))
    if first = "SELECT".toList ∨ first = "EXPLAIN".toList then false
    else if first = "PRAGMA".toList then pragmaMutates stripped
    else if first = "WITH".toList then cteIsWrite stripped
    -- the other words that the source names give the same result as all the rest
    else true

end VpnBot.Db
