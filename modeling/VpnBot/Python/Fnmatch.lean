import VpnBot.Python.Text

/-!
# Shell patterns

`fnmatch.fnmatchcase` of the Python language: `*` is any text, `?` any character, `[…]` one of the listed
characters and ranges and `[!…]` any other.  A bracket that is not closed is an ordinary character, and a
closing bracket in the first place does not close.
-/

namespace Py

namespace Fnmatch

/-- One element of a pattern. -/
inductive Token
  | star
  | any
  | char (c : Char)
  | set (negated : Bool) (ranges : List (Char × Char))

/-- What a bracket lists. -/
def rangesOf : Text → List (Char × Char)
  | lo :: '-' :: hi :: body => (lo, hi) :: rangesOf body
  | c :: body => (c, c) :: rangesOf body
  | [] => []

/-- The pattern after `[`: the set and what follows it, when the bracket is closed. -/
def bracket (pat : Text) : Option (Token × Text) :=
  let negated := pat.head? = some '!'
  let body := if negated then pat.tail else pat
  let first := if body.head? = some ']' then body.take 1 else []
  let rest := body.drop first.length
  if ']' ∈ rest then
    some (.set negated (rangesOf (first ++ rest.takeWhile (· ≠ ']'))), (rest.dropWhile (· ≠ ']')).tail)
  else none

/-- The elements of a pattern; `fuel` is at least its length. -/
def tokens : ℕ → Text → List Token
  | _, [] | 0, _ => []
  | fuel + 1, '*' :: pat => .star :: tokens fuel pat
  | fuel + 1, '?' :: pat => .any :: tokens fuel pat
  | fuel + 1, '[' :: pat =>
    match bracket pat with
    | some (token, rest) => token :: tokens fuel rest
    | none => .char '[' :: tokens fuel pat
  | fuel + 1, c :: pat => .char c :: tokens fuel pat

/-- The element admits the character. -/
def Token.allows (c : Char) : Token → Bool
  | .star | .any => true
  | .char d => c = d
  | .set negated ranges => negated ≠ ranges.any fun r => r.1 ≤ c ∧ c ≤ r.2

/-- The elements match the whole text. -/
def matchAll : List Token → Text → Bool
  | [], t => t.isEmpty
  | .star :: ts, t => t.tails.any (matchAll ts)
  | _ :: _, [] => false
  | token :: ts, c :: t => token.allows c && matchAll ts t

/-- `fnmatch.fnmatchcase(name, pat)`. -/
def fnmatchcase (name pat : Text) : Bool := matchAll (tokens pat.length pat) name

example : fnmatchcase "ssh_host_rsa_key".toList "ssh_host_*_key".toList = true := by decide +kernel

example : fnmatchcase "/etc/x.bak443".toList "*.bak[0-9]*".toList = true := by decide +kernel

end Fnmatch

end Py
