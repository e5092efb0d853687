import VpnBot.Python.Lines
import VpnBot.System.Substitution

/-!
# Redaction of log texts

`utils/redact.py`: seven patterns, whose matches are replaced one pattern after another, each in the text that the
one before it has left.  `redactText` is what the formatter of the log does with a record.

What `\w` and `\d` are outside of ASCII is a parameter (`Letters`); the four letters that `re` takes for `i`, `s` and
`k` when it ignores case are among the letters of words.
-/

namespace VpnBot.Redaction

open Py Patterns

/-! ### Classes of characters -/

def inRange (lo hi c : Char) : Bool := lo.toNat ≤ c.toNat && c.toNat ≤ hi.toNat

/-- `[A-Za-z]`. -/
def isLetter (c : Char) : Bool := inRange 'A' 'Z' c || inRange 'a' 'z' c

/-- `[0-9]`. -/
def isNumeral (c : Char) : Bool := inRange '0' '9' c

/-- The letters that are not in ASCII and equal to one of ASCII when case is ignored: `İ`, `ı`, `ſ` and the sign of
Kelvin. -/
def isCaseVariant (c : Char) : Bool := c.toNat = 0x130 || c.toNat = 0x131 || c.toNat = 0x17F || c.toNat = 0x212A

/-- `[A-Za-z]` without regard to case. -/
def isLetterCaseless (c : Char) : Bool := isLetter c || isCaseVariant c

/-- A small letter or a sign, without regard to case. -/
def caseless (p c : Char) : Bool :=
  c = p || (inRange 'a' 'z' p && c.toNat + 32 = p.toNat) || (p = 'i' && (c.toNat = 0x130 || c.toNat = 0x131)) ||
    (p = 's' && c.toNat = 0x17F) || (p = 'k' && c.toNat = 0x212A)

/-- A word without regard to case. -/
def caselessWord (w : String) : List (Char → Bool) := w.toList.map caseless

/-- A word as it stands. -/
def literally (w : String) : List (Char → Bool) := w.toList.map fun p c => c = p

/-- One letter of a class. -/
def one (cls : Char → Bool) : Item Char := .many 1 (some 1) cls

/-- `\w` and `\d` in a pattern over text, with what is used of them. -/
structure Letters where
  /-- `\w` -/
  word : Char → Bool
  /-- `\d` -/
  digit : Char → Bool
  word_ascii : ∀ c : Char, c.toNat < 128 → word c = (isLetter c || isNumeral c || c = '_')
  digit_ascii : ∀ c : Char, c.toNat < 128 → digit c = isNumeral c
  word_of_digit : ∀ c, digit c = true → word c = true
  word_of_space : ∀ c, isSpace c = true → word c = false
  word_of_caseVariant : ∀ c, isCaseVariant c = true → word c = true

/-- The letters of ASCII, with those that equal one of them when case is ignored. -/
def Letters.ascii : Letters where
  word c := isLetter c || isNumeral c || c = '_' || isCaseVariant c
  digit := isNumeral
  word_ascii c hc := by
    have hvariant : isCaseVariant c = false := by
      simp only [isCaseVariant, Bool.or_eq_false_iff, decide_eq_false_iff_not]
      omega
    rw [hvariant, Bool.or_false]
  digit_ascii _ _ := rfl
  word_of_digit c hc := by simp [hc]
  word_of_space c hc := by
    have hunder : c ≠ '_' := by
      rintro rfl
      exact absurd hc (by decide)
    simp [isSpace, isLetter, isNumeral, inRange, isCaseVariant, hunder] at hc ⊢
    omega
  word_of_caseVariant c hc := by simp [hc]

/-! ### The patterns -/

/-- `[^&\s]`. -/
def isQueryValue (c : Char) : Bool := !(c = '&' || isSpace c)

/-- `_SECRET_QUERY_RE` and its replacement. -/
def secretQuery : Rule Char where
  items := [.oneOf [caselessWord "secret="], .many 1 none isQueryValue]
  template := [.group 0, .literal stars]
  consumes := rfl

def secretNames : List String :=
  ["bot_token", "token", "password", "passwd", "secret", "mtproto_secret", "private_key", "preshared_key"]

/-- `[:=]`. -/
def isAssignment (c : Char) : Bool := c = ':' || c = '='

/-- `[^,\s;]`. -/
def isAssignedValue (c : Char) : Bool := !(c = ',' || c = ';' || isSpace c)

/-- `_SECRET_ASSIGNMENT_RE` and its replacement. -/
def secretAssignment (L : Letters) : Rule Char where
  items := [.boundary L.word, .oneOf (secretNames.map caselessWord), .many 0 none isSpace, one isAssignment,
    .many 0 none isSpace, .many 1 none isAssignedValue]
  template := [.group 1, .group 3, .literal stars]
  consumes := rfl

/-- `[0-9a-fA-F]`. -/
def isHex (c : Char) : Bool := isNumeral c || inRange 'a' 'f' c || inRange 'A' 'F' c

/-- `_HEX_SECRET_RE` and its replacement. -/
def hexSecret (L : Letters) : Rule Char where
  items := [.boundary L.word, .oneOf [literally "dd", []], .many 32 none isHex, .boundary L.word]
  template := [.literal stars]
  consumes := rfl

/-- `[A-Za-z0-9_-]`. -/
def isTokenChar (c : Char) : Bool := isLetter c || isNumeral c || c = '_' || c = '-'

/-- `_TG_BOT_TOKEN_RE` and its replacement. -/
def tgBotToken (L : Letters) : Rule Char where
  items := [.boundary L.word, .many 8 (some 12) L.digit, one (· = ':'), .many 35 (some 35) isTokenChar,
    .boundary L.word]
  template := [.literal stars]
  consumes := rfl

/-- `[A-Za-z0-9_.~+/=-]` without regard to case. -/
def isBearerChar (c : Char) : Bool :=
  isLetterCaseless c || isNumeral c || c = '_' || c = '.' || c = '~' || c = '+' || c = '/' || c = '=' || c = '-'

/-- `_BEARER_TOKEN_RE` and its replacement. -/
def bearerToken (L : Letters) : Rule Char where
  items := [.boundary L.word, .oneOf [caselessWord "bearer"], .many 1 none isSpace, .many 16 none isBearerChar,
    .boundary L.word]
  template := [.literal ("Bearer ".toList ++ stars)]
  consumes := rfl

/-- `[a-z0-9+\-.]` without regard to case. -/
def isSchemeChar (c : Char) : Bool := isLetterCaseless c || isNumeral c || c = '+' || c = '-' || c = '.'

/-- `[^:@/\s]`. -/
def isUserChar (c : Char) : Bool := !(c = ':' || c = '@' || c = '/' || isSpace c)

/-- `[^@/\s]`. -/
def isPasswordChar (c : Char) : Bool := !(c = '@' || c = '/' || isSpace c)

/-- `_URL_CREDENTIALS_RE` and its replacement; the first group is made up of three items. -/
def urlCredentials : Rule Char where
  items := [one isLetterCaseless, .many 0 none isSchemeChar, .oneOf [literally "://"], .many 1 none isUserChar,
    one (· = ':'), .many 1 none isPasswordChar, one (· = '@')]
  template := [.group 0, .group 1, .group 2, .literal (stars ++ ['@'])]
  consumes := rfl

/-- `[A-Za-z0-9+/]`. -/
def isBase64 (c : Char) : Bool := isLetter c || isNumeral c || c = '+' || c = '/'

/-- `[A-Za-z0-9+/=]`. -/
def isBase64OrPad (c : Char) : Bool := isBase64 c || c = '='

/-- `_WG_PRIVATE_KEY_RE` and its replacement. -/
def wgPrivateKey (L : Letters) : Rule Char where
  items := [.boundary L.word, .many 43 (some 43) isBase64, .many 1 (some 2) (· = '='), .notAhead isBase64OrPad]
  template := [.literal stars]
  consumes := rfl

/-! ### The functions -/

/-- The patterns in the order in which they are applied. -/
def patterns (L : Letters) : List (Rule Char) :=
  [secretQuery, secretAssignment L, hexSecret L, tgBotToken L, bearerToken L, urlCredentials, wgPrivateKey L]

/-- `_apply_patterns`. -/
def applyPatterns (L : Letters) (text : Text) : Text := (patterns L).foldl (fun text R => R.sub text) text

/-- `redact_text`. -/
def redactText (L : Letters) (text : Text) : Text := applyPatterns L text

/-! ### Texts with marks -/

/-- The rule for characters with a mark; what it puts in has none. -/
def marking (R : Rule Char) : Rule (Char × Bool) := R.comap Prod.fst (·, false)

/-- `redact_text` of characters with a mark. -/
def redactMarked (L : Letters) (text : List (Char × Bool)) : List (Char × Bool) :=
  (patterns L).foldl (fun text R => (marking R).sub text) text

theorem map_fst_redactMarked (L : Letters) (text : List (Char × Bool)) :
    (redactMarked L text).map Prod.fst = redactText L (text.map Prod.fst) := by
  have hrules : ∀ (rules : List (Rule Char)) (text : List (Char × Bool)),
      (rules.foldl (fun text R => (marking R).sub text) text).map Prod.fst =
        rules.foldl (fun text R => R.sub text) (text.map Prod.fst) := by
    intro rules
    induction rules with
    | nil => exact fun _ => rfl
    | cons R rules ih =>
      intro text
      rw [List.foldl_cons, List.foldl_cons, ih, marking, map_sub_comap fun _ => rfl]
  exact hrules (patterns L) text

end VpnBot.Redaction
