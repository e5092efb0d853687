import VpnBot.Python.Json
import VpnBot.Python.Lines

/-!
# `json.loads`

The document is read from left to right with a stack of the containers that are open.  The decoder of
Python recurses into every container, so that one more than the interpreter allows is a `RecursionError`,
which is no `ValueError`; everything else that is wrong with a document is a `JSONDecodeError` (or the
`ValueError` of an integer with too many digits), which is one.

A number stands with its text in the document, and an escape of half a surrogate pair with U+FFFD.
-/

namespace Py

namespace Json

/-- What `json.loads` raises. -/
inductive LoadsError
  | value
  | recursion
  deriving DecidableEq

/-- An open container: the items so far, the last one first, or the fields so far and the key whose value
comes next. -/
inductive Frame
  | arr (items : List Json)
  | obj (fields : List (Text × Json)) (key : Text)

inductive Reading
  /-- A value must come, or the `]` of an array without items. -/
  | value (orEnd : Bool)
  /-- The `"` of a key must come, or the `}` of an object without fields. -/
  | key (orEnd : Bool)
  | colon (key : Text)
  /-- A value has been read. -/
  | after (v : Json)
  /-- In a string, a key or a value; the characters so far in reverse, and half a surrogate pair. -/
  | str (isKey : Bool) (rev : Text) (high : Option ℕ)
  | escape (isKey : Bool) (rev : Text) (high : Option ℕ)
  | hex (isKey : Bool) (rev : Text) (high : Option ℕ) (digits : List ℕ)
  /-- The rest of `null`, `true` and the like. -/
  | literal (rest : Text) (v : Json)
  | number (rev : Text)

structure Decoder where
  reading : Reading
  stack : List Frame

/-- `[ \t\n\r]`. -/
def isJsonSpace (c : Char) : Bool := c = ' ' || c = '\t' || c = '\n' || c = '\r'

/-! ### Numbers -/

/-- The digits in front, and what follows them. -/
def spanDigits (t : Text) : Text × Text := (t.takeWhile Char.isDigit, t.dropWhile Char.isDigit)

/-- `(?:0|[1-9][0-9]*)`, all of the text. -/
def isJsonInt (t : Text) : Bool :=
  t = ['0'] || (!t.isEmpty && t.all Char.isDigit && t.head? ≠ some '0')

/-- `(?:[eE][-+]?[0-9]+)?`, all of the text. -/
def isExponent : Text → Bool
  | [] => true
  | 'e' :: '-' :: t | 'e' :: '+' :: t | 'E' :: '-' :: t | 'E' :: '+' :: t => isDecimal t
  | 'e' :: t | 'E' :: t => isDecimal t
  | _ => false

/-- `(?:\.[0-9]+)?` and an exponent, all of the text. -/
def isFraction : Text → Bool
  | '.' :: t => !(spanDigits t).1.isEmpty && isExponent (spanDigits t).2
  | t => isExponent t

/-- The number of the text; an integer of too many digits is refused. -/
def numberOf (t : Text) : Except LoadsError Json :=
  let unsigned := if t.head? = some '-' then t.tail else t
  let parts := spanDigits unsigned
  if !(isJsonInt parts.1 && isFraction parts.2) then .error .value
  else if parts.2.isEmpty && maxStrDigits < parts.1.length then .error .value
  else .ok (.num t)

/-! ### Strings -/

/-- The value of a hexadecimal digit. -/
def hexDigit (c : Char) : Option ℕ :=
  if c.isDigit then some (c.toNat - '0'.toNat)
  else if 'a' ≤ c ∧ c ≤ 'f' then some (c.toNat - 'a'.toNat + 10)
  else if 'A' ≤ c ∧ c ≤ 'F' then some (c.toNat - 'A'.toNat + 10)
  else none

/-- The character of `\b`, `\n` and the like. -/
def escaped : Char → Option Char
  | '"' => some '"'
  | '\\' => some '\\'
  | '/' => some '/'
  | 'b' => some '\x08'
  | 'f' => some '\x0c'
  | 'n' => some '\n'
  | 'r' => some '\r'
  | 't' => some '\t'
  | _ => none

/-- Half a surrogate pair that stays alone. -/
def flushHigh (rev : Text) (high : Option ℕ) : Text := if high.isSome then '\ufffd' :: rev else rev

/-- The characters after a code unit of four hexadecimal digits. -/
def addUnit (rev : Text) (high : Option ℕ) (unit : ℕ) : Text × Option ℕ :=
  if 0xd800 ≤ unit ∧ unit < 0xdc00 then (flushHigh rev high, some unit)
  else if 0xdc00 ≤ unit ∧ unit < 0xe000 then
    match high with
    | some h => (Char.ofNat (0x10000 + (h - 0xd800) * 0x400 + (unit - 0xdc00)) :: rev, none)
    | none => ('\ufffd' :: rev, none)
  else (Char.ofNat unit :: flushHigh rev high, none)

/-- What comes after a string. -/
def stringEnd (isKey : Bool) (t : Text) : Reading := if isKey then .colon t else .after (.str t)

/-- A character of a string; control characters are refused. -/
def readString (isKey : Bool) (rev : Text) (high : Option ℕ) (c : Char) : Except LoadsError Reading :=
  if c = '"' then .ok (stringEnd isKey (flushHigh rev high).reverse)
  else if c = '\\' then .ok (.escape isKey rev high)
  else if c.toNat < 0x20 then .error .value
  else .ok (.str isKey (c :: flushHigh rev high) none)

/-- The character after a backslash. -/
def readEscape (isKey : Bool) (rev : Text) (high : Option ℕ) (c : Char) : Except LoadsError Reading :=
  if c = 'u' then .ok (.hex isKey rev high [])
  else
    match escaped c with
    | some e => .ok (.str isKey (e :: flushHigh rev high) none)
    | none => .error .value

/-- One of the digits after `\u`. -/
def readHex (isKey : Bool) (rev : Text) (high : Option ℕ) (digits : List ℕ) (c : Char) :
    Except LoadsError Reading :=
  match hexDigit c with
  | none => .error .value
  | some d =>
    match digits with
    | [x, y, z] =>
      let (rev, high) := addUnit rev high (((x * 16 + y) * 16 + z) * 16 + d)
      .ok (.str isKey rev high)
    | _ => .ok (.hex isKey rev high (digits ++ [d]))

/-! ### The decoder -/

/-- A container is entered, unless the recursion is at its limit. -/
def enter (limit : ℕ) (stack : List Frame) (frame : Frame) (reading : Reading) :
    Except LoadsError Decoder :=
  if limit ≤ stack.length then .error .recursion else .ok ⟨reading, frame :: stack⟩

/-- The first character of a value. -/
def startValue (limit : ℕ) (stack : List Frame) (c : Char) : Except LoadsError Decoder :=
  if c = '"' then .ok ⟨.str false [] none, stack⟩
  else if c = '{' then enter limit stack (.obj [] []) (.key true)
  else if c = '[' then enter limit stack (.arr []) (.value true)
  else if c = 'n' then .ok ⟨.literal "ull".toList .null, stack⟩
  else if c = 't' then .ok ⟨.literal "rue".toList (.bool true), stack⟩
  else if c = 'f' then .ok ⟨.literal "alse".toList (.bool false), stack⟩
  else if c = 'N' then .ok ⟨.literal "aN".toList (.num "NaN".toList), stack⟩
  else if c = 'I' then .ok ⟨.literal "nfinity".toList (.num "Infinity".toList), stack⟩
  else if c = '-' ∨ c.isDigit = true then .ok ⟨.number [c], stack⟩
  else .error .value

/-- What may follow a value: the next item or field, or the end of the container. -/
def afterValue (v : Json) (stack : List Frame) (c : Char) : Except LoadsError Decoder :=
  if isJsonSpace c then .ok ⟨.after v, stack⟩
  else
    match stack with
    | [] => .error .value
    | .arr items :: stack =>
      if c = ',' then .ok ⟨.value false, .arr (v :: items) :: stack⟩
      else if c = ']' then .ok ⟨.after (.arr (v :: items).reverse), stack⟩
      else .error .value
    | .obj fields key :: stack =>
      if c = ',' then .ok ⟨.key false, .obj (setField fields key v) [] :: stack⟩
      else if c = '}' then .ok ⟨.after (.obj (setField fields key v)), stack⟩
      else .error .value

/-- The key of the field that is being read. -/
def setKey (key : Text) : List Frame → List Frame
  | .obj fields _ :: stack => .obj fields key :: stack
  | stack => stack

def isNumberChar (c : Char) : Bool :=
  c.isDigit || c = '-' || c = '+' || c = '.' || c = 'e' || c = 'E'

/-- One character. -/
def readChar (limit : ℕ) (decoder : Decoder) (c : Char) : Except LoadsError Decoder :=
  let stack := decoder.stack
  match decoder.reading with
  | .value orEnd =>
    if isJsonSpace c then .ok decoder
    else if c = ']' ∧ orEnd = true then .ok ⟨.after (.arr []), stack.tail⟩
    else startValue limit stack c
  | .key orEnd =>
    if isJsonSpace c then .ok decoder
    else if c = '}' ∧ orEnd = true then .ok ⟨.after (.obj []), stack.tail⟩
    else if c = '"' then .ok ⟨.str true [] none, stack⟩
    else .error .value
  | .colon key =>
    if isJsonSpace c then .ok decoder
    else if c = ':' then .ok ⟨.value false, setKey key stack⟩
    else .error .value
  | .after v => afterValue v stack c
  | .str isKey rev high => (readString isKey rev high c).map fun reading => ⟨reading, stack⟩
  | .escape isKey rev high => (readEscape isKey rev high c).map fun reading => ⟨reading, stack⟩
  | .hex isKey rev high digits =>
    (readHex isKey rev high digits c).map fun reading => ⟨reading, stack⟩
  | .literal rest v =>
    match rest with
    | [] => afterValue v stack c
    | d :: rest =>
      if c ≠ d then .error .value
      else .ok ⟨if rest.isEmpty then .after v else .literal rest v, stack⟩
  | .number rev =>
    if rev = ['-'] ∧ c = 'I' then .ok ⟨.literal "nfinity".toList (.num "-Infinity".toList), stack⟩
    else if isNumberChar c then .ok ⟨.number (c :: rev), stack⟩
    else (numberOf rev.reverse).bind fun v => afterValue v stack c

/-- The end of the document. -/
def finish (decoder : Decoder) : Except LoadsError Json :=
  match decoder.reading, decoder.stack with
  | .after v, [] => .ok v
  | .number rev, [] => numberOf rev.reverse
  | _, _ => .error .value

/-- `json.loads(t)`, where the interpreter lets the decoder open `limit` containers in each other. -/
def loads (limit : ℕ) (t : Text) : Except LoadsError Json :=
  if t.head? = some '\ufeff' then .error .value
  else (t.foldlM (readChar limit) ⟨.value false, []⟩).bind finish

example : loads 9 "[1, -2.5e3, \"x\\u0041\", null]".toList =
    .ok (.arr [.num ['1'], .num "-2.5e3".toList, .str "xA".toList, .null]) := rfl

/-! ### Documents that are nested too deep -/

theorem foldlM_brackets (limit : ℕ) (t : Text) (stack : List Frame) (n : ℕ) (orEnd : Bool)
    (hstack : stack.length ≤ limit) (h : limit < stack.length + n) :
    (List.replicate n '[' ++ t).foldlM (readChar limit) ⟨.value orEnd, stack⟩ = .error .recursion := by
  induction n generalizing stack orEnd with
  | zero => omega
  | succ n ih =>
    have hread : readChar limit ⟨.value orEnd, stack⟩ '[' =
        enter limit stack (.arr []) (.value true) := rfl
    rw [List.replicate_succ, List.cons_append, List.foldlM_cons, hread]
    by_cases hlimit : limit ≤ stack.length
    · rw [enter, if_pos hlimit]
      rfl
    · rw [enter, if_neg hlimit]
      have hlen : (Frame.arr [] :: stack).length = stack.length + 1 := List.length_cons
      exact ih (.arr [] :: stack) true (by omega) (by omega)

/-- **A document that opens one array too many raises the `RecursionError`**, whatever follows. -/
theorem loads_brackets (limit : ℕ) (t : Text) :
    loads limit (List.replicate (limit + 1) '[' ++ t) = .error .recursion := by
  have hhead : (List.replicate (limit + 1) '[' ++ t).head? ≠ some '\ufeff' := by
    rw [List.replicate_succ, List.cons_append, List.head?_cons]
    decide
  rw [loads, if_neg hhead, foldlM_brackets limit t [] (limit + 1) false (Nat.zero_le _) (by simp)]
  rfl

end Json

end Py
