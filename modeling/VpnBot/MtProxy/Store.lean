import VpnBot.Python.JsonRead
import VpnBot.Python.Sorting
import VpnBot.Warp.FeedFetch
import Mathlib.Data.Char
import Mathlib.Data.List.Lex
import Mathlib.Data.Prod.Lex

/-!
# The store of the MTProxy secrets

`src/adapters/mtproxy.py` keeps the secrets of the users in a JSON document beside the environment file of the
service.  This file has the document: the secrets in order with one for each fingerprint (`normalizeSecrets`), the
document that is written (`storeDocument`) with a placeholder where there is no secret, and the two ways of reading
it back (`documentUserSecrets`, `runtimeSecrets`).

What `str` gives for a list or a dictionary and `int` for a float is a parameter (`Interpreter`).
-/

namespace VpnBot.MtProxy

open Py

/-! ### Values of the interpreter -/

/-- An integer whose text is not too long for `str` and `int`. -/
def Short (n : ℤ) : Prop := n.natAbs < 10 ^ maxStrDigits

/-- The limits of the interpreter, and what it makes of the values that no document of the adapter has. -/
structure Interpreter where
  /-- How many containers `json.loads` opens in each other. -/
  limit : ℕ
  three_le_limit : 3 ≤ limit
  float : Json.FloatRepr
  /-- `str` of a list or of a dictionary. -/
  containerText : Json → Text
  /-- `int` of a finite float. -/
  truncate : Text → ℤ
  truncate_short : ∀ r, Short (truncate r)

/-- What `int(value)` raises. -/
inductive IntError
  | typeOrValue
  | overflow

variable (p : Interpreter)

/-- `str(value)`. -/
def Interpreter.str : Json → Text
  | .null => "None".toList
  | .bool true => "True".toList
  | .bool false => "False".toList
  | .num r =>
    if r = "NaN".toList then "nan".toList
    else if r = "Infinity".toList then "inf".toList
    else if r = "-Infinity".toList then "-inf".toList
    else r
  | .str t => t
  | v => p.containerText v

/-- `str(value or "")`. -/
def Interpreter.strOr (v : Json) : Text := if v.truthy then p.str v else []

/-- `int(text)`. -/
def intOfText (t : Text) : Except IntError ℤ :=
  match parseInt t with
  | some n => .ok n
  | none => .error .typeOrValue

/-- `int(value)`. -/
def Interpreter.int : Json → Except IntError ℤ
  | .bool b => .ok (if b then 1 else 0)
  | .num r =>
    if Json.isIntToken r then intOfText r
    else if r = "NaN".toList then .error .typeOrValue
    else if r = "Infinity".toList ∨ r = "-Infinity".toList then .error .overflow
    else .ok (p.truncate r)
  | .str t => intOfText t
  | _ => .error .typeOrValue

/-! ### Secrets -/

/-- `MtProxyManagedSecret`. -/
structure ManagedSecret where
  secret : Text
  fingerprint : Text
  ownerUserId : Option ℤ
  accessId : Option ℤ
  deriving DecidableEq

/-- A digit of a numeral of base 16, a decimal digit of any script. -/
def isHexDigit (c : Char) : Bool := (Json.hexDigit c).isSome || (digitValue c).isSome

/-- `0x` or `0X` in front, with the underscore that may follow it. -/
def dropHexMark : Text → Text
  | z :: x :: t =>
    if digitValue z = some 0 ∧ (x = 'x' ∨ x = 'X') then (if t.head? = some '_' then t.tail else t) else z :: x :: t
  | t => t

/-- `int(text, 16)` does not raise. -/
def isHexNumeral (t : Text) : Bool :=
  let unsigned := match strip t with
    | '-' :: r => r
    | '+' :: r => r
    | r => r
  let groups := (dropHexMark unsigned).splitOn '_'
  groups.all fun g => !g.isEmpty && g.all isHexDigit

/-- `_validate_secret`. -/
def validateSecret (secret : Text) : Except Text Unit :=
  if secret.length ≠ 32 then .error "MTProto secret must be 32 hex characters".toList
  else if isHexNumeral secret then .ok ()
  else .error "MTProto secret must be hex".toList

/-- The loop of `_normalize_secrets`: a secret whose fingerprint has been seen is skipped after its check. -/
def normalizeLoop (seen : List Text) : List ManagedSecret → Except Text (List ManagedSecret)
  | [] => .ok []
  | item :: items => do
    validateSecret item.secret
    if item.fingerprint ∈ seen then normalizeLoop seen items
    else return item :: (← normalizeLoop (item.fingerprint :: seen) items)

def ManagedSecret.key (item : ManagedSecret) : Lex (Text × Text) := toLex (item.fingerprint, item.secret)

/-- `_normalize_secrets`. -/
def normalizeSecrets (secrets : List ManagedSecret) : Except Text (List ManagedSecret) :=
  normalizeLoop [] (sortedBy ManagedSecret.key secrets)

/-- `_same_secret_set`; all four fields are compared. -/
def sameSecretSet (left right : List ManagedSecret) : Bool :=
  left.all (· ∈ right) && right.all (· ∈ left)

/-! ### Reading a document -/

/-- An integer in a document. -/
def number (n : ℤ) : Json := .num (intText n)

/-- `_secret_dict`. -/
def secretDict (item : ManagedSecret) : Json :=
  .obj ([("secret".toList, .str item.secret), ("fingerprint".toList, .str item.fingerprint)] ++
    item.ownerUserId.toList.map (fun n => ("owner_user_id".toList, number n)) ++
    item.accessId.toList.map fun n => ("access_id".toList, number n))

/-- `_optional_int`; an `OverflowError` is not caught. -/
def optionalInt (v : Json) : Except Text (Option ℤ) :=
  match v with
  | .null => .ok none
  | v =>
    match p.int v with
    | .ok n => .ok (some n)
    | .error .typeOrValue => .ok none
    | .error .overflow => .error "cannot convert float infinity to integer".toList

/-- The secret of an item, none for an item that is skipped. -/
def secretOf (item : Json) : Except Text (Option ManagedSecret) :=
  let rawSecret := p.strOr (item.field "secret".toList)
  let fingerprint := p.strOr (item.field "fingerprint".toList)
  if !item.isObj || rawSecret.isEmpty || fingerprint.isEmpty then .ok none
  else do
    let ownerUserId ← optionalInt p (item.field "owner_user_id".toList)
    let accessId ← optionalInt p (item.field "access_id".toList)
    return some ⟨rawSecret, fingerprint, ownerUserId, accessId⟩

/-- The secrets of some items. -/
def secretsOf (items : List Json) : Except Text (List ManagedSecret) := do
  let found ← items.mapM (secretOf p)
  normalizeSecrets found.reduceOption

/-- `_document_user_secrets`. -/
def documentUserSecrets (document : Json) : Except Text (List ManagedSecret) :=
  match document.field "secrets".toList with
  | .arr items => secretsOf p items
  | _ => .ok []

/-- The name of the placeholder, also its fingerprint. -/
def emptyPlaceholder : Text := "empty-placeholder".toList

/-- An item that is skipped among the secrets of the runtime. -/
def isPlaceholder (item : Json) : Bool :=
  (item.field "purpose".toList).isStr emptyPlaceholder || (item.field "fingerprint".toList).isStr emptyPlaceholder

/-- What `read_runtime_managed_secrets` makes of the document. -/
def runtimeSecrets (document : Json) : Except Text (List ManagedSecret) :=
  match document.field "runtime_secrets".toList with
  | .arr items => secretsOf p (items.filter fun item => !isPlaceholder item)
  | _ => documentUserSecrets p document

/-- `int(document.get("generation") or 0)`. -/
def generationOf (document : Json) : Except Text ℤ :=
  let value := document.field "generation".toList
  if !value.truthy then .ok 0
  else
    match p.int value with
    | .ok n => .ok n
    | .error .typeOrValue => .error "generation is not an integer".toList
    | .error .overflow => .error "cannot convert float infinity to integer".toList

/-! ### Writing a document -/

def newPlaceholder (token : Text) : Json :=
  .obj [("secret".toList, .str token), ("fingerprint".toList, .str emptyPlaceholder),
    ("purpose".toList, .str emptyPlaceholder)]

/-- A placeholder that is carried over. -/
def keepsPlaceholder (item : Json) : Bool :=
  item.isObj && (item.field "purpose".toList).isStr emptyPlaceholder && (item.field "secret".toList).truthy

/-- `_empty_runtime_placeholder`; the loop goes over a list, the keys of a dictionary or the letters of a text, and
raises for any other value.  `token` is what `token_hex` gives. -/
def emptyRuntimePlaceholder (token : Text) (current : Json) : Except Text Json :=
  match current.field? "runtime_secrets".toList with
  | none => .ok (newPlaceholder token)
  | some (.arr items) => .ok ((items.find? keepsPlaceholder).getD (newPlaceholder token))
  | some (.obj _) => .ok (newPlaceholder token)
  | some (.str _) => .ok (newPlaceholder token)
  | some _ => .error "object is not iterable".toList

/-- The document with these secrets and those of the runtime. -/
def documentOf (generation : ℤ) (secrets runtime : List Json) : Json :=
  .obj [("version".toList, number 1), ("generation".toList, number generation),
    ("managed_by".toList, .str "vpn-bot".toList), ("secrets".toList, .arr secrets),
    ("runtime_secrets".toList, .arr runtime)]

/-- `_store_document`; without a generation, that of the current document is kept. -/
def storeDocument (token : Text) (secrets : List ManagedSecret) (current : Json) (generation : Option ℤ) :
    Except Text Json := do
  let normalized ← normalizeSecrets secrets
  let generationValue ← generation.elim (generationOf p current) .ok
  let items := normalized.map secretDict
  if items.isEmpty then
    let placeholder ← emptyRuntimePlaceholder token current
    return documentOf generationValue items [placeholder]
  else return documentOf generationValue items items

/-! ### The file -/

/-- `_json_dump`. -/
def jsonDump (document : Json) : Text := document.dumps ++ ['\n']

def noDocument : Json :=
  .obj [("version".toList, number 1), ("generation".toList, number 0), ("secrets".toList, .arr []),
    ("runtime_secrets".toList, .arr [])]

/-- `_read_store_document`, on the text of the file; the `RecursionError` and the `ValueError` of an integer with too
many digits have the message of invalid JSON here. -/
def readStoreDocument (file : Option Text) : Except Text Json :=
  match file with
  | none => .ok noDocument
  | some text =>
    match Json.read p.limit p.float (Warp.universalNewlines text) with
    | .error _ => .error "MTProxy managed secrets file contains invalid JSON".toList
    | .ok data => if data.isObj then .ok data else .error "MTProxy managed secrets file must be a JSON object".toList

/-- `read_current_managed_secrets`. -/
def readCurrentManagedSecrets (file : Option Text) : Except Text (List ManagedSecret) := do
  documentUserSecrets p (← readStoreDocument p file)

/-- `read_runtime_managed_secrets`. -/
def readRuntimeManagedSecrets (file : Option Text) : Except Text (List ManagedSecret) := do
  runtimeSecrets p (← readStoreDocument p file)

/-- `write_managed_secrets_atomically`: the text of the new file. -/
def writeManagedSecrets (token : Text) (secrets : List ManagedSecret) (file : Option Text) : Except Text Text := do
  let current ← readStoreDocument p file
  let document ← storeDocument p token secrets current none
  return jsonDump document

end VpnBot.MtProxy
