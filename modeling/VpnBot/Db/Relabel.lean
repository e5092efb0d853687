import Mathlib.Data.List.Basic
import VpnBot.Python.Json
import VpnBot.Python.Lines

/-!
# The relabelling of the Xray keys

`_relabel_xray_emails_v28` of `src/db/database.py`.  The keys of a transport that are not on the new scheme get
its label with their old suffix of five characters, or with one that is drawn.  Each row is written by its own
`UPDATE` under the unique index of the labels.

A payload column, which is never null, is the JSON that its text encodes, `none` for a text that is no JSON; a
key that stands more than once in an object counts once, and no string has a lone surrogate.  The drawn suffixes
are a function of the row.
-/

namespace VpnBot.Db

open Py

/-! ### The table -/

/-- A row of `vpn_keys`; `others` are the columns that no statement here names. -/
structure KeyRow (ρ : Type) where
  id : ℕ
  isXray : Bool
  emailLabel : Option Text
  transport : Option Text
  payload : Option Json
  publicPayload : Option Json
  uuid : Option Text
  status : Text
  ownerUserId : ℤ
  others : ρ

/-- Two rows do not have the same label. -/
def LabelsApart {ρ : Type} (r s : KeyRow ρ) : Prop := ∀ label ∈ r.emailLabel, s.emailLabel ≠ some label

instance {ρ : Type} (r s : KeyRow ρ) : Decidable (LabelsApart r s) :=
  inferInstanceAs (Decidable (∀ label ∈ r.emailLabel, s.emailLabel ≠ some label))

/-- The table, with its primary key and the unique index of the labels. -/
structure KeyTable (ρ : Type) where
  rows : List (KeyRow ρ)
  ids : (rows.map KeyRow.id).Nodup
  labels : rows.Pairwise LabelsApart

variable {ρ : Type}

/-- `UPDATE vpn_keys SET … WHERE id = ?`; `none` is the `IntegrityError` of the index. -/
def KeyTable.update (table : KeyTable ρ) (id : ℕ) (f : KeyRow ρ → KeyRow ρ) (hid : ∀ r, (f r).id = r.id) :
    Option (KeyTable ρ) :=
  let rows := table.rows.map fun r => if r.id = id then f r else r
  if h : rows.Pairwise LabelsApart then
    some ⟨rows, by
      have hids : rows.map KeyRow.id = table.rows.map KeyRow.id := by
        rw [List.map_map]
        refine List.map_congr_left fun r _ => ?_
        rw [Function.comp_apply]
        split_ifs
        · exact hid r
        · rfl
      rw [hids]
      exact table.ids, h⟩
  else none

/-! ### The labels -/

/-- `_V28_NEW_PREFIXES`. -/
def V28_NEW_PREFIXES : List Text :=
  ["xray_tcp_".toList, "xray_http_base_".toList, "xray_http_multi_".toList, "xray_http_antisib_".toList]

/-- `_V28_SUFFIX_RE`. -/
def isSuffix (t : Text) : Bool := t.length = 5 && t.all fun c => c.isAlphanum

/-- A suffix that is drawn from `_V28_ALPHABET`. -/
abbrev Suffix := {t : Text // isSuffix t = true}

/-- `text.rsplit("_", 1)[-1]`. -/
def afterLast (c : Char) (t : Text) : Text := (splitOnce c t.reverse).elim t fun parts => parts.1.reverse

/-- `_v28_suffix_for`. -/
def suffixFor (email : Option Text) (drawn : Suffix) : Text :=
  match email.filter (!·.isEmpty) with
  | none => drawn.1
  | some text =>
    let candidate := if startsWith "xray_".toList text then text.drop 5 else afterLast '_' text
    if isSuffix candidate then candidate else drawn.1

/-- A label that is left as it is. -/
def onNewScheme (email : Option Text) : Bool :=
  (email.filter (!·.isEmpty)).any fun text => V28_NEW_PREFIXES.any fun scheme => startsWith scheme text

/-- The transport of a row is `http`. -/
def isHttp (transport : Option Text) : Bool :=
  (strip ((transport.filter (!·.isEmpty)).getD "tcp".toList)).map Char.toLower = "http".toList

def schemeOf (http : Bool) : Text := if http then "xray_http_base_".toList else "xray_tcp_".toList

/-- The label that a row gets. -/
def newLabel (drawn : Suffix) (row : KeyRow ρ) : Text :=
  schemeOf (isHttp row.transport) ++ suffixFor row.emailLabel drawn

/-! ### The payloads -/

/-- `_v28_load_json`. -/
def loadJson : Option Json → Json
  | some (.obj fields) => .obj fields
  | _ => .obj []

/-- `t.replace(old, new)`; the number counts the characters that are still to be skipped. -/
def replaceAll (old new : Text) : ℕ → Text → Text
  | _, [] => []
  | skipped + 1, _ :: t => replaceAll old new skipped t
  | 0, c :: t =>
    if startsWith old (c :: t) then new ++ replaceAll old new (old.length - 1) t
    else c :: replaceAll old new 0 t

/-- The display name with the new label. -/
def renameDisplay (old new : Text) (payload : Json) : Json :=
  match payload.field? "display_name".toList with
  | some (.str name) => payload.set "display_name".toList (.str (replaceAll ('#' :: old) ('#' :: new) 0 name))
  | _ => payload

/-- The link with the new label as its fragment. -/
def renameLink (new : Text) (payload : Json) : Json :=
  match payload.field? "link".toList with
  | some (.str link) =>
    if '#' ∈ link then payload.set "link".toList (.str (beforeLast '#' link ++ '#' :: new)) else payload
  | _ => payload

/-- The public payload with the new label. -/
def renamePublic (old : Option Text) (new : Text) (payload : Json) : Json :=
  let payload := payload.set "email_label".toList (.str new)
  match old.filter (!·.isEmpty) with
  | none => payload
  | some old => renameLink new (renameDisplay old new payload)

/-- The row with its new label. -/
def relabelRow (drawn : Suffix) (row : KeyRow ρ) : KeyRow ρ :=
  let label := newLabel drawn row
  { row with
    emailLabel := some label
    payload := some ((loadJson row.payload).set "email_label".toList (.str label))
    publicPayload := some (renamePublic row.emailLabel label (loadJson row.publicPayload)) }

/-! ### The migration -/

/-- The columns that the statement sets. -/
def KeyRow.setLabel (r new : KeyRow ρ) : KeyRow ρ :=
  { r with emailLabel := new.emailLabel, payload := new.payload, publicPayload := new.publicPayload }

/-- The loop over the rows that were read. -/
def relabelLoop (draw : ℕ → Suffix) : List (KeyRow ρ) → KeyTable ρ → Option (KeyTable ρ)
  | [], table => some table
  | row :: rows, table =>
    if onNewScheme row.emailLabel then relabelLoop draw rows table
    else do
      let table ← table.update row.id (·.setLabel (relabelRow (draw row.id) row)) fun _ => rfl
      relabelLoop draw rows table

/-- `_relabel_xray_emails_v28`; `none` is an `IntegrityError`, which ends the migration. -/
def relabelXrayEmails (draw : ℕ → Suffix) (table : KeyTable ρ) : Option (KeyTable ρ) :=
  relabelLoop draw (table.rows.filter KeyRow.isXray) table

end VpnBot.Db
