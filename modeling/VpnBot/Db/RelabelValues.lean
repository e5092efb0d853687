import VpnBot.Db.RelabelSafety

/-!
# What the relabelling keeps

A row is kept when nothing but its label changes, in the columns and in the two payloads.  A payload that is no
object is replaced, and a row that is already on the scheme is not touched, so that its payloads may have another
label; `relabel_safe_iff` says that these and the collisions are all that can go wrong.
-/

namespace VpnBot.Db

open Py

variable {ρ : Type} {draw : ℕ → Suffix} {table : KeyTable ρ}

/-! ### Rows that are kept -/

/-- The field of the label. -/
def emailKey : Text := "email_label".toList

/-- The field of the display name. -/
def displayKey : Text := "display_name".toList

def linkKey : Text := "link".toList

/-- The values of a payload are those of another, but for the named ones. -/
def SameValues (named : List Text) : Option Json → Option Json → Prop
  | some (.obj fields), some (.obj fields') =>
    ∀ key ∉ named, (Json.obj fields').field? key = (Json.obj fields).field? key
  | before, after => before = after

/-- A display name with one label in the place of another. -/
def SameDisplay (old new : Option Text) (before after : Option Json) : Prop :=
  after = before ∨ ∃ label label' name, old = some label ∧ new = some label' ∧ before = some (.str name) ∧
    after = some (.str (replaceAll ('#' :: label) ('#' :: label') 0 name))

/-- A link with a label as its fragment. -/
def SameLink (new : Option Text) (before after : Option Json) : Prop :=
  after = before ∨ ∃ label link, new = some label ∧ before = some (.str link) ∧ '#' ∈ link ∧
    after = some (.str (beforeLast '#' link ++ '#' :: label))

/-- Nothing but the label of a row has changed. -/
structure Kept (r r' : KeyRow ρ) : Prop where
  columns : r'.setLabel r = r
  untouched : needsLabel r = false → r' = r
  payload : SameValues [emailKey] r.payload r'.payload
  publicPayload : SameValues [emailKey, displayKey, linkKey] r.publicPayload r'.publicPayload
  display : SameDisplay r.emailLabel r'.emailLabel (r.publicPayload.bind (·.field? displayKey))
    (r'.publicPayload.bind (·.field? displayKey))
  link : SameLink r'.emailLabel (r.publicPayload.bind (·.field? linkKey))
    (r'.publicPayload.bind (·.field? linkKey))

/-- The label of a row is on the scheme and stands in both payloads. -/
def OnScheme (r : KeyRow ρ) : Prop :=
  ∃ label, r.emailLabel = some label ∧ onNewScheme (some label) = true ∧
    (r.payload.bind (·.field? emailKey)) = some (.str label) ∧
    (r.publicPayload.bind (·.field? emailKey)) = some (.str label)

/-- The table at the end: the labels of the Xray keys are distinct and on the scheme, and nothing else changed. -/
structure Relabelled (table final : KeyTable ρ) : Prop where
  kept : List.Forall₂ Kept table.rows final.rows
  onScheme : ∀ r ∈ final.rows, r.isXray = true → OnScheme r
  distinct : ∀ r ∈ final.rows, ∀ s ∈ final.rows, r.isXray = true → s.isXray = true → r.id ≠ s.id →
    r.emailLabel ≠ s.emailLabel

/-- The migration ends well, and a second run changes nothing. -/
def Safe (draw : ℕ → Suffix) (table : KeyTable ρ) : Prop :=
  ∃ final, relabelXrayEmails draw table = some final ∧
    ((∀ r ∈ table.rows, needsLabel r = false) ∧ final = table ∨ Relabelled table final) ∧
    ∀ draw', relabelXrayEmails draw' final = some final

/-- The payloads of a row can be relabelled: they are objects, and those of a row that is left as it is have
its label. -/
def Relabellable (r : KeyRow ρ) : Prop :=
  if needsLabel r then (∃ fields, r.payload = some (.obj fields)) ∧ ∃ fields, r.publicPayload = some (.obj fields)
  else OnScheme r

/-! ### One row -/

theorem isObj_loadJson (payload : Option Json) : (loadJson payload).isObj = true := by
  unfold loadJson
  split <;> rfl

theorem sameValues_refl (named : List Text) (payload : Option Json) : SameValues named payload payload := by
  unfold SameValues
  split
  · exact fun _ _ => rfl
  · rfl

/-- A payload that has become an object was one. -/
theorem sameValues_obj {named : List Text} {before : Option Json} {after : Json} (hafter : after.isObj = true) :
    SameValues named before (some after) ↔
      ∃ fields, before = some (.obj fields) ∧ ∀ key ∉ named, after.field? key = (Json.obj fields).field? key := by
  cases after with
  | obj fields' =>
    constructor
    · intro h
      unfold SameValues at h
      split at h
      · rename_i fields fields'' heq
        cases heq
        exact ⟨fields, rfl, h⟩
      · exact ⟨fields', h, fun _ _ => rfl⟩
    · rintro ⟨fields, rfl, h⟩
      exact h
  | _ => cases hafter

theorem kept_refl (r : KeyRow ρ) : Kept r r :=
  ⟨rfl, fun _ => rfl, sameValues_refl _ _, sameValues_refl _ _, .inl rfl, .inl rfl⟩

section Renaming

variable {payload : Json} {key : Text}

theorem field?_renameDisplay (hobj : payload.isObj = true) (old new : Text) (hkey : key ≠ displayKey) :
    (renameDisplay old new payload).field? key = payload.field? key := by
  unfold renameDisplay
  split
  · rw [Json.field?_set hobj]
    exact if_neg hkey
  · rfl

theorem field?_renameLink (hobj : payload.isObj = true) (new : Text) (hkey : key ≠ linkKey) :
    (renameLink new payload).field? key = payload.field? key := by
  unfold renameLink
  split
  · split_ifs
    · rw [Json.field?_set hobj]
      exact if_neg hkey
    · rfl
  · rfl

theorem isObj_renameDisplay (old new : Text) : (renameDisplay old new payload).isObj = payload.isObj := by
  unfold renameDisplay
  split
  · exact Json.isObj_set _ _ _
  · rfl

theorem isObj_renameLink (new : Text) : (renameLink new payload).isObj = payload.isObj := by
  unfold renameLink
  split
  · split_ifs
    · exact Json.isObj_set _ _ _
    · rfl
  · rfl

theorem sameDisplay_renameDisplay (hobj : payload.isObj = true) (old new : Text) :
    SameDisplay (some old) (some new) (payload.field? displayKey)
      ((renameDisplay old new payload).field? displayKey) := by
  unfold renameDisplay
  split
  · rename_i name hname
    exact .inr ⟨old, new, name, rfl, rfl, hname, (Json.field?_set hobj _ _ _).trans (if_pos rfl)⟩
  · exact .inl rfl

theorem sameLink_renameLink (hobj : payload.isObj = true) (new : Text) :
    SameLink (some new) (payload.field? linkKey) ((renameLink new payload).field? linkKey) := by
  unfold renameLink
  split
  · rename_i link hlink
    split_ifs with hmark
    · exact .inr ⟨new, link, rfl, hlink, hmark, (Json.field?_set hobj _ _ _).trans (if_pos rfl)⟩
    · exact .inl rfl
  · exact .inl rfl

theorem emailKey_ne_displayKey : emailKey ≠ displayKey := by decide

theorem emailKey_ne_linkKey : emailKey ≠ linkKey := by decide

theorem displayKey_ne_linkKey : displayKey ≠ linkKey := by decide

theorem renamePublic_spec (hobj : payload.isObj = true) (old : Option Text) (new : Text) :
    (renamePublic old new payload).isObj = true ∧
    (∀ key ∉ [emailKey, displayKey, linkKey], (renamePublic old new payload).field? key = payload.field? key) ∧
    (renamePublic old new payload).field? emailKey = some (.str new) ∧
    SameDisplay old (some new) (payload.field? displayKey) ((renamePublic old new payload).field? displayKey) ∧
    SameLink (some new) (payload.field? linkKey) ((renamePublic old new payload).field? linkKey) := by
  let labelled := payload.set emailKey (.str new)
  have hlabelled : labelled.isObj = true := (Json.isObj_set _ _ _).trans hobj
  have hemail : labelled.field? emailKey = some (.str new) := (Json.field?_set hobj _ _ _).trans (if_pos rfl)
  have hother : ∀ key, key ≠ emailKey → labelled.field? key = payload.field? key :=
    fun key hkey => (Json.field?_set hobj _ _ _).trans (if_neg hkey)
  have hdisplay := hother displayKey emailKey_ne_displayKey.symm
  have hlink := hother linkKey emailKey_ne_linkKey.symm
  cases hold : old.filter (!·.isEmpty) with
  | none =>
    have heq : renamePublic old new payload = labelled := by
      rw [renamePublic, hold]
      rfl
    rw [heq]
    refine ⟨hlabelled, fun key hkey => hother key ?_, hemail, .inl hdisplay, .inl hlink⟩
    exact fun h => hkey (h ▸ List.mem_cons_self)
  | some label =>
    have heq : renamePublic old new payload = renameLink new (renameDisplay label new labelled) := by
      rw [renamePublic, hold]
      rfl
    obtain rfl : old = some label := (Option.filter_eq_some_iff.mp hold).1
    have hshown : (renameDisplay label new labelled).isObj = true := (isObj_renameDisplay _ _).trans hlabelled
    rw [heq]
    refine ⟨(isObj_renameLink _).trans hshown, fun key hkey => ?_, ?_, ?_, ?_⟩
    · simp only [List.mem_cons, List.not_mem_nil, or_false, not_or] at hkey
      rw [field?_renameLink hshown _ hkey.2.2, field?_renameDisplay hlabelled _ _ hkey.2.1, hother key hkey.1]
    · rw [field?_renameLink hshown _ emailKey_ne_linkKey,
        field?_renameDisplay hlabelled _ _ emailKey_ne_displayKey, hemail]
    · rw [field?_renameLink hshown _ displayKey_ne_linkKey, ← hdisplay]
      exact sameDisplay_renameDisplay hlabelled label new
    · rw [← hlink, ← field?_renameDisplay hlabelled label new displayKey_ne_linkKey.symm]
      exact sameLink_renameLink hshown new

end Renaming

variable {r : KeyRow ρ}

theorem relabelled_of_needsLabel (h : needsLabel r = true) : relabelled draw r = relabelRow (draw r.id) r := by
  rw [relabelled, stage, h]
  rfl

theorem relabelled_of_not_needsLabel (h : needsLabel r = false) : relabelled draw r = r := by
  rw [relabelled, stage, h]
  rfl

theorem onScheme_relabelRow (drawn : Suffix) (r : KeyRow ρ) : OnScheme (relabelRow drawn r) := by
  refine ⟨newLabel drawn r, rfl, onNewScheme_newLabel drawn r, ?_, ?_⟩
  · exact (Json.field?_set (isObj_loadJson _) _ _ _).trans (if_pos rfl)
  · exact (renamePublic_spec (isObj_loadJson _) _ _).2.2.1

theorem kept_relabelRow {fields fields' : List (Text × Json)} (drawn : Suffix) (hneeds : needsLabel r = true)
    (hpayload : r.payload = some (.obj fields)) (hpublic : r.publicPayload = some (.obj fields')) :
    Kept r (relabelRow drawn r) := by
  have hload : loadJson r.payload = .obj fields := by rw [hpayload]; rfl
  have hload' : loadJson r.publicPayload = .obj fields' := by rw [hpublic]; rfl
  obtain ⟨hobj, hothers, -, hdisplay, hlink⟩ :=
    renamePublic_spec (isObj_loadJson r.publicPayload) r.emailLabel (newLabel drawn r)
  rw [hload'] at hothers hdisplay hlink
  refine ⟨rfl, fun h => absurd (hneeds.symm.trans h) (by decide), ?_, ?_, ?_, ?_⟩
  · refine (sameValues_obj ((Json.isObj_set _ _ _).trans (isObj_loadJson _))).mpr ⟨fields, hpayload, ?_⟩
    intro key hkey
    rw [Json.field?_set (isObj_loadJson _), hload]
    exact if_neg fun h => hkey (List.mem_singleton.mpr h)
  · refine (sameValues_obj hobj).mpr ⟨fields', hpublic, fun key hkey => ?_⟩
    rw [hload']
    exact hothers key hkey
  · rw [hpublic]
    simpa only [relabelRow, hload', Option.bind_some] using hdisplay
  · rw [hpublic]
    simpa only [relabelRow, hload', Option.bind_some] using hlink

theorem obj_of_kept {drawn : Suffix} (h : Kept r (relabelRow drawn r)) :
    (∃ fields, r.payload = some (.obj fields)) ∧ ∃ fields, r.publicPayload = some (.obj fields) := by
  obtain ⟨fields, hpayload, -⟩ :=
    (sameValues_obj ((Json.isObj_set _ _ _).trans (isObj_loadJson r.payload))).mp h.payload
  obtain ⟨fields', hpublic, -⟩ :=
    (sameValues_obj (renamePublic_spec (isObj_loadJson r.publicPayload) _ _).1).mp h.publicPayload
  exact ⟨⟨fields, hpayload⟩, fields', hpublic⟩

/-! ### The whole table -/

theorem needsLabel_relabelled (r : KeyRow ρ) : needsLabel (relabelled draw r) = false := by
  cases hneeds : needsLabel r with
  | false => rw [relabelled_of_not_needsLabel hneeds, hneeds]
  | true =>
    rw [relabelled_of_needsLabel hneeds, needsLabel, show (relabelRow (draw r.id) r).emailLabel =
      some (newLabel (draw r.id) r) from rfl, onNewScheme_newLabel, Bool.not_true, Bool.and_false]

theorem isXray_relabelled (r : KeyRow ρ) : (relabelled draw r).isXray = r.isXray := by
  unfold relabelled stage
  split_ifs <;> rfl

theorem relabelXrayEmails_eq_self (h : ∀ r ∈ table.rows, needsLabel r = false) :
    relabelXrayEmails draw table = some table := by
  refine relabelXrayEmails_eq_some_iff.mpr ?_
  have hkept : ∀ r ∈ table.rows, relabelled draw r = id r :=
    fun r hr => relabelled_of_not_needsLabel (h r hr)
  rw [List.map_congr_left hkept, List.map_id]

theorem relabelled_of_rows {final : KeyTable ρ} (hrows : final.rows = table.rows.map (relabelled draw))
    (h : ∀ r ∈ table.rows, r.isXray = true → Relabellable r) : Relabelled table final where
  kept := by
    rw [hrows, List.forall₂_map_right_iff, List.forall₂_same]
    intro r hr
    cases hneeds : needsLabel r with
    | false =>
      rw [relabelled_of_not_needsLabel hneeds]
      exact kept_refl r
    | true =>
      have hxray : r.isXray = true := (Bool.and_eq_true_iff.mp hneeds).1
      have hobjects := h r hr hxray
      rw [Relabellable, if_pos hneeds] at hobjects
      obtain ⟨⟨fields, hpayload⟩, fields', hpublic⟩ := hobjects
      rw [relabelled_of_needsLabel hneeds]
      exact kept_relabelRow _ hneeds hpayload hpublic
  onScheme := by
    intro final' hfinal hxray
    rw [hrows] at hfinal
    obtain ⟨r, hr, rfl⟩ := List.mem_map.mp hfinal
    rw [isXray_relabelled] at hxray
    cases hneeds : needsLabel r with
    | false =>
      have honScheme := h r hr hxray
      rw [Relabellable, if_neg (ne_true_of_eq_false hneeds)] at honScheme
      rw [relabelled_of_not_needsLabel hneeds]
      exact honScheme
    | true =>
      rw [relabelled_of_needsLabel hneeds]
      exact onScheme_relabelRow _ r
  distinct := by
    intro r hr s hs hxray _ hid heq
    have hne : r ≠ s := fun h => hid (h ▸ rfl)
    have hapart : LabelsApart r s := final.labels.forall hr hs hne
    rw [hrows] at hr
    obtain ⟨row, hrow, rfl⟩ := List.mem_map.mp hr
    rw [isXray_relabelled] at hxray
    cases hneeds : needsLabel row with
    | false =>
      have honScheme := h row hrow hxray
      rw [Relabellable, if_neg (ne_true_of_eq_false hneeds)] at honScheme
      rw [relabelled_of_not_needsLabel hneeds] at heq hapart
      obtain ⟨label, hlabel, -⟩ := honScheme
      exact hapart label hlabel (heq ▸ hlabel)
    | true =>
      have hlabel : (relabelled draw row).emailLabel = some (newLabel (draw row.id) row) := by
        rw [relabelled_of_needsLabel hneeds]
        rfl
      exact hapart _ hlabel (heq ▸ hlabel)

/-- **The migration is safe exactly when no labels collide and, unless there is nothing to relabel, the payloads
are objects and those of the keys that keep their label have it.** -/
theorem relabel_safe_iff (draw : ℕ → Suffix) (table : KeyTable ρ) :
    Safe draw table ↔ NoCollision draw table ∧
      ((∀ r ∈ table.rows, needsLabel r = false) ∨ ∀ r ∈ table.rows, r.isXray = true → Relabellable r) := by
  constructor
  · rintro ⟨final, hrun, houtcome, -⟩
    have hrows := relabelXrayEmails_eq_some_iff.mp hrun
    refine ⟨pairwise_relabelled_iff.mp (hrows ▸ final.labels), houtcome.imp And.left fun hend r hr hxray => ?_⟩
    have hmem : relabelled draw r ∈ final.rows := hrows ▸ List.mem_map_of_mem hr
    have honScheme := hend.onScheme _ hmem ((isXray_relabelled r).trans hxray)
    have hkept := hend.kept
    rw [hrows, List.forall₂_map_right_iff, List.forall₂_same] at hkept
    have hrow := hkept r hr
    unfold Relabellable
    cases hneeds : needsLabel r with
    | false =>
      rw [relabelled_of_not_needsLabel hneeds] at honScheme
      exact honScheme
    | true =>
      rw [relabelled_of_needsLabel hneeds] at hrow
      exact obj_of_kept hrow
  · rintro ⟨hapart, houtcome⟩
    have hids : (table.rows.map (relabelled draw)).map KeyRow.id = table.rows.map KeyRow.id := by
      rw [List.map_map]
      exact List.map_congr_left fun r _ => id_stage _ r
    let final : KeyTable ρ := ⟨_, hids ▸ table.ids, pairwise_relabelled_iff.mpr hapart⟩
    have hrun : relabelXrayEmails draw table = some final := relabelXrayEmails_eq_some_iff.mpr rfl
    refine ⟨final, hrun, ?_, fun draw' => relabelXrayEmails_eq_self fun r hr => ?_⟩
    · rcases houtcome with hnone | hrows
      · rw [relabelXrayEmails_eq_self hnone, Option.some_inj] at hrun
        exact .inl ⟨hnone, hrun.symm⟩
      · exact .inr (relabelled_of_rows rfl hrows)
    · obtain ⟨r, -, rfl⟩ := List.mem_map.mp hr
      exact needsLabel_relabelled r

/-! ### Two keys with one suffix -/

def tcpKey (id : ℕ) (label : String) : KeyRow Unit where
  id := id
  isXray := true
  emailLabel := some label.toList
  transport := some "tcp".toList
  payload := some (.obj [])
  publicPayload := some (.obj [])
  uuid := none
  status := "active".toList
  ownerUserId := 7
  others := ()

/-- Two keys whose labels end in the same five characters. -/
def twoPrefixes : KeyTable Unit :=
  ⟨[tcpKey 1 "xray_AbC12", tcpKey 2 "old_AbC12"], by decide, by decide +kernel⟩

/-- Two keys of one transport whose labels end in the same five characters get one label, and the migration ends
with an error. -/
theorem two_prefixes_collide : ¬∀ (table : KeyTable Unit) (draw : ℕ → Suffix), Safe draw table := by
  intro h
  obtain ⟨final, hrun, -⟩ := h twoPrefixes fun _ => ⟨"zzzzz".toList, by decide +kernel⟩
  have hnone : (relabelXrayEmails (fun _ => ⟨"zzzzz".toList, by decide +kernel⟩) twoPrefixes).isNone = true := by
    decide +kernel
  rw [hrun] at hnone
  cases hnone

end VpnBot.Db
