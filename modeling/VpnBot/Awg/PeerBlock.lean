import VpnBot.Awg.ContentScan
import VpnBot.Awg.DirectPeers

/-!
# The block of a new peer

The lines that `_peer_block` writes for values that have passed the checks: none of them is blank, none is
broken (`isLineBreak_of_mem_blockLines`), and their options are those of the call (`addOptions_bodyLines`).  The
new config is the old one and these lines (`contentLines_appended`).
-/

namespace VpnBot.Awg

open Py

variable {c : AddCall} {original updated : Text}

/-! ### The values -/

def AddCall.shownLabel (c : AddCall) : Option Text := c.label.filter fun l => !l.isEmpty

/-- The value of the last option. -/
def AddCall.allowedIps (c : AddCall) : Text := c.clientIp ++ "/32".toList

/-- The options of the new section. -/
def AddCall.options (c : AddCall) : Options :=
  let keyed := Dict.empty.set publicKeyOption c.publicKey
  (c.presharedKey.elim keyed fun preshared => keyed.set "PresharedKey".toList preshared).set
    "AllowedIPs".toList c.allowedIps

/-- The address has no line break and does not begin with white space. -/
def Harmless (clientIp : Text) : Prop :=
  (∀ ch ∈ clientIp, isLineBreak ch = false) ∧ ∀ ch ∈ clientIp.head?, isSpace ch = false

/-! ### Lines with an option -/

def optionLine (key value : Text) : Text := key ++ " = ".toList ++ value

/-- The names of the three options can stand in front of a value. -/
structure PlainKey (key : Text) : Prop where
  no_space : ∀ ch ∈ key, isSpace ch = false
  no_equals : '=' ∉ key
  comment : isComment key = false
  header : startsWith ['['] key = false
  nonempty : key ≠ []

theorem plainKey_of_mem {key : Text} (h : key ∈ CRITICAL_PEER_KEYS) : PlainKey key := by
  simp only [CRITICAL_PEER_KEYS, List.map_cons, List.map_nil, List.mem_cons, List.not_mem_nil, or_false] at h
  rcases h with rfl | rfl | rfl <;>
    exact ⟨forall_mem_of_all (by decide), by decide, by decide, by decide, by decide⟩

variable {key value : Text}

theorem PlainKey.line (h : PlainKey key) (value : Text) :
    isHeader (optionLine key value) = false ∧ isComment (optionLine key value) = false ∧
      (optionLine key value).isEmpty = false := by
  obtain ⟨ch, rest, rfl⟩ := List.exists_cons_of_ne_nil h.nonempty
  have hheader := h.header
  have hcomment := h.comment
  simp only [startsWith, isComment, List.isPrefixOf, Bool.and_true, beq_eq_false_iff_ne] at hheader hcomment
  refine ⟨?_, ?_, rfl⟩
  · simp [isHeader, optionLine, startsWith, hheader]
  · simp [isComment, optionLine, startsWith, List.isPrefixOf, hcomment]

theorem strip_append {front back : Text} (hfront : ∀ ch ∈ front.head?, isSpace ch = false) (hne : front ≠ [])
    (hback : ∀ ch ∈ back, isSpace ch = false) (hne' : back ≠ []) : strip (front ++ back) = front ++ back := by
  refine strip_of_ends (fun ch hch => ?_) fun ch hch => ?_
  · obtain ⟨d, rest, rfl⟩ := List.exists_cons_of_ne_nil hne
    exact hfront ch hch
  · rw [List.getLast?_append_of_ne_nil _ hne'] at hch
    exact hback ch (List.mem_of_mem_getLast? hch)

theorem PlainKey.optionOf (h : PlainKey key) (hstrip : strip (optionLine key value) = optionLine key value) :
    optionOf (strip (optionLine key value)) = some (key, strip value) := by
  obtain ⟨-, hcomment, hempty⟩ := h.line value
  have hsplit : splitOnce '=' (optionLine key value) = some (key ++ [' '], ' ' :: value) := by
    have hkey : '=' ∉ key ++ [' '] := by
      rw [List.mem_append, not_or]
      exact ⟨h.no_equals, by decide⟩
    rw [← splitOnce_append hkey]
    simp [optionLine]
  have hname : strip (key ++ [' ']) = key := by
    rw [strip_append_of_forall (by simp [isSpace]), strip_eq_self h.no_space]
  rw [hstrip, Awg.optionOf, hcomment, hempty, hsplit]
  simp only [Bool.or_self, Bool.false_eq_true, if_false, Option.map_some, hname,
    strip_cons_of_isSpace (show isSpace ' ' = true by decide)]

theorem PlainKey.addOption (h : PlainKey key) {options : Options} (hnew : options.get? key = none)
    (hstrip : strip (optionLine key value) = optionLine key value) :
    addOption "Peer".toList options (optionLine key value) = .ok (options.set key (strip value)) := by
  have hreject : rejectDuplicateCriticalKey "Peer".toList options key = .ok () := by
    rw [rejectDuplicateCriticalKey, Dict.contains, hnew]
    simp
  rw [Awg.addOption, h.optionOf hstrip]
  simp only [hreject]
  rfl

/-! ### The lines of a block -/

def AddCall.bodyLines (c : AddCall) : List Text :=
  optionLine publicKeyOption c.publicKey ::
    (c.presharedKey.toList.map (optionLine "PresharedKey".toList) ++ [optionLine "AllowedIPs".toList c.allowedIps])

/-- The start marker of the block. -/
def AddCall.startLine (c : AddCall) : Text := startMarker c.keyId c.ownerUserId c.shownLabel

def AddCall.blockLines (c : AddCall) : List Text :=
  c.startLine :: "[Peer]".toList :: (c.bodyLines ++ [endMarker c.keyId])

/-- What the checks say of the values. -/
structure AddCall.Checked (c : AddCall) : Prop where
  publicKey : c.publicKey ≠ [] ∧ ∀ ch ∈ c.publicKey, isSpace ch = false
  presharedKey : ∀ preshared ∈ c.presharedKey, preshared ≠ [] ∧ ∀ ch ∈ preshared, isSpace ch = false
  label : ∀ label ∈ c.shownLabel, label ≠ [] ∧ ∀ ch ∈ label, isSpace ch = false

theorem isSpace_of_hasControlOrSpace {t : Text} (h : hasControlOrSpace t = false) :
    ∀ ch ∈ t, isSpace ch = false := by
  intro ch hch
  rw [hasControlOrSpace, List.any_eq_false] at h
  have hnone := h ch hch
  simp only [Bool.or_eq_true, not_or, Bool.not_eq_true] at hnone
  exact hnone.1.1

theorem not_isSpace_of_validateWireguardKey {t : Text} (h : validateWireguardKey t = true) :
    t ≠ [] ∧ ∀ ch ∈ t, isSpace ch = false := by
  rw [validateWireguardKey, Bool.and_eq_true, Bool.and_eq_true, Bool.not_eq_true', Bool.not_eq_true'] at h
  refine ⟨?_, isSpace_of_hasControlOrSpace (Bool.not_eq_true' _ ▸ h.2)⟩
  rintro rfl
  cases h.1.1

theorem AddCall.checked_of_check (hcheck : c.check = .ok ()) {block : Text} (hblock : c.peerBlock = .ok block) :
    c.Checked := by
  have hkeys : validateWireguardKey c.publicKey = true ∧ c.presharedKey.all validateWireguardKey = true := by
    unfold AddCall.check checkKey at hcheck
    cases hpublic : validateWireguardKey c.publicKey with
    | false =>
      rw [Option.all_some, hpublic] at hcheck
      cases hcheck
    | true =>
      cases hpreshared : c.presharedKey.all validateWireguardKey with
      | false =>
        rw [Option.all_some, hpublic, hpreshared] at hcheck
        cases hcheck
      | true => exact ⟨rfl, rfl⟩
  refine ⟨not_isSpace_of_validateWireguardKey hkeys.1, fun preshared hpreshared => ?_, fun label hlabel => ?_⟩
  · have hall := hkeys.2
    rw [Option.mem_def.mp hpreshared, Option.all_some] at hall
    exact not_isSpace_of_validateWireguardKey hall
  · have hsome : c.label.filter (fun l => !l.isEmpty) = some label := hlabel
    unfold AddCall.peerBlock at hblock
    dsimp only at hblock
    rw [hsome, Option.any_some] at hblock
    cases hspace : hasControlOrSpace label with
    | true =>
      rw [hspace] at hblock
      cases hblock
    | false =>
      refine ⟨?_, isSpace_of_hasControlOrSpace hspace⟩
      rintro rfl
      cases (Option.filter_eq_some_iff.mp hsome).2

theorem optionLine_publicKey (value : Text) :
    "PublicKey = ".toList ++ value = optionLine publicKeyOption value := by
  have hkey : publicKeyOption ++ " = ".toList = "PublicKey = ".toList := by decide
  rw [optionLine, hkey]

theorem optionLine_presharedKey (value : Text) :
    "PresharedKey = ".toList ++ value = optionLine "PresharedKey".toList value := by
  have hkey : "PresharedKey".toList ++ " = ".toList = "PresharedKey = ".toList := by decide
  rw [optionLine, hkey]

theorem optionLine_allowedIps (c : AddCall) :
    "AllowedIPs = ".toList ++ c.clientIp ++ "/32".toList = optionLine "AllowedIPs".toList c.allowedIps := by
  have hkey : "AllowedIPs".toList ++ " = ".toList = "AllowedIPs = ".toList := by decide
  rw [optionLine, hkey, AddCall.allowedIps, List.append_assoc]

theorem AddCall.peerBlock_eq {block : Text} (hblock : c.peerBlock = .ok block) :
    block = join '\n' (c.blockLines ++ [[]]) := by
  unfold AddCall.peerBlock at hblock
  dsimp only at hblock
  rw [optionLine_publicKey, optionLine_allowedIps, funext optionLine_presharedKey] at hblock
  split_ifs at hblock
  rw [← Except.ok.inj hblock, blockLines, bodyLines, startLine, shownLabel]
  simp only [List.cons_append, List.nil_append, List.append_assoc]

theorem isLineBreak_of_not_isSpace {ch : Char} (h : isSpace ch = false) : isLineBreak ch = false := by
  cases hbreak : isLineBreak ch with
  | false => rfl
  | true => rw [isSpace_of_isLineBreak hbreak] at h; cases h

theorem contentLines_join {lines : List Text} (h : ∀ l ∈ lines, ∀ ch ∈ l, isLineBreak ch = false) :
    contentLines (join '\n' lines) = contents lines := by
  induction lines with
  | nil => rfl
  | cons l lines ih =>
    have hl := h l List.mem_cons_self
    have hsingle : contentLines l = contents [l] := by
      rw [contentLines_line hl, contents_cons]
      rfl
    cases lines with
    | nil =>
      have hjoin : join '\n' [l] = l := by simp [join, List.intercalate]
      rw [hjoin, hsingle]
    | cons m ms =>
      have hjoin : join '\n' (l :: m :: ms) = l ++ '\n' :: join '\n' (m :: ms) := by
        simp [join, List.intercalate]
      rw [hjoin, contentLines_append_cons (by decide), ih fun k hk => h k (List.mem_cons_of_mem _ hk), hsingle,
        ← contents_append]
      rfl

/-- Lines that are stripped and not blank. -/
def Stripped (l : Text) : Prop := strip l = l ∧ l ≠ []

theorem contents_of_stripped {lines : List Text} (h : ∀ l ∈ lines, Stripped l) : contents lines = lines := by
  induction lines with
  | nil => rfl
  | cons l lines ih =>
    obtain ⟨hl, hne⟩ := h l List.mem_cons_self
    rw [contents_cons, hl, if_neg hne, ih fun m hm => h m (List.mem_cons_of_mem _ hm)]

theorem stripped_append {front back : Text} (hfront : ∀ ch ∈ front.head?, isSpace ch = false) (hne : front ≠ [])
    (hback : ∀ ch ∈ back, isSpace ch = false) (hne' : back ≠ []) : Stripped (front ++ back) :=
  ⟨strip_append hfront hne hback hne', List.append_ne_nil_of_left_ne_nil hne _⟩

theorem stripped_startMarker (keyId ownerUserId : ℕ) {label : Option Text}
    (hlabel : ∀ l ∈ label, l ≠ [] ∧ ∀ ch ∈ l, isSpace ch = false) :
    Stripped (startMarker keyId ownerUserId label) := by
  have hhead : ∀ rest : Text, ∀ ch ∈ (startPrefix ++ rest).head?, isSpace ch = false := by
    intro rest ch hch
    obtain rfl : '#' = ch := Option.some.inj hch
    decide
  have hne : ∀ rest : Text, startPrefix ++ rest ≠ [] := fun rest =>
    List.append_ne_nil_of_left_ne_nil (by decide) rest
  cases label with
  | none =>
    have hsplit : startMarker keyId ownerUserId none =
        startPrefix ++ (natText keyId ++ " owner=".toList) ++ natText ownerUserId := by
      have hpart : labelPart none = [] := rfl
      have hassoc : ∀ t u v w : Text, t ++ (u ++ (v ++ w)) = t ++ (u ++ v) ++ w := by
        intro t u v w
        simp only [List.append_assoc]
      unfold startMarker
      rw [hpart, List.append_nil]
      exact hassoc _ _ _ _
    rw [hsplit]
    exact stripped_append (hhead _) (hne _) (fun ch hch => isSpace_of_mem_natText hch) (natText_ne_nil _)
  | some l =>
    have hsplit : startMarker keyId ownerUserId (some l) =
        startPrefix ++ (natText keyId ++ (" owner=".toList ++ (natText ownerUserId ++ " label=".toList))) ++ l := by
      have hpart : labelPart (some l) = " label=".toList ++ l := rfl
      have hassoc : ∀ t u v w x y : Text, t ++ (u ++ (v ++ (w ++ (x ++ y)))) = t ++ (u ++ (v ++ (w ++ x))) ++ y := by
        intro t u v w x y
        simp only [List.append_assoc]
      unfold startMarker
      rw [hpart]
      exact hassoc _ _ _ _ _ _
    rw [hsplit]
    exact stripped_append (hhead _) (hne _) (hlabel l rfl).2 (hlabel l rfl).1

theorem stripped_endMarker (keyId : ℕ) : Stripped (endMarker keyId) := by
  refine stripped_append (fun ch hch => ?_) (by decide) (fun ch hch => isSpace_of_mem_natText hch)
    (natText_ne_nil _)
  obtain rfl : '#' = ch := Option.some.inj hch
  decide

theorem stripped_optionLine (h : PlainKey key) {front back : Text} (hvalue : value = front ++ back)
    (hback : ∀ ch ∈ back, isSpace ch = false) (hne : back ≠ []) : Stripped (optionLine key value) := by
  have hsplit : optionLine key value = key ++ (" = ".toList ++ front) ++ back := by
    rw [optionLine, hvalue, List.append_assoc, List.append_assoc, List.append_assoc]
  rw [hsplit]
  obtain ⟨ch, rest, hkey⟩ := List.exists_cons_of_ne_nil h.nonempty
  refine stripped_append (fun d hd => ?_) (by simp [hkey]) hback hne
  rw [hkey] at hd
  obtain rfl : ch = d := Option.some.inj hd
  exact h.no_space ch (hkey ▸ List.mem_cons_self)

theorem stripped_optionLine_self (h : PlainKey key) (hvalue : ∀ ch ∈ value, isSpace ch = false) (hne : value ≠ []) :
    Stripped (optionLine key value) := stripped_optionLine h (List.nil_append value).symm hvalue hne

theorem stripped_allowedIps (c : AddCall) : Stripped (optionLine "AllowedIPs".toList c.allowedIps) :=
  stripped_optionLine (plainKey_of_mem (by decide)) rfl (forall_mem_of_all (by decide)) (by decide)

theorem stripped_blockLines (h : c.Checked) : ∀ l ∈ c.blockLines, Stripped l := by
  have hbody : ∀ l ∈ c.bodyLines, Stripped l := by
    intro l hl
    rcases List.mem_cons.mp hl with rfl | hl
    · exact stripped_optionLine_self (plainKey_of_mem (by decide)) h.publicKey.2 h.publicKey.1
    rcases List.mem_append.mp hl with hl | hl
    · obtain ⟨preshared, hpreshared, rfl⟩ := List.mem_map.mp hl
      have hvalue := h.presharedKey preshared (Option.mem_toList.mp hpreshared)
      exact stripped_optionLine_self (plainKey_of_mem (by decide)) hvalue.2 hvalue.1
    · rw [List.mem_singleton.mp hl]
      exact stripped_allowedIps c
  intro l hl
  rcases List.mem_cons.mp hl with rfl | hl
  · exact stripped_startMarker _ _ h.label
  rcases List.mem_cons.mp hl with rfl | hl
  · exact ⟨by decide, by decide⟩
  rcases List.mem_append.mp hl with hl | hl
  · exact hbody l hl
  · rw [List.mem_singleton.mp hl]
    exact stripped_endMarker _

/-! ### What the block adds -/

theorem foldlM_outlineLine_body {lines : List Text} (h : ∀ l ∈ lines, isHeader l = false) (name : Text)
    (options : Options) (done : List (Text × Options)) :
    lines.foldlM outlineLine ((name, options) :: done) =
      (addOptions name options lines).map fun options => (name, options) :: done := by
  induction lines generalizing options with
  | nil => rfl
  | cons l lines ih =>
    have hline : outlineLine ((name, options) :: done) l =
        (addOption name options l).map fun options => (name, options) :: done := by
      rw [outlineLine, h l List.mem_cons_self]
      rfl
    rw [List.foldlM_cons, hline, addOptions, List.foldlM_cons]
    cases addOption name options l with
    | error e => rfl
    | ok options' => exact ih (fun m hm => h m (List.mem_cons_of_mem _ hm)) options'

theorem scanRun_body {lines : List Text} (h : ∀ l ∈ lines, isHeader l = false) (options pendingMarker : Options) :
    scanRun (.peer options pendingMarker) lines =
      (addOptions "Peer".toList options lines).map fun options => ([], .peer options pendingMarker) := by
  induction lines generalizing options with
  | nil => rfl
  | cons l lines ih =>
    have hline : scanStep (.peer options pendingMarker) l =
        (addOption "Peer".toList options l).map fun options => ([], .peer options pendingMarker) := by
      rw [scanStep, h l List.mem_cons_self]
      rfl
    rw [scanRun, hline, addOptions, List.foldlM_cons]
    cases addOption "Peer".toList options l with
    | error e => rfl
    | ok options' =>
      show (scanRun (.peer options' pendingMarker) lines).map _ = _
      rw [ih (fun m hm => h m (List.mem_cons_of_mem _ hm)) options']
      show Except.map _ (Except.map _ (addOptions _ _ _)) = Except.map _ (addOptions _ _ _)
      cases addOptions "Peer".toList options' lines <;> rfl

theorem isHeader_bodyLines (c : AddCall) : ∀ l ∈ c.bodyLines ++ [endMarker c.keyId], isHeader l = false := by
  intro l hl
  rcases List.mem_append.mp hl with hl | hl
  · rcases List.mem_cons.mp hl with rfl | hl
    · exact ((plainKey_of_mem (by decide)).line _).1
    rcases List.mem_append.mp hl with hl | hl
    · obtain ⟨preshared, -, rfl⟩ := List.mem_map.mp hl
      exact ((plainKey_of_mem (by decide)).line _).1
    · rw [List.mem_singleton.mp hl]
      exact ((plainKey_of_mem (by decide)).line _).1
  · rw [List.mem_singleton.mp hl]
    rfl

theorem strip_allowedIps (h : Harmless c.clientIp) : strip c.allowedIps = c.allowedIps := by
  refine strip_of_ends (fun ch hch => ?_) fun ch hch => ?_
  · cases hip : c.clientIp with
    | nil =>
      rw [AddCall.allowedIps, hip] at hch
      obtain rfl : '/' = ch := Option.some.inj hch
      decide
    | cons d rest =>
      rw [AddCall.allowedIps, hip] at hch
      obtain rfl : d = ch := Option.some.inj hch
      exact h.2 d (by rw [hip]; rfl)
  · rw [AddCall.allowedIps, List.getLast?_append_of_ne_nil _ (by decide)] at hch
    obtain rfl : '2' = ch := Option.some.inj hch
    decide

theorem addOptions_bodyLines (hchecked : c.Checked) (h : Harmless c.clientIp) :
    addOptions "Peer".toList Dict.empty (c.bodyLines ++ [endMarker c.keyId]) = .ok c.options := by
  have hpublic : addOption "Peer".toList Dict.empty (optionLine publicKeyOption c.publicKey) =
      .ok (Dict.empty.set publicKeyOption c.publicKey) := by
    rw [(plainKey_of_mem (by decide)).addOption rfl
      (stripped_optionLine_self (plainKey_of_mem (by decide)) hchecked.publicKey.2 hchecked.publicKey.1).1,
      strip_eq_self hchecked.publicKey.2]
  have hlast : ∀ options : Options, options.get? "AllowedIPs".toList = none →
      addOptions "Peer".toList options [optionLine "AllowedIPs".toList c.allowedIps, endMarker c.keyId] =
        .ok (options.set "AllowedIPs".toList c.allowedIps) := by
    intro options hnew
    have hend : addOption "Peer".toList (options.set "AllowedIPs".toList c.allowedIps) (endMarker c.keyId) =
        .ok (options.set "AllowedIPs".toList c.allowedIps) := by
      rw [addOption, (stripped_endMarker c.keyId).1, (endMarker_comment c.keyId).1]
    rw [addOptions, List.foldlM_cons, (plainKey_of_mem (by decide)).addOption hnew (stripped_allowedIps c).1,
      strip_allowedIps h]
    show addOptions "Peer".toList (options.set "AllowedIPs".toList c.allowedIps) [endMarker c.keyId] = _
    rw [addOptions, List.foldlM_cons, hend]
    rfl
  have hnew : (Dict.empty.set publicKeyOption c.publicKey : Options).get? "AllowedIPs".toList = none :=
    Dict.get?_set_of_ne _ _ (by decide)
  rw [addOptions, AddCall.bodyLines, List.cons_append, List.foldlM_cons, hpublic]
  show addOptions _ _ _ = _
  unfold AddCall.options
  dsimp only
  cases hpreshared : c.presharedKey with
  | none => exact hlast _ hnew
  | some preshared =>
    have hvalue := hchecked.presharedKey preshared hpreshared
    have hkeyed : addOption "Peer".toList (Dict.empty.set publicKeyOption c.publicKey)
        (optionLine "PresharedKey".toList preshared) =
          .ok ((Dict.empty.set publicKeyOption c.publicKey).set "PresharedKey".toList preshared) := by
      rw [(plainKey_of_mem (by decide)).addOption (Dict.get?_set_of_ne _ _ (by decide))
        (stripped_optionLine_self (plainKey_of_mem (by decide)) hvalue.2 hvalue.1).1, strip_eq_self hvalue.2]
    have hnew' : ((Dict.empty.set publicKeyOption c.publicKey).set "PresharedKey".toList preshared :
        Options).get? "AllowedIPs".toList = none := by
      rw [Dict.get?_set_of_ne _ _ (by decide)]
      exact hnew
    show addOptions _ _ (optionLine "PresharedKey".toList preshared :: _) = _
    rw [addOptions, List.foldlM_cons, hkeyed]
    exact hlast _ hnew'

theorem rstrip_append (t : Text) : ∃ w : Text, (∀ ch ∈ w, isSpace ch = true) ∧ t = rstrip t ++ w :=
  ⟨t.rtakeWhile isSpace, fun _ => List.mem_rtakeWhile_imp, List.rdropWhile_append_rtakeWhile.symm⟩

theorem contentLines_rstrip (t : Text) : contentLines (rstrip t) = contentLines t := by
  obtain ⟨w, hw, ht⟩ := rstrip_append t
  rw [← contentLines_append_of_forall hw, ← ht]

theorem isLineBreak_append {t u : Text} (ht : ∀ ch ∈ t, isLineBreak ch = false)
    (hu : ∀ ch ∈ u, isLineBreak ch = false) : ∀ ch ∈ t ++ u, isLineBreak ch = false :=
  fun ch hch => (List.mem_append.mp hch).elim (ht ch) (hu ch)

theorem isLineBreak_natText (n : ℕ) : ∀ ch ∈ natText n, isLineBreak ch = false :=
  fun _ hch => isLineBreak_of_not_isSpace (isSpace_of_mem_natText hch)

theorem isLineBreak_optionLine {key value : Text} (hkey : PlainKey key) (hvalue : ∀ ch ∈ value, isLineBreak ch = false) :
    ∀ ch ∈ optionLine key value, isLineBreak ch = false := by
  have hname : ∀ ch ∈ key, isLineBreak ch = false := fun ch hch => isLineBreak_of_not_isSpace (hkey.no_space ch hch)
  exact isLineBreak_append (isLineBreak_append hname (forall_mem_of_all (by decide))) hvalue

theorem isLineBreak_of_mem_blockLines (hchecked : c.Checked) (hip : ∀ ch ∈ c.clientIp, isLineBreak ch = false)
    {l : Text} (hl : l ∈ c.blockLines) : ∀ ch ∈ l, isLineBreak ch = false := by
  have hspace : ∀ t : Text, (∀ ch ∈ t, isSpace ch = false) → ∀ ch ∈ t, isLineBreak ch = false :=
    fun t ht ch hch => isLineBreak_of_not_isSpace (ht ch hch)
  rcases List.mem_cons.mp hl with rfl | hl
  · -- the start marker
    have hlabel : ∀ ch ∈ labelPart c.shownLabel, isLineBreak ch = false := by
      cases hlabel : c.shownLabel with
      | none => exact fun ch hch => nomatch hch
      | some label => exact isLineBreak_append (forall_mem_of_all (by decide)) (hspace _ (hchecked.label _ hlabel).2)
    exact isLineBreak_append (forall_mem_of_all (by decide)) (isLineBreak_append (isLineBreak_natText _)
      (isLineBreak_append (forall_mem_of_all (by decide)) (isLineBreak_append (isLineBreak_natText _) hlabel)))
  rcases List.mem_cons.mp hl with rfl | hl
  · exact forall_mem_of_all (by decide)
  rcases List.mem_append.mp hl with hl | hl
  · rcases List.mem_cons.mp hl with rfl | hl
    · exact isLineBreak_optionLine (plainKey_of_mem (by decide)) (hspace _ hchecked.publicKey.2)
    rcases List.mem_append.mp hl with hl | hl
    · obtain ⟨preshared, hpreshared, rfl⟩ := List.mem_map.mp hl
      have hvalue := hchecked.presharedKey preshared (Option.mem_toList.mp hpreshared)
      exact isLineBreak_optionLine (plainKey_of_mem (by decide)) (hspace _ hvalue.2)
    · rw [List.mem_singleton.mp hl]
      exact isLineBreak_optionLine (plainKey_of_mem (by decide))
        (isLineBreak_append hip (forall_mem_of_all (by decide)))
  · rw [List.mem_singleton.mp hl]
    exact isLineBreak_append (forall_mem_of_all (by decide)) (isLineBreak_natText _)

theorem contentLines_appended (hchecked : c.Checked) (h : Harmless c.clientIp)
    (happended : c.appended original = .ok updated) :
    contentLines updated = contentLines original ++ c.blockLines := by
  have hbreaks : ∀ l ∈ c.blockLines ++ [[]], ∀ ch ∈ l, isLineBreak ch = false := by
    intro l hl
    rcases List.mem_append.mp hl with hl | hl
    · exact isLineBreak_of_mem_blockLines hchecked h.1 hl
    · rw [List.mem_singleton.mp hl]
      simp
  unfold AddCall.appended at happended
  cases hblock : c.peerBlock with
  | error e =>
    rw [hblock] at happended
    cases happended
  | ok block =>
    rw [hblock] at happended
    have hupdated : updated = rstrip original ++ '\n' :: '\n' :: block := by
      rw [← Except.ok.inj happended, List.append_assoc]
      rfl
    have hlast : contents [[]] = [] := rfl
    rw [hupdated, contentLines_append_cons (by decide), contentLines_cons_of_isSpace (by decide),
      contentLines_rstrip, AddCall.peerBlock_eq hblock, contentLines_join hbreaks, contents_append,
      contents_of_stripped (stripped_blockLines hchecked), hlast, List.append_nil]

end VpnBot.Awg
