import VpnBot.Awg.PeerBlock

/-!
# The values of a new peer in the config

`add_peer` writes the public key, the preshared key, the address and the label into lines of the config.  The
key id, the keys and the label can do no harm there; an address can, since the zone of an IPv6 address may hold
a line break.  The tag of the new peer is lost when the config ends in a `[Peer]` section
(`uninjected_iff`).
-/

namespace VpnBot.Awg

open Py

variable {c : AddCall} {original updated : Text}

/-! ### The property -/

/-- What `add_peer` asks for before it writes: the checks of the arguments, an id that can be written down, a
config that can be read and has neither the block nor the peer, a label that can be written, and a new config
that can be read. -/
structure AddCall.Accepts (c : AddCall) (original : Text) : Prop where
  checked : c.check = .ok ()
  written : c.keyId < 10 ^ maxStrDigits
  fresh : managedBlockExists original c.keyId = false
  unknown : ∃ sections, parseSections original = .ok sections ∧
    findPeer c.ip sections (some c.publicKey) (some c.clientIp) = none
  candidate : ∃ updated sections, c.appended original = .ok updated ∧ parseSections updated = .ok sections

/-- The new config has the sections of the old one and the new one, by their names and options, and the new peer
has its tag. -/
structure AddCall.Uninjected (c : AddCall) (original updated : Text) : Prop where
  sections : ∃ before after, parseSections original = .ok before ∧ parseSections updated = .ok after ∧
    after.map AwgSection.outline = before.map AwgSection.outline ++ [("Peer".toList, c.options)]
  tagged : ∃ peers, listConfigPeers updated = .ok peers ∧ (peers.map reported).getLast? =
    some (some c.publicKey, ⟨some (natText c.keyId), c.shownLabel⟩)

def lastHeader (t : Text) : Option Text := ((contentLines t).filter isHeader).getLast?

/-! ### The section that is added -/

theorem addOption_startLine (hchecked : c.Checked) (name : Text) (options : Options) :
    addOption name options c.startLine = .ok options := by
  have hmarker := (stripped_startMarker c.keyId c.ownerUserId hchecked.label).1
  rw [addOption, AddCall.startLine, hmarker, (startMarker_comment _ _ _).1]

theorem foldlM_blockLines (hchecked : c.Checked) (h : Harmless c.clientIp) (current : Text × Options)
    (done : List (Text × Options)) :
    c.blockLines.foldlM outlineLine (current :: done) = .ok (("Peer".toList, c.options) :: current :: done) := by
  have hstart : outlineLine (current :: done) c.startLine = .ok (current :: done) := by
    rw [outlineLine, AddCall.startLine, (startMarker_comment _ _ _).2]
    show (addOption current.1 current.2 c.startLine).map _ = _
    rw [addOption_startLine hchecked]
    rfl
  rw [AddCall.blockLines, List.foldlM_cons, hstart]
  show List.foldlM outlineLine (("Peer".toList, Dict.empty) :: current :: done) _ = _
  rw [foldlM_outlineLine_body (isHeader_bodyLines c), addOptions_bodyLines hchecked h]
  rfl

theorem outlines_append {content : List Text} {sections : List (Text × Options)} (hchecked : c.Checked)
    (h : Harmless c.clientIp) (hsections : outlines content = .ok sections) :
    outlines (content ++ c.blockLines) = .ok (sections ++ [("Peer".toList, c.options)]) := by
  unfold outlines at hsections ⊢
  rw [List.foldlM_append]
  cases hread : content.foldlM outlineLine [] with
  | error e =>
    rw [hread] at hsections
    cases hsections
  | ok reversed =>
    rw [hread] at hsections
    dsimp only [bind, Except.bind] at hsections ⊢
    cases reversed with
    | nil => cases hsections
    | cons current done =>
      rw [foldlM_blockLines hchecked h]
      split_ifs at hsections with hany
      cases hsections
      have hany' : (("Peer".toList, c.options) :: current :: done).any (·.1 = "Interface".toList) = true := by
        rw [List.any_cons, hany, Bool.or_true]
      dsimp only
      rw [if_pos hany', List.reverse_cons]
      rfl

/-! ### The tag -/

def ScanState.inPeer : ScanState → Bool
  | .outside _ => false
  | .peer _ _ => true

theorem inPeer_scanStep {state : ScanState} {line : Text} {step : List Options × ScanState}
    (h : scanStep state line = .ok step) :
    step.2.inPeer = if isHeader line then decide (line = "[Peer]".toList) else state.inPeer := by
  cases state with
  | outside pendingMarker =>
    rw [scanStep] at h
    split_ifs at h with hmarker hpeer hplain
    · cases h
      have hheader : isHeader line = false := by
        cases hheader : isHeader line with
        | false => rfl
        | true =>
          rw [managedStartMarker_of_isHeader hheader] at hmarker
          cases hmarker
      rw [hheader]
      rfl
    · cases h
      rw [hpeer]
      rfl
    · cases h
      rw [decide_eq_false hpeer]
      exact (ite_self _).symm
    · cases h
      rw [decide_eq_false hpeer]
      exact (ite_self _).symm
  | peer options pendingMarker =>
    rw [scanStep] at h
    split_ifs at h with hheader
    · cases h
      rw [if_pos hheader]
      show (openSection line).inPeer = _
      unfold openSection
      split_ifs with hpeer
      · rw [decide_eq_true hpeer]
        rfl
      · rw [decide_eq_false hpeer]
        rfl
    · rw [if_neg hheader]
      cases hoption : addOption "Peer".toList options line with
      | error e =>
        rw [hoption] at h
        cases h
      | ok options' =>
        rw [hoption] at h
        cases h
        rfl

theorem inPeer_scanRun {lines : List Text} {state : ScanState} {run : List Options × ScanState}
    (h : scanRun state lines = .ok run) :
    run.2.inPeer = ((lines.filter isHeader).getLast?.elim state.inPeer fun header => header = "[Peer]".toList) := by
  induction lines generalizing state run with
  | nil =>
    cases h
    rfl
  | cons l lines ih =>
    rw [scanRun] at h
    cases hstep : scanStep state l with
    | error e =>
      rw [hstep] at h
      cases h
    | ok step =>
      rw [hstep] at h
      cases hrest : scanRun step.2 lines with
      | error e =>
        replace h : (scanRun step.2 lines).map _ = _ := h
        rw [hrest] at h
        cases h
      | ok rest =>
        replace h : (scanRun step.2 lines).map _ = _ := h
        rw [hrest] at h
        cases h
        show rest.2.inPeer = _
        rw [ih hrest, inPeer_scanStep hstep]
        cases hheader : isHeader l with
        | false =>
          rw [List.filter_cons_of_neg (ne_true_of_eq_false hheader)]
          rfl
        | true =>
          rw [List.filter_cons_of_pos hheader, List.getLast?_cons]
          cases (lines.filter isHeader).getLast? <;> rfl

/-- A peer that the automaton reads is the section that the parser reads. -/
def SameSection : ScanState → List (Text × Options) → Prop
  | .outside _, _ => True
  | .peer options _, sections => sections.head? = some ("Peer".toList, options)

variable {sections sections' : List (Text × Options)}

theorem scanStep_of_outlineLine {state : ScanState} {line : Text}
    (hsame : SameSection state sections) (h : outlineLine sections line = .ok sections') :
    ∃ step, scanStep state line = .ok step ∧ SameSection step.2 sections' := by
  have hopened : ∀ pendingMarker, line = "[Peer]".toList →
      SameSection (.peer Dict.empty pendingMarker) sections' := by
    rintro pendingMarker rfl
    cases h
    rfl
  cases state with
  | outside pendingMarker =>
    rw [scanStep]
    split_ifs with hmarker hpeer
    · exact ⟨_, rfl, trivial⟩
    · exact ⟨_, rfl, hopened _ hpeer⟩
    · exact ⟨_, rfl, trivial⟩
    · exact ⟨_, rfl, trivial⟩
  | peer options pendingMarker =>
    cases sections with
    | nil => cases hsame
    | cons current done =>
      obtain rfl : current = ("Peer".toList, options) := Option.some.inj hsame
      rw [scanStep]
      cases hheader : isHeader line with
      | true =>
        refine ⟨_, rfl, ?_⟩
        show SameSection (openSection line) sections'
        unfold openSection
        split_ifs with hpeer
        · exact hopened _ hpeer
        · trivial
      | false =>
        rw [outlineLine, hheader] at h
        replace h : (addOption "Peer".toList options line).map _ = _ := h
        cases hoption : addOption "Peer".toList options line with
        | error e =>
          rw [hoption] at h
          cases h
        | ok options' =>
          rw [hoption] at h
          cases h
          exact ⟨_, rfl, rfl⟩

/-- Where the parser succeeds, so does the automaton. -/
theorem scanRun_of_outlineLine {lines : List Text} {state : ScanState}
    (hsame : SameSection state sections) (h : lines.foldlM outlineLine sections = .ok sections') :
    ∃ run, scanRun state lines = .ok run := by
  induction lines generalizing state sections with
  | nil => exact ⟨_, rfl⟩
  | cons l lines ih =>
    rw [List.foldlM_cons] at h
    cases hline : outlineLine sections l with
    | error e =>
      rw [hline] at h
      cases h
    | ok next =>
      rw [hline] at h
      obtain ⟨step, hstep, hnext⟩ := scanStep_of_outlineLine hsame hline
      obtain ⟨run, hrun⟩ := ih hnext h
      rw [scanRun, hstep]
      show ∃ result, (scanRun step.2 lines).map _ = .ok result
      rw [hrun]
      exact ⟨_, rfl⟩

theorem scanRun_blockLines (hchecked : c.Checked) (h : Harmless c.clientIp) (hid : c.keyId < 10 ^ maxStrDigits)
    (state : ScanState) : ∃ peers, scanRun state c.blockLines =
      .ok (peers, .peer c.options (if state.inPeer then Dict.empty else markerOptions c.keyId c.shownLabel)) := by
  have hbody : ∀ pendingMarker, scanRun (.peer Dict.empty pendingMarker) (c.bodyLines ++ [endMarker c.keyId]) =
      .ok ([], .peer c.options pendingMarker) := by
    intro pendingMarker
    rw [scanRun_body (isHeader_bodyLines c), addOptions_bodyLines hchecked h]
    rfl
  have hmarker : managedStartMarker c.startLine = markerOptions c.keyId c.shownLabel :=
    managedStartMarker_of_lt hid _ hchecked.label
  rw [AddCall.blockLines, scanRun]
  cases state with
  | outside pendingMarker =>
    have hstep : scanStep (.outside pendingMarker) c.startLine =
        .ok ([], .outside (markerOptions c.keyId c.shownLabel)) := by
      rw [scanStep, hmarker, markerOptions_items_ne_nil]
      rfl
    rw [hstep]
    show ∃ peers, (scanRun (.outside (markerOptions c.keyId c.shownLabel)) ("[Peer]".toList :: _)).map _ = _
    rw [scanRun]
    show ∃ peers, ((scanRun (.peer Dict.empty (markerOptions c.keyId c.shownLabel)) _).map _).map _ = _
    rw [hbody]
    exact ⟨_, rfl⟩
  | peer options pendingMarker =>
    have hstep : scanStep (.peer options pendingMarker) c.startLine = .ok ([], .peer options pendingMarker) := by
      have hheader : isHeader c.startLine = false := (startMarker_comment _ _ _).2
      rw [scanStep, hheader, addOption_startLine hchecked]
      rfl
    rw [hstep]
    show ∃ peers, (scanRun (.peer options pendingMarker) ("[Peer]".toList :: _)).map _ = _
    rw [scanRun]
    show ∃ peers, ((scanRun (.peer Dict.empty Dict.empty) _).map _).map _ = _
    rw [hbody]
    exact ⟨_, rfl⟩

/-! ### Values that have been read -/

/-- The values are stripped parts of lines. -/
def ReadFromLines (options : Options) : Prop :=
  ∀ key value, options.get? key = some value → strip value = value ∧ ∀ ch ∈ value, isLineBreak ch = false

theorem mem_of_mem_splitOnce {sep ch : Char} {t : Text} {parts : Text × Text} (h : splitOnce sep t = some parts)
    (hch : ch ∈ parts.2) : ch ∈ t := by
  induction t generalizing parts with
  | nil => cases h
  | cons d t ih =>
    rw [splitOnce] at h
    split_ifs at h
    · cases h
      exact List.mem_cons_of_mem _ hch
    · obtain ⟨rest, hrest, rfl⟩ := Option.map_eq_some_iff.mp h
      exact List.mem_cons_of_mem _ (ih hrest hch)

theorem readFromLines_addOption {name line : Text} {options options' : Options}
    (hline : ∀ ch ∈ line, isLineBreak ch = false) (h : addOption name options line = .ok options')
    (hread : ReadFromLines options) : ReadFromLines options' := by
  unfold Awg.addOption at h
  cases hoption : optionOf (strip line) with
  | none =>
    rw [hoption] at h
    cases h
    exact hread
  | some option =>
    obtain ⟨key, value⟩ := option
    simp only [hoption] at h
    cases hreject : rejectDuplicateCriticalKey name options key with
    | error e =>
      rw [hreject] at h
      cases h
    | ok _ =>
      rw [hreject] at h
      cases h
      intro key' value' hget
      rw [Dict.get?_set] at hget
      split_ifs at hget
      · cases hget
        unfold optionOf at hoption
        split_ifs at hoption
        obtain ⟨parts, hparts, heq⟩ := Option.map_eq_some_iff.mp hoption
        cases heq
        refine ⟨strip_strip _, fun ch hch => hline ch (mem_of_mem_strip (mem_of_mem_splitOnce hparts ?_))⟩
        exact mem_of_mem_strip hch
      · exact hread key' value' hget

theorem readFromLines_outlineLine {line : Text}
    (hline : ∀ ch ∈ line, isLineBreak ch = false) (h : outlineLine sections line = .ok sections')
    (hread : ∀ sec ∈ sections, ReadFromLines sec.2) : ∀ sec ∈ sections', ReadFromLines sec.2 := by
  unfold outlineLine at h
  by_cases hheader : isHeader line = true
  · rw [if_pos hheader] at h
    split_ifs at h
    cases h
    intro sec hsec
    rcases List.mem_cons.mp hsec with rfl | hsec
    · exact fun key value hget => nomatch hget
    · exact hread sec hsec
  · rw [if_neg hheader] at h
    cases sections with
    | nil =>
      dsimp only at h
      split_ifs at h
      cases h
      exact fun sec hsec => nomatch hsec
    | cons current done =>
      replace h : (addOption current.1 current.2 line).map _ = _ := h
      cases hoption : addOption current.1 current.2 line with
      | error e =>
        rw [hoption] at h
        cases h
      | ok options =>
        rw [hoption] at h
        cases h
        intro sec hsec
        rcases List.mem_cons.mp hsec with rfl | hsec
        · exact readFromLines_addOption hline hoption (hread current List.mem_cons_self)
        · exact hread sec (List.mem_cons_of_mem _ hsec)

theorem readFromLines_foldlM {lines : List Text}
    (hlines : ∀ l ∈ lines, ∀ ch ∈ l, isLineBreak ch = false)
    (h : lines.foldlM outlineLine sections = .ok sections')
    (hread : ∀ sec ∈ sections, ReadFromLines sec.2) : ∀ sec ∈ sections', ReadFromLines sec.2 := by
  induction lines generalizing sections with
  | nil =>
    cases h
    exact hread
  | cons l lines ih =>
    rw [List.foldlM_cons] at h
    cases hline : outlineLine sections l with
    | error e =>
      rw [hline] at h
      cases h
    | ok next =>
      rw [hline] at h
      exact ih (fun m hm => hlines m (List.mem_cons_of_mem _ hm)) h
        (readFromLines_outlineLine (hlines l List.mem_cons_self) hline hread)

theorem readFromLines_outlines {t : Text} {sections : List (Text × Options)}
    (h : outlines (contentLines t) = .ok sections) : ∀ sec ∈ sections, ReadFromLines sec.2 := by
  have hlines : ∀ l ∈ contentLines t, ∀ ch ∈ l, isLineBreak ch = false := by
    intro l hl ch hch
    obtain ⟨raw, hraw, rfl⟩ := List.mem_map.mp (List.mem_of_mem_filter hl)
    exact isLineBreak_of_mem_splitlines hraw ch (mem_of_mem_strip hch)
  unfold outlines at h
  cases hread : (contentLines t).foldlM outlineLine [] with
  | error e =>
    rw [hread] at h
    cases h
  | ok reversed =>
    rw [hread] at h
    dsimp only [bind, Except.bind] at h
    split_ifs at h
    cases h
    intro sec hsec
    exact readFromLines_foldlM hlines hread (fun sec hsec => nomatch hsec) sec (List.mem_reverse.mp hsec)

theorem harmless_of_readFromLines (h : ReadFromLines c.options) : Harmless c.clientIp := by
  have hvalue : c.options.get? "AllowedIPs".toList = some c.allowedIps := Dict.get?_set_self _ _ _
  obtain ⟨hstrip, hbreaks⟩ := h _ _ hvalue
  refine ⟨fun ch hch => hbreaks ch (List.mem_append_left _ hch), fun ch hch => ?_⟩
  obtain ⟨rest, hip⟩ : ∃ rest, c.clientIp = ch :: rest := List.head?_eq_some_iff.mp hch
  cases hspace : isSpace ch with
  | false => rfl
  | true =>
    -- what is stripped is shorter
    have hcons : c.allowedIps = ch :: (rest ++ "/32".toList) := by
      rw [AddCall.allowedIps, hip]
      rfl
    rw [hcons, strip_cons_of_isSpace hspace] at hstrip
    have hlength := length_strip_le (rest ++ "/32".toList)
    rw [hstrip, List.length_cons] at hlength
    omega

/-! ### The two parts of the property -/

theorem get?_options (c : AddCall) : c.options.get? publicKeyOption = some c.publicKey ∧
    c.options.get? managedKeyId = none ∧ c.options.get? managedLabel = none := by
  unfold AddCall.options
  dsimp only
  cases c.presharedKey with
  | none =>
    refine ⟨?_, ?_, ?_⟩
    · rw [Dict.get?_set_of_ne _ _ (by decide)]
      exact Dict.get?_set_self _ _ _
    · rw [Dict.get?_set_of_ne _ _ (by decide)]
      exact Dict.get?_set_of_ne _ _ (by decide)
    · rw [Dict.get?_set_of_ne _ _ (by decide)]
      exact Dict.get?_set_of_ne _ _ (by decide)
  | some preshared =>
    refine ⟨?_, ?_, ?_⟩
    · rw [Dict.get?_set_of_ne _ _ (by decide), Option.elim_some, Dict.get?_set_of_ne _ _ (by decide)]
      exact Dict.get?_set_self _ _ _
    · rw [Dict.get?_set_of_ne _ _ (by decide), Option.elim_some, Dict.get?_set_of_ne _ _ (by decide)]
      exact Dict.get?_set_of_ne _ _ (by decide)
    · rw [Dict.get?_set_of_ne _ _ (by decide), Option.elim_some, Dict.get?_set_of_ne _ _ (by decide)]
      exact Dict.get?_set_of_ne _ _ (by decide)

theorem reported_newPeer (c : AddCall) (inPeer : Bool) :
    reported (c.options.update (if inPeer then Dict.empty else markerOptions c.keyId c.shownLabel)) =
      (some c.publicKey, if inPeer then ⟨none, none⟩ else ⟨some (natText c.keyId), c.shownLabel⟩) := by
  obtain ⟨hkey, hid, hlabel⟩ := get?_options c
  have hpublic : c.options.get? "PublicKey".toList = some c.publicKey := hkey
  cases inPeer with
  | true =>
    rw [if_pos rfl, Dict.update_empty, reported, hpublic, hid, hlabel]
    rfl
  | false =>
    obtain ⟨hkey', hid', hlabel'⟩ := get?_markerOptions c.keyId c.shownLabel
    rw [if_neg Bool.false_ne_true, reported, Dict.get?_update, Dict.get?_update, Dict.get?_update, hkey', hid',
      hlabel', hpublic, hlabel, Option.none_or, Option.some_or, Option.or_none]
    rfl

theorem tag_newPeer (h : c.Accepts original) (hchecked : c.Checked) (hip : Harmless c.clientIp)
    (happended : c.appended original = .ok updated) :
    ∃ peers, listConfigPeers updated = .ok peers ∧ (peers.map reported).getLast? =
      some (some c.publicKey, if lastHeader original = some "[Peer]".toList then ⟨none, none⟩
        else ⟨some (natText c.keyId), c.shownLabel⟩) := by
  obtain ⟨sections, hsections, -⟩ := h.unknown
  obtain ⟨reversed, hreversed⟩ : ∃ reversed, (contentLines original).foldlM outlineLine [] = .ok reversed := by
    have houtline := parseSections_outline original
    rw [hsections] at houtline
    unfold outlines at houtline
    cases hread : (contentLines original).foldlM outlineLine [] with
    | error e =>
      rw [hread] at houtline
      cases houtline
    | ok reversed => exact ⟨reversed, rfl⟩
  have hstart : SameSection (.outside Dict.empty) [] := trivial
  obtain ⟨⟨before, state⟩, hbefore⟩ := scanRun_of_outlineLine hstart hreversed
  obtain ⟨peers, hblock⟩ := scanRun_blockLines hchecked hip h.written state
  have hstate : state.inPeer = decide (lastHeader original = some "[Peer]".toList) := by
    rw [inPeer_scanRun hbefore, lastHeader]
    cases ((contentLines original).filter isHeader).getLast? with
    | none => rfl
    | some header => simp only [Option.elim_some, Option.some.injEq]
  rw [hstate] at hblock
  rw [listConfigPeers_eq_scanRun, contentLines_appended hchecked hip happended, scanRun_append, hbefore]
  show ∃ result, ((scanRun state c.blockLines).map _).map _ = .ok result ∧ _
  rw [hblock]
  refine ⟨_, rfl, ?_⟩
  show ((before ++ peers ++ [_]).map reported).getLast? = _
  rw [List.map_append, List.map_singleton, List.getLast?_concat, reported_newPeer]
  by_cases hlast : lastHeader original = some "[Peer]".toList
  · rw [decide_eq_true hlast, if_pos hlast]
    rfl
  · rw [decide_eq_false hlast, if_neg hlast]
    rfl

/-- **The values do no harm exactly when the address is harmless and the config does not end in a `[Peer]`
section.** -/
theorem uninjected_iff (h : c.Accepts original) (happended : c.appended original = .ok updated) :
    c.Uninjected original updated ↔
      Harmless c.clientIp ∧ lastHeader original ≠ some "[Peer]".toList := by
  have hchecked : c.Checked := by
    unfold AddCall.appended at happended
    cases hblock : c.peerBlock with
    | error e =>
      rw [hblock] at happended
      cases happended
    | ok block => exact AddCall.checked_of_check h.checked hblock
  constructor
  · rintro ⟨⟨before, after, -, hafter, hsections⟩, peers, hpeers, htag⟩
    have houtline := parseSections_outline updated
    rw [hafter] at houtline
    have hadded : ("Peer".toList, c.options) ∈ after.map AwgSection.outline := by
      rw [hsections]
      exact List.mem_append_right _ List.mem_cons_self
    have hip : Harmless c.clientIp :=
      harmless_of_readFromLines (readFromLines_outlines houtline.symm _ hadded)
    refine ⟨hip, fun hlast => ?_⟩
    obtain ⟨peers', hpeers', htag'⟩ := tag_newPeer h hchecked hip happended
    rw [hpeers] at hpeers'
    cases hpeers'
    rw [htag, if_pos hlast] at htag'
    cases htag'
  · rintro ⟨hip, hlast⟩
    obtain ⟨before, hbefore, -⟩ := h.unknown
    obtain ⟨peers, hpeers, htag⟩ := tag_newPeer h hchecked hip happended
    rw [if_neg hlast] at htag
    refine ⟨?_, peers, hpeers, htag⟩
    have houtline := parseSections_outline original
    rw [hbefore] at houtline
    have hadded := outlines_append hchecked hip houtline.symm
    rw [← contentLines_appended hchecked hip happended, ← parseSections_outline] at hadded
    cases hafter : parseSections updated with
    | error e =>
      rw [hafter] at hadded
      cases hadded
    | ok after =>
      rw [hafter] at hadded
      exact ⟨before, after, hbefore, rfl, Except.ok.inj hadded⟩

/-! ### A second peer -/

def secondPeer : AddCall where
  ip := ⟨fun address => address = "10.0.0.3".toList, fun network _ => network = "10.0.0.3/32".toList⟩
  interface := "awg0".toList
  keyId := 2
  ownerUserId := 5
  publicKey := "B".toList
  presharedKey := none
  clientIp := "10.0.0.3".toList
  label := some "phone".toList

/-- A config without peers. -/
def bareInterface : Text := "[Interface]\nPrivateKey = x\n".toList

def onePeer : Text := "[Interface]\nPrivateKey = x\n\n[Peer]\nPublicKey = A\nAllowedIPs = 10.0.0.2/32\n".toList

theorem accepts_of_eval {c : AddCall} {original updated : Text} (hcheck : c.check = .ok ())
    (hid : c.keyId < 2 ^ 63) (hfresh : managedBlockExists original c.keyId = false)
    (hunknown : (parseSections original).toOption.any fun sections =>
      (findPeer c.ip sections (some c.publicKey) (some c.clientIp)).isNone)
    (happended : c.appended original = .ok updated) (hcandidate : (parseSections updated).toOption.isSome) :
    c.Accepts original where
  checked := hcheck
  written := hid.trans_le (le_trans (by norm_num) (Nat.pow_le_pow_right (by norm_num) (show 19 ≤ maxStrDigits by decide)))
  fresh := hfresh
  unknown := by
    cases hsections : parseSections original with
    | error e =>
      rw [hsections] at hunknown
      cases hunknown
    | ok sections =>
      rw [hsections] at hunknown
      exact ⟨sections, rfl, Option.isNone_iff_eq_none.mp hunknown⟩
  candidate := by
    cases hsections : parseSections updated with
    | error e =>
      rw [hsections] at hcandidate
      cases hcandidate
    | ok sections => exact ⟨updated, sections, happended, hsections⟩

/-- The config with the block of the peer. -/
def withSecond (original : Text) : Text :=
  rstrip original ++ "\n\n".toList ++ join '\n' (secondPeer.blockLines ++ [[]])

theorem accepts_bareInterface : secondPeer.Accepts bareInterface ∧ secondPeer.appended bareInterface = .ok (withSecond bareInterface) := by
  have happended : secondPeer.appended bareInterface = .ok (withSecond bareInterface) := by decide +kernel
  refine ⟨accepts_of_eval rfl (by decide) (by decide +kernel) (by decide +kernel) happended (by decide +kernel), happended⟩

theorem accepts_onePeer : secondPeer.Accepts onePeer ∧ secondPeer.appended onePeer = .ok (withSecond onePeer) := by
  have happended : secondPeer.appended onePeer = .ok (withSecond onePeer) := by decide +kernel
  refine ⟨accepts_of_eval rfl (by decide) (by decide +kernel) (by decide +kernel) happended (by decide +kernel), happended⟩

/-- The first peer of a config has its tag. -/
theorem uninjected_bareInterface : secondPeer.Uninjected bareInterface (withSecond bareInterface) :=
  (uninjected_iff accepts_bareInterface.1 accepts_bareInterface.2).mpr
    ⟨⟨forall_mem_of_all (by decide), fun ch hch => by obtain rfl : '1' = ch := Option.some.inj hch; decide⟩,
      by decide +kernel⟩

/-- The second peer has none. -/
theorem second_peer_untagged : ¬∀ (c : AddCall) (original updated : Text), c.Accepts original →
    c.appended original = .ok updated → c.Uninjected original updated := by
  intro h
  obtain ⟨-, peers, hpeers, htag⟩ := h _ _ _ accepts_onePeer.1 accepts_onePeer.2
  have hlist : (listConfigPeers (withSecond onePeer)).map (fun peers => (peers.map reported).getLast?) =
      .ok (some (some "B".toList, ⟨none, none⟩)) := by decide +kernel
  rw [hpeers] at hlist
  replace hlist : (peers.map reported).getLast? = some (some "B".toList, ⟨none, none⟩) := Except.ok.inj hlist
  rw [htag] at hlist
  exact absurd hlist (by decide +kernel)

end VpnBot.Awg
