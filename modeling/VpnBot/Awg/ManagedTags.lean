import VpnBot.Awg.PeerScan
import VpnBot.Python.Basic

/-!
# The markers of managed blocks

A config whose managed blocks are well formed is a list of items (`Item`): the `[Interface]` section,
peers that are not managed, managed blocks (a start marker, one `[Peer]` section, the matching end
marker), and blank or comment lines.  Every peer has a tag of its own: the key id and the label of
its block, or none.

The scanner reads the lines after a `[Peer]` header as the body of that section until the next
header, so the start marker of a block that comes after another peer is read as a comment of that
peer and its tag is lost (`report`).  The scanner reports every tag right exactly when no managed
block stands behind a peer section (`reportsTags_iff`).
-/

namespace VpnBot.Awg

open Py

/-! ### Well-formed configs -/

/-- A line that neither opens a section nor starts a managed block. -/
def Plain (raw : Text) : Prop :=
  isHeader (strip raw) = false ∧ startsWith startPrefix (strip raw) = false

instance (raw : Text) : Decidable (Plain raw) := inferInstanceAs (Decidable (_ ∧ _))

/-- The options that a list of lines gives. -/
def optionsOf (lines : List Text) : List (Text × Text) := lines.filterMap fun l => optionOf (strip l)

/-- A blank line or a comment between the sections. -/
structure Filler where
  line : Text
  plain : Plain line
  no_content : optionOf (strip line) = none
  blank : (strip line).isEmpty || isComment (strip line)

/-- The `[Interface]` section. -/
structure InterfaceSection where
  header : Text
  lines : List Text
  header_eq : strip header = "[Interface]".toList
  plain : ∀ l ∈ lines, Plain l

/-- A `[Peer]` section: no critical option is repeated, and no option has the name of a tag. -/
structure PeerSection where
  header : Text
  lines : List Text
  header_eq : strip header = "[Peer]".toList
  plain : ∀ l ∈ lines, Plain l
  critical_once :
    (((optionsOf lines).map Prod.fst).filter (CRITICAL_PEER_KEYS.contains ·)).Nodup
  untagged : ∀ p ∈ optionsOf lines, p.1 ≠ managedKeyId ∧ p.1 ≠ managedLabel

def PeerSection.options (s : PeerSection) : Options :=
  (optionsOf s.lines).foldl (fun d p => d.set p.1 p.2) Dict.empty

/-- A managed block.  Key ids are row ids of the database, labels pass `_validate_label`. -/
structure ManagedBlock where
  keyId : ℕ
  ownerUserId : ℕ
  label : Option Text
  start : Text
  peer : PeerSection
  finish : Text
  keyId_lt : keyId < 2 ^ 63
  label_ok : ∀ l ∈ label, l ≠ [] ∧ ∀ c ∈ l, isSpace c = false
  start_eq : strip start = startMarker keyId ownerUserId label
  finish_eq : strip finish = endMarker keyId

/-- A part of a config. -/
inductive Item
  | filler (f : Filler)
  | interface (s : InterfaceSection)
  | unmanaged (s : PeerSection)
  | managed (b : ManagedBlock)

def Item.lines : Item → List Text
  | .filler f => [f.line]
  | .interface s => s.header :: s.lines
  | .unmanaged s => s.header :: s.lines
  | .managed b => b.start :: b.peer.header :: (b.peer.lines ++ [b.finish])

/-- A text with well-formed managed blocks. -/
structure ManagedConfig where
  text : Text
  items : List Item
  lines_eq : splitlines text = items.flatMap Item.lines

/-! ### Tags -/

/-- The key id and the label of a managed block. -/
structure Tag where
  keyId : Option Text
  label : Option Text
  deriving DecidableEq

/-- What is reported about a peer: its public key and its tag. -/
def reported (peer : Options) : Option Text × Tag :=
  (peer.get? "PublicKey".toList, ⟨peer.get? managedKeyId, peer.get? managedLabel⟩)

/-- What an item says about its peer. -/
def Item.ownTag : Item → Option (Option Text × Tag)
  | .filler _ => none
  | .interface _ => none
  | .unmanaged s => some (s.options.get? "PublicKey".toList, ⟨none, none⟩)
  | .managed b => some (b.peer.options.get? "PublicKey".toList, ⟨some (natText b.keyId), b.label⟩)

/-- Every peer of a managed block is reported with the tag of that block, and every other peer
without one. -/
def ReportsTags (c : ManagedConfig) : Prop :=
  ∃ peers, listConfigPeers c.text = .ok peers ∧ peers.map reported = c.items.filterMap Item.ownTag

inductive SectionKind
  | interface
  | peer
  deriving DecidableEq

def Item.opens : Item → Option SectionKind
  | .filler _ => none
  | .interface _ => some .interface
  | .unmanaged _ => some .peer
  | .managed _ => some .peer

/-- The section that is open after a list of items. -/
def lastOpened (items : List Item) : Option SectionKind := (items.filterMap Item.opens).getLast?

/-- Some managed block begins while a peer section is open. -/
def FollowsPeer (items : List Item) : Prop :=
  ∃ pre item post, items = pre ++ item :: post ∧
    (∃ b, item = .managed b) ∧ lastOpened pre = some .peer

/-! ### The start marker -/

/-- What the start marker of a block says. -/
def markerOptions (keyId : ℕ) (label : Option Text) : Options :=
  match label with
  | none => Dict.singleton managedKeyId (natText keyId)
  | some l => (Dict.singleton managedKeyId (natText keyId)).set managedLabel l

theorem addMarkerPart_owner (marker : Options) (ownerUserId : ℕ) :
    addMarkerPart marker ("owner=".toList ++ natText ownerUserId) = marker := rfl

theorem addMarkerPart_label (marker : Options) {l : Text} (hne : l ≠ [])
    (hl : ∀ c ∈ l, isSpace c = false) :
    addMarkerPart marker ("label=".toList ++ l) = marker.set managedLabel l := by
  have hdrop : ("label=".toList ++ l).drop "label=".length = l := rfl
  rw [addMarkerPart, startsWith_append, hdrop, strip_eq_self hl]
  simp [hne]

theorem isSpace_append {a b : Text} (ha : ∀ c ∈ a, isSpace c = false)
    (hb : ∀ c ∈ b, isSpace c = false) : ∀ c ∈ a ++ b, isSpace c = false := fun c hc =>
  (List.mem_append.1 hc).elim (ha c) (hb c)

theorem words_owner (ownerUserId : ℕ) (label : Option Text)
    (hl : ∀ l ∈ label, ∀ c ∈ l, isSpace c = false) :
    words ("owner=".toList ++ (natText ownerUserId ++ labelPart label)) =
      ("owner=".toList ++ natText ownerUserId) ::
        (label.map fun l => "label=".toList ++ l).toList := by
  have howner : ∀ c ∈ "owner=".toList ++ natText ownerUserId, isSpace c = false :=
    isSpace_append (forall_mem_of_all (by decide)) fun c hc => isSpace_of_mem_natText hc
  have hne : "owner=".toList ++ natText ownerUserId ≠ [] := by simp
  rw [← List.append_assoc]
  cases label with
  | none =>
    have hpart : labelPart none = [] := rfl
    rw [hpart, List.append_nil, words_of_forall hne howner, Option.map_none, Option.toList_none]
  | some l =>
    have hlabel : ∀ c ∈ "label=".toList ++ l, isSpace c = false :=
      isSpace_append (forall_mem_of_all (by decide)) (hl l rfl)
    have hpart : labelPart (some l) = ' ' :: ("label=".toList ++ l) := rfl
    rw [hpart, words_append_space hne howner, words_of_forall (by simp) hlabel, Option.map_some,
      Option.toList_some]

theorem words_startMarker (keyId ownerUserId : ℕ) (label : Option Text)
    (hl : ∀ l ∈ label, ∀ c ∈ l, isSpace c = false) :
    words ((startMarker keyId ownerUserId label).drop startPrefix.length) =
      natText keyId :: ("owner=".toList ++ natText ownerUserId) ::
        (label.map fun l => "label=".toList ++ l).toList := by
  have hid : ∀ c ∈ natText keyId, isSpace c = false := fun c hc => isSpace_of_mem_natText hc
  have howner : ∀ r, " owner=".toList ++ r = ' ' :: ("owner=".toList ++ r) := fun _ => rfl
  rw [startMarker, List.drop_left, howner, words_append_space (natText_ne_nil _) hid,
    words_owner _ _ hl]

/-- **A start marker is read back.** -/
theorem managedStartMarker_of_lt {keyId : ℕ} (hid : keyId < 10 ^ maxStrDigits) (ownerUserId : ℕ)
    {label : Option Text} (hlabel : ∀ l ∈ label, l ≠ [] ∧ ∀ c ∈ l, isSpace c = false) :
    managedStartMarker (startMarker keyId ownerUserId label) = markerOptions keyId label := by
  have hstart : startsWith startPrefix (startMarker keyId ownerUserId label) = true := startsWith_append _ _
  rw [managedStartMarker, hstart, words_startMarker _ _ _ fun l hl => (hlabel l hl).2]
  simp only [if_true, parseInt_natText hid, List.foldl_cons, addMarkerPart_owner]
  cases label with
  | none => rfl
  | some l => exact addMarkerPart_label _ (hlabel l rfl).1 (hlabel l rfl).2

theorem managedStartMarker_startMarker (b : ManagedBlock) :
    managedStartMarker (startMarker b.keyId b.ownerUserId b.label) =
      markerOptions b.keyId b.label := by
  refine managedStartMarker_of_lt (b.keyId_lt.trans_le ?_) _ b.label_ok
  calc 2 ^ 63 ≤ 10 ^ 19 := by norm_num
    _ ≤ 10 ^ maxStrDigits := Nat.pow_le_pow_right (by norm_num) (by decide)

theorem markerOptions_items_ne_nil (keyId : ℕ) (label : Option Text) :
    (markerOptions keyId label).items.isEmpty = false := by
  cases label with
  | none => rfl
  | some l =>
    have : (managedLabel, l) ∈ (markerOptions keyId (some l)).items :=
      Dict.mem_items_set.2 (Or.inl ⟨rfl, rfl⟩)
    cases hi : (markerOptions keyId (some l)).items with
    | nil => rw [hi] at this; cases this
    | cons p ps => rfl

/-! ### Lines that change nothing -/

theorem managedStartMarker_of_plain {raw : Text} (h : Plain raw) :
    managedStartMarker (strip raw) = Dict.empty := by
  rw [managedStartMarker, h.2]
  rfl

theorem ne_peer_of_plain {raw : Text} (h : Plain raw) : strip raw ≠ "[Peer]".toList := by
  intro he
  have := h.1
  rw [he] at this
  revert this
  decide

theorem onePass_outside_plain {lines : List Text} (h : ∀ l ∈ lines, Plain l) (rest : List Text) :
    onePass (.outside Dict.empty) (lines ++ rest) = onePass (.outside Dict.empty) rest := by
  induction lines with
  | nil => rfl
  | cons l lines ih =>
    have hl := h l List.mem_cons_self
    rw [List.cons_append, onePass]
    simp only [managedStartMarker_of_plain hl, if_neg (ne_peer_of_plain hl), ite_self]
    exact ih fun m hm => h m (List.mem_cons_of_mem _ hm)

theorem onePass_peer_comment {raw : Text} (hh : isHeader (strip raw) = false)
    (ho : optionOf (strip raw) = none) (options pendingMarker : Options) (rest : List Text) :
    onePass (.peer options pendingMarker) (raw :: rest) =
      onePass (.peer options pendingMarker) rest := by
  rw [onePass, hh, addOption, ho]
  rfl

theorem startMarker_comment (keyId ownerUserId : ℕ) (label : Option Text) :
    optionOf (startMarker keyId ownerUserId label) = none ∧
      isHeader (startMarker keyId ownerUserId label) = false := ⟨rfl, rfl⟩

theorem endMarker_comment (keyId : ℕ) :
    optionOf (endMarker keyId) = none ∧ isHeader (endMarker keyId) = false := ⟨rfl, rfl⟩

/-! ### The body of a peer section -/

theorem onePass_peer_body {lines : List Text} (hplain : ∀ l ∈ lines, Plain l)
    (options pendingMarker : Options) (rest : List Text)
    (honce : (((optionsOf lines).map Prod.fst).filter (CRITICAL_PEER_KEYS.contains ·)).Nodup)
    (hnew : ∀ key ∈ (optionsOf lines).map Prod.fst, CRITICAL_PEER_KEYS.contains key →
      options.get? key = none) :
    onePass (.peer options pendingMarker) (lines ++ rest) =
      onePass (.peer ((optionsOf lines).foldl (fun d p => d.set p.1 p.2) options) pendingMarker)
        rest := by
  induction lines generalizing options with
  | nil => rfl
  | cons l lines ih =>
    have hl := hplain l List.mem_cons_self
    have hplain := fun m hm => hplain m (List.mem_cons_of_mem _ hm)
    cases ho : optionOf (strip l) with
    | none =>
      have hopt : optionsOf (l :: lines) = optionsOf lines := by simp [optionsOf, ho]
      rw [hopt] at honce hnew ⊢
      rw [List.cons_append, onePass_peer_comment hl.1 ho, ih hplain options honce hnew]
    | some p =>
      have hopt : optionsOf (l :: lines) = p :: optionsOf lines := by simp [optionsOf, ho]
      rw [hopt, List.map_cons] at honce hnew
      -- the new key is not a critical one that is there already
      have hreject : rejectDuplicateCriticalKey "Peer".toList options p.1 = .ok () := by
        have hname : ("Peer".toList = "Interface".toList) = False := by decide
        simp only [rejectDuplicateCriticalKey, hname, if_false]
        rw [if_neg]
        intro hc
        rw [Bool.and_eq_true, Dict.contains] at hc
        rw [hnew p.1 List.mem_cons_self hc.1] at hc
        cases hc.2
      have hadd : addOption "Peer".toList options l = .ok (options.set p.1 p.2) := by
        rw [addOption, ho]
        simp only [hreject]
        rfl
      have honce' : (((optionsOf lines).map Prod.fst).filter
          (CRITICAL_PEER_KEYS.contains ·)).Nodup :=
        honce.sublist ((List.sublist_cons_self _ _).filter _)
      have hnew' : ∀ key ∈ (optionsOf lines).map Prod.fst, CRITICAL_PEER_KEYS.contains key →
          (options.set p.1 p.2).get? key = none := by
        intro key hkey hc
        rw [Dict.get?_set_of_ne, hnew key (List.mem_cons_of_mem _ hkey) hc]
        rintro rfl
        rw [List.filter_cons_of_pos hc, List.nodup_cons] at honce
        exact honce.1 (List.mem_filter.2 ⟨hkey, hc⟩)
      rw [List.cons_append, onePass, hl.1, hadd, hopt, List.foldl_cons]
      exact ih hplain _ honce' hnew'

theorem onePass_peer_section (s : PeerSection) (pendingMarker : Options) (rest : List Text) :
    onePass (.peer Dict.empty pendingMarker) (s.lines ++ rest) =
      onePass (.peer s.options pendingMarker) rest :=
  onePass_peer_body s.plain _ _ _ s.critical_once fun _ _ _ => rfl

/-! ### What the scanner reports -/

/-- The reported peers; the flag says that a peer section is open. -/
def report : Bool → List Item → List Options
  | _, [] => []
  | open_, .filler _ :: items => report open_ items
  | _, .interface _ :: items => report false items
  | _, .unmanaged s :: items => s.options :: report true items
  | open_, .managed b :: items =>
    (if open_ then b.peer.options else b.peer.options.update (markerOptions b.keyId b.label)) ::
      report true items

theorem openSection_peer (s : PeerSection) :
    openSection (strip s.header) = .peer Dict.empty Dict.empty := by
  rw [s.header_eq]
  rfl

theorem isHeader_peer (s : PeerSection) : isHeader (strip s.header) = true := by
  rw [s.header_eq]
  rfl

theorem isHeader_interface (s : InterfaceSection) : isHeader (strip s.header) = true := by
  rw [s.header_eq]
  rfl

theorem openSection_interface (s : InterfaceSection) :
    openSection (strip s.header) = .outside Dict.empty := by
  rw [s.header_eq]
  rfl

theorem onePass_peer_header {raw : Text} (h : isHeader (strip raw) = true)
    (options pendingMarker : Options) (rest : List Text) :
    onePass (.peer options pendingMarker) (raw :: rest) =
      (onePass (openSection (strip raw)) rest).map (options.update pendingMarker :: ·) := by
  rw [onePass, if_pos h]

/-- **The scanner reports `report`**, outside a peer and in one. -/
theorem onePass_items (items : List Item) :
    onePass (.outside Dict.empty) (items.flatMap Item.lines) = .ok (report false items) ∧
      ∀ options pendingMarker,
        onePass (.peer options pendingMarker) (items.flatMap Item.lines) =
          .ok (options.update pendingMarker :: report true items) := by
  induction items with
  | nil => exact ⟨rfl, fun _ _ => rfl⟩
  | cons item items ih =>
    obtain ⟨ihOutside, ihPeer⟩ := ih
    rw [List.flatMap_cons]
    cases item with
    | filler f =>
      refine ⟨?_, fun options pendingMarker => ?_⟩
      · rw [Item.lines, onePass_outside_plain (by simpa using f.plain)]
        exact ihOutside
      · rw [Item.lines, List.singleton_append, onePass_peer_comment f.plain.1 f.no_content]
        exact ihPeer options pendingMarker
    | interface s =>
      have hbody : onePass (.outside Dict.empty) (s.lines ++ items.flatMap Item.lines) =
          .ok (report false items) := by
        rw [onePass_outside_plain s.plain, ihOutside]
      refine ⟨?_, fun options pendingMarker => ?_⟩
      · rw [Item.lines, List.cons_append, onePass_outside_header (isHeader_interface s),
          openSection_interface, hbody, report]
      · rw [Item.lines, List.cons_append, onePass_peer_header (isHeader_interface s),
          openSection_interface, hbody, report]
        rfl
    | unmanaged s =>
      have hbody : onePass (.peer Dict.empty Dict.empty) (s.lines ++ items.flatMap Item.lines) =
          .ok (s.options :: report true items) := by
        rw [onePass_peer_section, ihPeer, Dict.update_empty]
      refine ⟨?_, fun options pendingMarker => ?_⟩
      · rw [Item.lines, List.cons_append, onePass_outside_header (isHeader_peer s),
          openSection_peer, hbody, report]
      · rw [Item.lines, List.cons_append, onePass_peer_header (isHeader_peer s),
          openSection_peer, hbody, report]
        rfl
    | managed b =>
      have hend := endMarker_comment b.keyId
      rw [← b.finish_eq] at hend
      have hstart := startMarker_comment b.keyId b.ownerUserId b.label
      rw [← b.start_eq] at hstart
      have hbody : ∀ pendingMarker, onePass (.peer Dict.empty pendingMarker)
          ((b.peer.lines ++ [b.finish]) ++ items.flatMap Item.lines) =
            .ok (b.peer.options.update pendingMarker :: report true items) := fun pendingMarker => by
        rw [List.append_assoc, onePass_peer_section, List.singleton_append,
          onePass_peer_comment hend.2 hend.1, ihPeer]
      refine ⟨?_, fun options pendingMarker => ?_⟩
      · have hmarker : managedStartMarker (strip b.start) = markerOptions b.keyId b.label := by
          rw [b.start_eq, managedStartMarker_startMarker]
        rw [Item.lines, List.cons_append, List.cons_append, onePass]
        simp only [hmarker, markerOptions_items_ne_nil, Bool.not_false, if_true]
        rw [onePass]
        simp only [b.peer.header_eq, if_true, hbody, report]
        rfl
      · rw [Item.lines, List.cons_append, List.cons_append,
          onePass_peer_comment hstart.2 hstart.1, onePass_peer_header (isHeader_peer b.peer),
          openSection_peer, hbody, Dict.update_empty, report]
        rfl

/-- **What `list_config_peers` returns for a well-formed config.** -/
theorem listConfigPeers_eq (c : ManagedConfig) : listConfigPeers c.text = .ok (report false c.items) := by
  rw [listConfigPeers, parsePeerBlocks_eq_onePass, c.lines_eq, (onePass_items c.items).1]

/-! ### Which tags are right -/

theorem get?_options_of_forall {l : List (Text × Text)} {key : Text} (h : ∀ p ∈ l, p.1 ≠ key)
    (d : Options) : (l.foldl (fun d p => d.set p.1 p.2) d).get? key = d.get? key := by
  induction l generalizing d with
  | nil => rfl
  | cons p l ih =>
    rw [List.foldl_cons, ih (fun q hq => h q (List.mem_cons_of_mem _ hq)),
      Dict.get?_set_of_ne _ _ (h p List.mem_cons_self).symm]

theorem get?_managed (s : PeerSection) :
    s.options.get? managedKeyId = none ∧ s.options.get? managedLabel = none :=
  ⟨get?_options_of_forall (fun p hp => (s.untagged p hp).1) _,
    get?_options_of_forall (fun p hp => (s.untagged p hp).2) _⟩

theorem reported_options (s : PeerSection) :
    reported s.options = (s.options.get? "PublicKey".toList, ⟨none, none⟩) := by
  rw [reported, (get?_managed s).1, (get?_managed s).2]

theorem get?_markerOptions (keyId : ℕ) (label : Option Text) :
    (markerOptions keyId label).get? "PublicKey".toList = none ∧
      (markerOptions keyId label).get? managedKeyId = some (natText keyId) ∧
      (markerOptions keyId label).get? managedLabel = label := by
  cases label with
  | none => exact ⟨rfl, rfl, rfl⟩
  | some l =>
    refine ⟨?_, ?_, Dict.get?_set_self _ _ _⟩
    · rw [markerOptions, Dict.get?_set_of_ne _ _ (by decide)]
      rfl
    · rw [markerOptions, Dict.get?_set_of_ne _ _ (by decide)]
      rfl

theorem reported_update (b : ManagedBlock) :
    reported (b.peer.options.update (markerOptions b.keyId b.label)) =
      (b.peer.options.get? "PublicKey".toList, ⟨some (natText b.keyId), b.label⟩) := by
  obtain ⟨hkey, hid, hlabel⟩ := get?_markerOptions b.keyId b.label
  rw [reported, Dict.get?_update, Dict.get?_update, Dict.get?_update, hkey, hid, hlabel,
    (get?_managed b.peer).2, Option.none_or, Option.some_or, Option.or_none]

/-- Some managed block begins while a peer section is open, `last` being open at the start. -/
def FollowsPeerFrom (last : Option SectionKind) (items : List Item) : Prop :=
  ∃ pre item post, items = pre ++ item :: post ∧
    (∃ b, item = .managed b) ∧ (lastOpened pre).or last = some .peer

theorem lastOpened_cons (item : Item) (pre : List Item) (last : Option SectionKind) :
    (lastOpened (item :: pre)).or last = (lastOpened pre).or (item.opens.or last) := by
  unfold lastOpened
  cases ho : item.opens with
  | none => rw [List.filterMap_cons_none ho, Option.none_or]
  | some k =>
    rw [List.filterMap_cons_some ho, List.getLast?_cons, Option.some_or]
    cases (List.filterMap Item.opens pre).getLast? <;> rfl

theorem followsPeerFrom_cons (last : Option SectionKind) (item : Item) (items : List Item) :
    FollowsPeerFrom last (item :: items) ↔
      ((∃ b, item = .managed b) ∧ last = some .peer) ∨
        FollowsPeerFrom (item.opens.or last) items := by
  rw [FollowsPeerFrom, exists_split_cons]
  simp only [lastOpened_cons]
  refine or_congr_left ⟨?_, ?_⟩
  · rintro ⟨⟨b, hb⟩, hl⟩
    exact ⟨⟨b, hb⟩, hl⟩
  · rintro ⟨⟨b, hb⟩, hl⟩
    exact ⟨⟨b, hb⟩, hl⟩

theorem map_report_iff (items : List Item) (last : Option SectionKind) :
    (report (last = some .peer) items).map reported = items.filterMap Item.ownTag ↔
      ¬ FollowsPeerFrom last items := by
  induction items generalizing last with
  | nil => simp [report, FollowsPeerFrom]
  | cons item items ih =>
    rw [followsPeerFrom_cons]
    cases item with
    | filler f =>
      have hf : (Item.filler f :: items).filterMap Item.ownTag = items.filterMap Item.ownTag := rfl
      simpa [report, hf, Item.opens] using ih last
    | interface s =>
      have hf : (Item.interface s :: items).filterMap Item.ownTag = items.filterMap Item.ownTag :=
        rfl
      simpa [report, hf, Item.opens] using ih (some .interface)
    | unmanaged s =>
      simpa [report, Item.ownTag, Item.opens, reported_options] using ih (some .peer)
    | managed b =>
      by_cases hl : last = some .peer
      · simp [report, Item.ownTag, hl, reported_options]
      · simpa [report, Item.ownTag, Item.opens, hl, reported_update] using ih (some .peer)

/-- **The tags are right exactly when no managed block follows a peer section.** -/
theorem reportsTags_iff (c : ManagedConfig) : ReportsTags c ↔ ¬ FollowsPeer c.items := by
  have hrun := map_report_iff c.items none
  have hfollows : FollowsPeerFrom none c.items ↔ FollowsPeer c.items := by
    simp only [FollowsPeerFrom, FollowsPeer, Option.or_none]
  have hnone : decide (none = some SectionKind.peer) = false := rfl
  rw [hfollows, hnone] at hrun
  rw [← hrun, ReportsTags, listConfigPeers_eq]
  constructor
  · rintro ⟨peers, he, hp⟩
    cases he
    exact hp
  · exact fun h => ⟨_, rfl, h⟩

/-! ### Two blocks, one behind the other -/

/-- A `[Peer]` section with nothing but a public key. -/
def keyOnlySection (line : Text) (hplain : Plain line)
    (hkey : (optionsOf [line]).map Prod.fst = ["PublicKey".toList]) : PeerSection where
  header := "[Peer]".toList
  lines := [line]
  header_eq := by decide
  plain := by simpa using hplain
  critical_once := by
    rw [hkey]
    decide
  untagged p hp := by
    have hp : p.1 ∈ (optionsOf [line]).map Prod.fst := List.mem_map_of_mem hp
    rw [hkey, List.mem_singleton] at hp
    rw [hp]
    decide

def firstBlock : ManagedBlock where
  keyId := 1
  ownerUserId := 5
  label := none
  start := "# vpn-bot peer start key_id=1 owner=5".toList
  peer := keyOnlySection "PublicKey = A".toList (by decide) (by decide)
  finish := "# vpn-bot peer end key_id=1".toList
  keyId_lt := by decide
  label_ok := by simp
  start_eq := by decide
  finish_eq := by decide

def secondBlock : ManagedBlock where
  keyId := 2
  ownerUserId := 5
  label := none
  start := "# vpn-bot peer start key_id=2 owner=5".toList
  peer := keyOnlySection "PublicKey = B".toList (by decide) (by decide)
  finish := "# vpn-bot peer end key_id=2".toList
  keyId_lt := by decide
  label_ok := by simp
  start_eq := by decide
  finish_eq := by decide

def emptyLine : Filler := ⟨[], by decide, by decide, by decide⟩

/-- The `[Interface]` section and the two blocks. -/
def twoBlocksItems : List Item :=
  [.interface ⟨"[Interface]".toList, ["PrivateKey = x".toList, []], by decide, by decide⟩,
    .managed firstBlock, .filler emptyLine, .managed secondBlock]

def twoBlocks : ManagedConfig where
  text := join '\n' (twoBlocksItems.flatMap Item.lines)
  items := twoBlocksItems
  lines_eq := by
    rw [splitlines_join (forall_lines_of_all (by decide))]
    rfl

/-- The second block is reported without its key id. -/
theorem not_reportsTags_twoBlocks : ¬ ∀ c : ManagedConfig, ReportsTags c := by
  intro h
  obtain ⟨peers, hpeers, htags⟩ := h twoBlocks
  rw [listConfigPeers_eq] at hpeers
  cases hpeers
  have hown : twoBlocks.items.filterMap Item.ownTag =
      [(some ['A'], ⟨some ['1'], none⟩), (some ['B'], ⟨some ['2'], none⟩)] := rfl
  have hreport : (report false twoBlocks.items).map reported =
      [(some ['A'], ⟨some ['1'], none⟩), (some ['B'], ⟨none, none⟩)] := rfl
  rw [hown, hreport] at htags
  revert htags
  decide

end VpnBot.Awg
