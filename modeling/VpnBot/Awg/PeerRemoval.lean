import VpnBot.Awg.PeerBlock

/-!
# The lines that go with a removed peer

`_remove_peer_section_by_identity` drops a `[Peer]` section up to the next header, and with it what stands
between the two: a comment, or the start marker of the block behind it.  The loop keeps `keptLines`
(`removeSectionsLoop_eq`); the sections are always the right ones (`foldlM_keptLines`), and the lines are when
nothing stands behind a dropped section (`removesOnly_iff`).
-/

namespace VpnBot.Awg

open Py

variable {k : Text}

/-! ### The parts of a config -/

/-- A blank line or a comment. -/
structure Comment where
  line : Text
  blank : (strip line).isEmpty || isComment (strip line)

/-- What the loop meets: a line between sections, or a section. -/
inductive Part
  | comment (c : Comment)
  | interface (s : InterfaceSection)
  | peer (s : PeerSection)

def Part.lines : Part → List Text
  | .comment c => [c.line]
  | .interface s => s.header :: s.lines
  | .peer s => s.header :: s.lines

/-- The parts of an item: the markers of a block are comments. -/
def Item.parts : Item → List Part
  | .filler f => [.comment ⟨f.line, f.blank⟩]
  | .interface s => [.interface s]
  | .unmanaged s => [.peer s]
  | .managed b =>
    [.comment ⟨b.start, by rw [b.start_eq]; rfl⟩, .peer b.peer, .comment ⟨b.finish, by rw [b.finish_eq]; rfl⟩]

theorem lines_parts (items : List Item) :
    (items.flatMap Item.parts).flatMap Part.lines = items.flatMap Item.lines := by
  rw [List.flatMap_assoc]
  refine congrArg (List.flatMap · items) (funext fun item => ?_)
  cases item with
  | filler f => rfl
  | interface s => exact List.append_nil _
  | unmanaged s => exact List.append_nil _
  | managed b =>
    show b.start :: b.peer.header :: (b.peer.lines ++ ([b.finish] ++ [])) = _
    rw [List.append_nil]
    rfl

def PeerSection.hasKey (k : Text) (s : PeerSection) : Bool := s.options.get? publicKeyOption = some k

/-- The lines that the loop keeps; the flag says that the section before has been dropped. -/
def keptLines (k : Text) : Bool → List Part → List Text
  | _, [] => []
  | dropped, .comment c :: parts =>
    if dropped then keptLines k dropped parts else c.line :: keptLines k dropped parts
  | _, .interface s :: parts => s.header :: s.lines ++ keptLines k false parts
  | _, .peer s :: parts =>
    if s.hasKey k then keptLines k true parts else s.header :: s.lines ++ keptLines k false parts

/-- A section is dropped. -/
def Part.drops (k : Text) : Part → Bool
  | .peer s => s.hasKey k
  | _ => false

/-! ### The loop -/

theorem Comment.not_isHeader (c : Comment) : isHeader (strip c.line) = false := by
  have hblank := c.blank
  cases hline : strip c.line with
  | nil => rfl
  | cons ch rest =>
    rw [hline] at hblank
    cases hheader : isHeader (ch :: rest) with
    | false => rfl
    | true =>
      rw [(not_isComment_of_isHeader hheader).1, (not_isComment_of_isHeader hheader).2] at hblank
      cases hblank

theorem Comment.optionOf (c : Comment) : optionOf (strip c.line) = none := by
  have hblank := c.blank
  unfold Awg.optionOf
  rw [if_pos hblank]

theorem ne_peer_of_not_isHeader {line : Text} (h : isHeader (strip line) = false) : strip line ≠ "[Peer]".toList := by
  intro heq
  rw [heq] at h
  revert h
  decide

theorem removeSectionsLoop_copy {lines : List Text} (h : ∀ l ∈ lines, strip l ≠ "[Peer]".toList) {n : ℕ}
    (rest : List Text) (hn : lines.length ≤ n) :
    removeSectionsLoop k n (lines ++ rest) =
      (removeSectionsLoop k (n - lines.length) rest).map fun result => (lines ++ result.1, result.2) := by
  induction lines generalizing n with
  | nil =>
    rw [List.nil_append, List.length_nil, Nat.sub_zero]
    cases removeSectionsLoop k n rest <;> rfl
  | cons l lines ih =>
    cases n with
    | zero => cases hn
    | succ n =>
      have hlines := ih (fun m hm => h m (List.mem_cons_of_mem _ hm)) (Nat.le_of_succ_le_succ hn)
      rw [List.cons_append, removeSectionsLoop, if_pos (h l List.mem_cons_self), hlines, List.length_cons,
        Nat.add_sub_add_right]
      cases removeSectionsLoop k (n - lines.length) rest <;> rfl

theorem addOptions_append (name : Text) (options : Options) (lines lines' : List Text) :
    addOptions name options (lines ++ lines') =
      (addOptions name options lines).bind fun options => addOptions name options lines' :=
  List.foldlM_append

theorem addOptions_of_forall {name : Text} {options : Options} {lines : List Text}
    (h : ∀ l ∈ lines, optionOf (strip l) = none) : addOptions name options lines = .ok options := by
  induction lines with
  | nil => rfl
  | cons l lines ih =>
    have hline : addOption name options l = .ok options := by rw [addOption, h l List.mem_cons_self]
    rw [addOptions, List.foldlM_cons, hline]
    exact ih fun m hm => h m (List.mem_cons_of_mem _ hm)

theorem addOptions_section (s : PeerSection) : addOptions "Peer".toList Dict.empty s.lines = .ok s.options := by
  have hblock : s.lines.takeWhile (fun l => !isHeader (strip l)) = s.lines :=
    List.takeWhile_eq_self_iff.mpr fun l hl => by rw [(s.plain l hl).1]; rfl
  have hrun := onePass_peer s.lines Dict.empty Dict.empty
  have hsection := onePass_peer_section s Dict.empty []
  dsimp only at hrun
  rw [hblock, List.drop_length] at hrun
  rw [List.append_nil, hrun] at hsection
  cases hoptions : addOptions "Peer".toList Dict.empty s.lines with
  | error e =>
    rw [hoptions] at hsection
    cases hsection
  | ok options =>
    rw [hoptions] at hsection
    have heq : [options.update Dict.empty] = [s.options.update Dict.empty] := Except.ok.inj hsection
    rw [Dict.update_empty, Dict.update_empty] at heq
    rw [(List.cons.inj heq).1]

theorem exists_comments (parts : List Part) : ∃ (comments : List Comment) (rest : List Part),
    parts = comments.map Part.comment ++ rest ∧ ∀ c rest', rest ≠ .comment c :: rest' := by
  induction parts with
  | nil => exact ⟨[], [], rfl, nofun⟩
  | cons part parts ih =>
    cases part with
    | comment c =>
      obtain ⟨comments, rest, rfl, hrest⟩ := ih
      exact ⟨c :: comments, rest, rfl, hrest⟩
    | interface s => exact ⟨[], .interface s :: parts, rfl, nofun⟩
    | peer s => exact ⟨[], .peer s :: parts, rfl, nofun⟩

theorem keptLines_comments (comments : List Comment) (rest : List Part) :
    keptLines k false (comments.map Part.comment ++ rest) = comments.map Comment.line ++ keptLines k false rest := by
  induction comments with
  | nil => rfl
  | cons c comments ih => exact congrArg (c.line :: ·) ih

theorem keptLines_dropped (comments : List Comment) {rest : List Part}
    (hrest : ∀ c rest', rest ≠ .comment c :: rest') :
    keptLines k true (comments.map Part.comment ++ rest) = keptLines k false rest := by
  induction comments with
  | nil =>
    cases rest with
    | nil => rfl
    | cons part rest =>
      cases part with
      | comment c => exact absurd rfl (hrest c rest)
      | interface s => rfl
      | peer s => rfl
  | cons c comments ih => exact ih

theorem lines_comments (comments : List Comment) :
    (comments.map Part.comment).flatMap Part.lines = comments.map Comment.line := by
  induction comments with
  | nil => rfl
  | cons c comments ih => exact congrArg (c.line :: ·) ih

theorem takeWhile_rest {rest : List Part} (hrest : ∀ c rest', rest ≠ .comment c :: rest') :
    (rest.flatMap Part.lines).takeWhile (fun l => !isHeader (strip l)) = [] := by
  cases rest with
  | nil => rfl
  | cons part rest =>
    cases part with
    | comment c => exact absurd rfl (hrest c rest)
    | interface s =>
      show (s.header :: (s.lines ++ rest.flatMap Part.lines)).takeWhile _ = []
      rw [List.takeWhile_cons_of_neg]
      rw [isHeader_interface s]
      decide
    | peer s =>
      show (s.header :: (s.lines ++ rest.flatMap Part.lines)).takeWhile _ = []
      rw [List.takeWhile_cons_of_neg]
      rw [isHeader_peer s]
      decide

theorem removeSectionsLoop_peer (s : PeerSection) {comments : List Comment} {rest : List Part}
    (hrest : ∀ c rest', rest ≠ .comment c :: rest') {n : ℕ}
    (hbreaks : ∀ l ∈ s.header :: (s.lines ++ comments.map Comment.line), ∀ ch ∈ l, isLineBreak ch = false) :
    removeSectionsLoop k (n + 1) (s.header :: (s.lines ++ comments.map Comment.line ++ rest.flatMap Part.lines)) =
      (removeSectionsLoop k n (rest.flatMap Part.lines)).map fun result =>
        if s.hasKey k then (result.1, true)
        else (s.header :: (s.lines ++ comments.map Comment.line) ++ result.1, result.2) := by
  have hplain : ∀ l ∈ s.lines ++ comments.map Comment.line, isHeader (strip l) = false := by
    intro l hl
    rcases List.mem_append.mp hl with hl | hl
    · exact (s.plain l hl).1
    · obtain ⟨c, -, rfl⟩ := List.mem_map.mp hl
      exact c.not_isHeader
  -- the block ends in front of the next header
  have hblock : (s.lines ++ comments.map Comment.line ++ rest.flatMap Part.lines).takeWhile
      (fun l => !isHeader (strip l)) = s.lines ++ comments.map Comment.line := by
    rw [List.takeWhile_append_of_pos fun l hl => by rw [hplain l hl]; rfl, takeWhile_rest hrest, List.append_nil]
  have hoptions : addOptions "Peer".toList Dict.empty (s.lines ++ comments.map Comment.line) = .ok s.options := by
    rw [addOptions_append, addOptions_section]
    refine addOptions_of_forall fun l hl => ?_
    obtain ⟨c, -, rfl⟩ := List.mem_map.mp hl
    exact c.optionOf
  have hparsed := parseBlock_eq _ s.header_eq hplain hbreaks
  rw [hoptions] at hparsed
  have hpeer : ¬(strip s.header ≠ "[Peer]".toList) := not_not_intro s.header_eq
  rw [removeSectionsLoop, if_neg hpeer, hblock]
  have hdrop : (s.header :: (s.lines ++ comments.map Comment.line ++ rest.flatMap Part.lines)).drop
      (s.header :: (s.lines ++ comments.map Comment.line)).length = rest.flatMap Part.lines := by
    exact List.drop_left
  cases hresult : parseBlock (s.header :: (s.lines ++ comments.map Comment.line)) with
  | error e =>
    rw [hresult] at hparsed
    cases hparsed
  | ok peer =>
    rw [hresult] at hparsed
    have hsame : peer.options = s.options := Except.ok.inj hparsed
    dsimp only [Except.mapError, bind, Except.bind]
    rw [hresult, hdrop, PeerSection.hasKey]
    dsimp only
    rw [hsame]
    cases removeSectionsLoop k n (rest.flatMap Part.lines) with
    | error e => rfl
    | ok result =>
      by_cases hkey : s.options.get? publicKeyOption = some k
      · simp only [hkey, if_true, Except.map, pure, Except.pure, decide_true]
      · simp only [hkey, if_false, Except.map, pure, Except.pure, decide_false, Bool.false_eq_true]

/-- **The loop keeps `keptLines`.** -/
theorem removeSectionsLoop_eq {n : ℕ} {parts : List Part}
    (hbreaks : ∀ l ∈ parts.flatMap Part.lines, ∀ ch ∈ l, isLineBreak ch = false)
    (hn : (parts.flatMap Part.lines).length ≤ n) :
    removeSectionsLoop k n (parts.flatMap Part.lines) = .ok (keptLines k false parts, parts.any (Part.drops k)) := by
  induction n using Nat.strong_induction_on generalizing parts with
  | _ n ih =>
    cases parts with
    | nil => cases n <;> rfl
    | cons part parts =>
      rw [List.flatMap_cons] at hbreaks hn ⊢
      rw [List.length_append] at hn
      have hrest : ∀ l ∈ parts.flatMap Part.lines, ∀ ch ∈ l, isLineBreak ch = false :=
        fun l hl => hbreaks l (List.mem_append_right _ hl)
      cases part with
      | comment c =>
        have hcopy : ∀ l ∈ (Part.comment c).lines, strip l ≠ "[Peer]".toList := by
          intro l hl
          rw [List.mem_singleton.mp hl]
          exact ne_peer_of_not_isHeader c.not_isHeader
        have hlength : (Part.comment c).lines.length = 1 := rfl
        rw [removeSectionsLoop_copy hcopy _ (by omega), ih _ (by omega) hrest (by omega)]
        rfl
      | interface s =>
        have hcopy : ∀ l ∈ (Part.interface s).lines, strip l ≠ "[Peer]".toList := by
          intro l hl
          rcases List.mem_cons.mp hl with rfl | hl
          · rw [s.header_eq]
            decide
          · exact ne_peer_of_plain (s.plain l hl)
        have hlength : (Part.interface s).lines.length = s.lines.length + 1 := rfl
        rw [removeSectionsLoop_copy hcopy _ (by omega), ih _ (by omega) hrest (by omega)]
        rfl
      | peer s =>
        obtain ⟨comments, rest, rfl, hfront⟩ := exists_comments parts
        have hlength : (Part.peer s).lines.length = s.lines.length + 1 := rfl
        rw [List.flatMap_append, lines_comments] at hbreaks hn hrest ⊢
        rw [List.length_append] at hn
        have hlines : (Part.peer s).lines ++ (comments.map Comment.line ++ rest.flatMap Part.lines) =
            s.header :: (s.lines ++ comments.map Comment.line ++ rest.flatMap Part.lines) := by
          rw [List.append_assoc]
          rfl
        have hblock : ∀ l ∈ s.header :: (s.lines ++ comments.map Comment.line), ∀ ch ∈ l, isLineBreak ch = false := by
          intro l hl
          refine hbreaks l ?_
          rw [hlines, ← List.cons_append]
          exact List.mem_append_left _ hl
        have hdrops : ∀ comments : List Comment,
            (comments.map Part.comment ++ rest).any (Part.drops k) = rest.any (Part.drops k) := by
          intro comments
          induction comments with
          | nil => rfl
          | cons c comments ih => exact ih
        obtain ⟨m, rfl⟩ : ∃ m, n = m + 1 := ⟨n - 1, by omega⟩
        have hloop := ih m (Nat.lt_succ_self m) (fun l hl => hrest l (List.mem_append_right _ hl)) (by omega)
        rw [hlines, removeSectionsLoop_peer s hfront hblock, hloop, keptLines, List.any_cons, hdrops,
          keptLines_comments, keptLines_dropped comments hfront]
        show Except.ok (if s.hasKey k then _ else _) = Except.ok (_, s.hasKey k || _)
        cases s.hasKey k with
        | true => rfl
        | false =>
          refine congrArg (fun lines => Except.ok (lines, rest.any (Part.drops k))) ?_
          show s.header :: (s.lines ++ comments.map Comment.line) ++ _ = s.header :: s.lines ++ (_ ++ _)
          rw [← List.append_assoc]
          rfl

theorem keptLines_sublist (dropped : Bool) (parts : List Part) :
    (keptLines k dropped parts).Sublist (parts.flatMap Part.lines) := by
  induction parts generalizing dropped with
  | nil => exact List.Sublist.slnil
  | cons part parts ih =>
    rw [List.flatMap_cons]
    cases part with
    | comment c =>
      rw [keptLines]
      split_ifs
      · exact (ih dropped).trans (List.sublist_append_right _ _)
      · exact (ih dropped).cons_cons c.line
    | interface s => exact (ih false).append_left (s.header :: s.lines)
    | peer s =>
      rw [keptLines]
      split_ifs
      · exact (ih true).trans (List.sublist_append_right _ _)
      · exact (ih false).append_left (s.header :: s.lines)

theorem keptLines_of_none {parts : List Part} (h : parts.any (Part.drops k) = false) :
    keptLines k false parts = parts.flatMap Part.lines := by
  induction parts with
  | nil => rfl
  | cons part parts ih =>
    rw [List.any_cons, Bool.or_eq_false_iff] at h
    rw [List.flatMap_cons]
    cases part with
    | comment c => exact congrArg (c.line :: ·) (ih h.2)
    | interface s => exact congrArg (s.header :: s.lines ++ ·) (ih h.2)
    | peer s =>
      have hkey : s.hasKey k = false := h.1
      rw [keptLines, hkey]
      exact congrArg (s.header :: s.lines ++ ·) (ih h.2)

/-! ### The sections that stay -/

/-- The section is another one than that of the peer. -/
def keeps (k : Text) (section_ : Text × Options) : Bool :=
  !(section_.1 = "Peer".toList && section_.2.get? publicKeyOption = some k)

theorem outlineLine_comment (c : Comment) (sections : List (Text × Options)) :
    (contents [c.line]).foldlM outlineLine sections = .ok sections := by
  have hadd : ∀ (name : Text) (options : Options), addOption name options (strip c.line) = .ok options := by
    intro name options
    rw [addOption_strip, addOption, c.optionOf]
  rw [contents_cons]
  split_ifs
  · rfl
  · show (outlineLine sections (strip c.line)).bind _ = _
    unfold outlineLine
    rw [if_neg (by rw [c.not_isHeader]; exact Bool.false_ne_true)]
    cases sections with
    | nil =>
      dsimp only
      rw [if_pos c.blank]
      rfl
    | cons current done =>
      dsimp only
      rw [hadd]
      rfl

theorem contents_header {header name : Text} (hheader : strip header = name) (hne : name ≠ []) (lines : List Text) :
    contents (header :: lines) = name :: contents lines := by
  rw [contents_cons, hheader, if_neg hne]

theorem addOptions_contents (name : Text) (options : Options) (lines : List Text) :
    addOptions name options (contents lines) = addOptions name options lines := by
  induction lines generalizing options with
  | nil => rfl
  | cons l lines ih =>
    rw [contents_cons, addOptions, addOptions, List.foldlM_cons]
    split_ifs with hblank
    · have hline : addOption name options l = .ok options := by
        rw [← addOption_strip, hblank, addOption_nil]
      rw [hline]
      exact ih options
    · rw [List.foldlM_cons, addOption_strip]
      cases addOption name options l with
      | error e => rfl
      | ok options' => exact ih options'

theorem foldlM_outlineLine_section {header : Text} {lines : List Text} (name : Text)
    (hheader : strip header = "[".toList ++ name ++ "]".toList)
    (hname : ∀ sections, outlineLine sections ("[".toList ++ name ++ "]".toList) = .ok ((name, Dict.empty) :: sections))
    (hlines : ∀ l ∈ lines, Plain l) (sections : List (Text × Options)) :
    (contents (header :: lines)).foldlM outlineLine sections =
      (addOptions name Dict.empty lines).map fun options => (name, options) :: sections := by
  have hbody : ∀ l ∈ contents lines, isHeader l = false := by
    intro l hl
    obtain ⟨m, hm, rfl⟩ := List.mem_map.mp (List.mem_of_mem_filter hl)
    exact (hlines m hm).1
  rw [contents_header hheader (by simp), List.foldlM_cons, hname]
  show (contents lines).foldlM outlineLine ((name, Dict.empty) :: sections) = _
  rw [foldlM_outlineLine_body hbody, addOptions_contents]

theorem foldlM_outlineLine_interface (s : InterfaceSection) (sections : List (Text × Options)) :
    (contents (s.header :: s.lines)).foldlM outlineLine sections =
      (addOptions "Interface".toList Dict.empty s.lines).map fun options => ("Interface".toList, options) :: sections :=
  foldlM_outlineLine_section _ s.header_eq (fun _ => rfl) s.plain sections

theorem foldlM_outlineLine_peer (s : PeerSection) (sections : List (Text × Options)) :
    (contents (s.header :: s.lines)).foldlM outlineLine sections =
      .ok (("Peer".toList, s.options) :: sections) := by
  rw [foldlM_outlineLine_section "Peer".toList s.header_eq (fun _ => rfl) s.plain sections, addOptions_section]
  rfl

/-- **The lines that are kept give the other sections.** -/
theorem foldlM_keptLines (dropped : Bool) (parts : List Part) (sections : List (Text × Options)) :
    (contents (keptLines k dropped parts)).foldlM outlineLine (sections.filter (keeps k)) =
      ((contents (parts.flatMap Part.lines)).foldlM outlineLine sections).map (List.filter (keeps k)) := by
  induction parts generalizing dropped sections with
  | nil => rfl
  | cons part parts ih =>
    rw [List.flatMap_cons, contents_append, List.foldlM_append]
    cases part with
    | comment c =>
      have hline : (contents (Part.comment c).lines).foldlM outlineLine sections = .ok sections :=
        outlineLine_comment c sections
      rw [hline, keptLines]
      split_ifs
      · exact ih dropped sections
      · rw [← List.singleton_append, contents_append, List.foldlM_append, outlineLine_comment]
        exact ih dropped sections
    | interface s =>
      rw [keptLines, contents_append, List.foldlM_append, Part.lines, foldlM_outlineLine_interface,
        foldlM_outlineLine_interface]
      cases addOptions "Interface".toList Dict.empty s.lines with
      | error e => rfl
      | ok options => exact ih false (("Interface".toList, options) :: sections)
    | peer s =>
      rw [keptLines, Part.lines, foldlM_outlineLine_peer]
      cases hkey : s.hasKey k with
      | true =>
        have hfilter : (("Peer".toList, s.options) :: sections).filter (keeps k) = sections.filter (keeps k) :=
          List.filter_cons_of_neg (by simpa [keeps] using of_decide_eq_true hkey)
        have hrest := ih true (("Peer".toList, s.options) :: sections)
        rw [hfilter] at hrest
        exact hrest
      | false =>
        have hfilter : (("Peer".toList, s.options) :: sections).filter (keeps k) =
            ("Peer".toList, s.options) :: sections.filter (keeps k) :=
          List.filter_cons_of_pos (by simpa [keeps] using of_decide_eq_false hkey)
        have hrest := ih false (("Peer".toList, s.options) :: sections)
        rw [hfilter] at hrest
        rw [if_neg Bool.false_ne_true, contents_append, List.foldlM_append, foldlM_outlineLine_peer]
        exact hrest

theorem outlines_keptLines (parts : List Part) :
    outlines (contents (keptLines k false parts)) =
      (outlines (contents (parts.flatMap Part.lines))).map (List.filter (keeps k)) := by
  have hfold := foldlM_keptLines (k := k) false parts []
  rw [List.filter_nil] at hfold
  rw [outlines, outlines, hfold]
  cases (contents (parts.flatMap Part.lines)).foldlM outlineLine [] with
  | error e => rfl
  | ok sections =>
    have hany : (sections.filter (keeps k)).any (·.1 = "Interface".toList) = sections.any (·.1 = "Interface".toList) := by
      rw [List.any_filter]
      refine congrArg (List.any sections) (funext fun section_ => ?_)
      by_cases hname : section_.1 = "Interface".toList
      · have hkeep : keeps k section_ = true := by
          rw [keeps, hname]
          rfl
        rw [hkeep, Bool.true_and]
      · rw [decide_eq_false hname, Bool.and_false]
    simp only [Except.map, bind, Except.bind, hany]
    split_ifs
    · exact congrArg Except.ok (List.filter_reverse ..).symm
    · rfl

/-! ### The lines that should stay -/

/-- The item is a section of the peer or its block. -/
def Item.hasKey (k : Text) : Item → Bool
  | .filler _ => false
  | .interface _ => false
  | .unmanaged s => s.hasKey k
  | .managed b => b.peer.hasKey k

/-- The last section is one of the peer; `dropped` says so of the items before. -/
def Item.droppedAfter (k : Text) (dropped : Bool) : Item → Bool
  | .filler _ => dropped
  | item => item.hasKey k

/-- What may be left of an item of the peer: the start marker is no line of the section, but it goes with a section
of the peer before it. -/
def Item.leftover (dropped : Bool) : Item → List Text
  | .managed b => if dropped then [] else [b.start]
  | _ => []

def Item.staying (k : Text) (dropped : Bool) (item : Item) : List Text :=
  if item.hasKey k then item.leftover dropped else item.lines

/-- The lines that should stay. -/
def staying (k : Text) : Bool → List Item → List Text
  | _, [] => []
  | dropped, item :: items => item.staying k dropped ++ staying k (item.droppedAfter k dropped) items

/-- The sections of the peer go, every other section keeps its options, and every line of another item stays in
its place. -/
def RemovesOnly (k : Text) (c : ManagedConfig) : Prop :=
  ∃ result, removePeerSectionByIdentity c.text k = .ok result ∧
    (parseSections result).map (List.map AwgSection.outline) =
      (parseSections c.text).map (fun sections => (sections.map AwgSection.outline).filter (keeps k)) ∧
    contentLines result = contents (staying k false c.items)

/-- A comment, or the block of another peer. -/
def Item.Exposed (k : Text) : Item → Prop
  | .filler f => strip f.line ≠ []
  | .managed b => b.peer.hasKey k = false
  | _ => False

/-- Behind a section of the peer stands a comment or the block of another peer. -/
def Endangered (k : Text) (items : List Item) : Prop :=
  ∃ pre item post, items = pre ++ item :: post ∧ item.Exposed k ∧ pre.foldl (Item.droppedAfter k) false = true

/-- `Endangered`, behind other items. -/
def EndangeredFrom (k : Text) (dropped : Bool) (items : List Item) : Prop :=
  ∃ pre item post, items = pre ++ item :: post ∧ item.Exposed k ∧ pre.foldl (Item.droppedAfter k) dropped = true

theorem endangeredFrom_cons (k : Text) (dropped : Bool) (item : Item) (items : List Item) :
    EndangeredFrom k dropped (item :: items) ↔
      (item.Exposed k ∧ dropped = true) ∨ EndangeredFrom k (item.droppedAfter k dropped) items :=
  exists_split_cons

theorem exists_kept (k : Text) (dropped : Bool) (item : Item) : ∃ kept : List Text,
    (∀ parts, keptLines k dropped (item.parts ++ parts) = kept ++ keptLines k (item.droppedAfter k dropped) parts) ∧
      (contents kept = contents (item.staying k dropped) ∧ ¬(item.Exposed k ∧ dropped = true) ∨
        (contents kept).length < (contents (item.staying k dropped)).length ∧ item.Exposed k ∧ dropped = true) := by
  cases item with
  | filler f =>
    cases dropped with
    | false => exact ⟨[f.line], fun _ => rfl, .inl ⟨rfl, fun h => Bool.false_ne_true h.2⟩⟩
    | true =>
      refine ⟨[], fun _ => rfl, ?_⟩
      by_cases hblank : strip f.line = []
      · refine .inl ⟨?_, fun h => h.1 hblank⟩
        show [] = contents [f.line]
        rw [contents_cons, if_pos hblank]
        rfl
      -- a line behind a dropped peer goes with it: one content line is lost
      · refine .inr ⟨?_, hblank, rfl⟩
        show 0 < (contents [f.line]).length
        rw [contents_cons, if_neg hblank]
        exact Nat.succ_pos _
  | interface s => exact ⟨s.header :: s.lines, fun _ => rfl, .inl ⟨rfl, fun h => h.1⟩⟩
  | unmanaged s =>
    cases hkey : s.hasKey k with
    | true =>
      refine ⟨[], fun parts => ?_, .inl ⟨?_, fun h => h.1⟩⟩
      · show keptLines k dropped (.peer s :: parts) = keptLines k (s.hasKey k) parts
        rw [keptLines, hkey, if_pos rfl]
      · rw [Item.staying, Item.hasKey, hkey]
        rfl
    | false =>
      refine ⟨s.header :: s.lines, fun parts => ?_, .inl ⟨?_, fun h => h.1⟩⟩
      · show keptLines k dropped (.peer s :: parts) = s.header :: s.lines ++ keptLines k (s.hasKey k) parts
        rw [keptLines, hkey, if_neg Bool.false_ne_true]
      · rw [Item.staying, Item.hasKey, hkey]
        rfl
  | managed b =>
    have hparts : ∀ parts, keptLines k dropped ((Item.managed b).parts ++ parts) =
        (if dropped then [] else [b.start]) ++ (if b.peer.hasKey k then keptLines k true parts
          else b.peer.header :: b.peer.lines ++ (b.finish :: keptLines k false parts)) := by
      intro parts
      cases dropped <;> rfl
    cases hkey : b.peer.hasKey k with
    | true =>
      refine ⟨if dropped then [] else [b.start], fun parts => ?_, .inl ⟨?_, fun h => ?_⟩⟩
      · rw [hparts, hkey, if_pos rfl, Item.droppedAfter, Item.hasKey, hkey]
        exact fun f hf => nomatch hf
      · rw [Item.staying, Item.hasKey, hkey]
        rfl
      · have hother : b.peer.hasKey k = false := h.1
        rw [hkey] at hother
        cases hother
    | false =>
      have hstaying : (Item.managed b).staying k dropped = b.start :: b.peer.header :: (b.peer.lines ++ [b.finish]) := by
        rw [Item.staying, Item.hasKey, hkey]
        rfl
      refine ⟨(if dropped then [] else [b.start]) ++ b.peer.header :: (b.peer.lines ++ [b.finish]),
        fun parts => ?_, ?_⟩
      · rw [hparts, hkey, if_neg Bool.false_ne_true, Item.droppedAfter, Item.hasKey, hkey]
        · simp only [List.append_assoc, List.cons_append, List.nil_append]
        · exact fun f hf => nomatch hf
      · rw [hstaying]
        cases dropped with
        | false => exact .inl ⟨rfl, fun h => Bool.false_ne_true h.2⟩
        | true =>
          refine .inr ⟨?_, hkey, rfl⟩
          -- the start marker stood behind a dropped peer and goes with it
          have hstart : strip b.start ≠ [] := by
            rw [b.start_eq]
            exact (stripped_startMarker _ _ b.label_ok).2
          rw [contents_cons (l := b.start), if_neg hstart]
          exact Nat.lt_succ_self _

/-- **What the loop keeps are the lines that should stay**, or there are fewer of them. -/
theorem contents_keptLines (k : Text) (dropped : Bool) (items : List Item) :
    contents (keptLines k dropped (items.flatMap Item.parts)) = contents (staying k dropped items) ∧
        ¬EndangeredFrom k dropped items ∨
      (contents (keptLines k dropped (items.flatMap Item.parts))).length <
          (contents (staying k dropped items)).length ∧ EndangeredFrom k dropped items := by
  induction items generalizing dropped with
  | nil =>
    refine .inl ⟨rfl, ?_⟩
    rintro ⟨pre, item, post, hsplit, -⟩
    exact List.append_ne_nil_of_right_ne_nil pre (List.cons_ne_nil item post) hsplit.symm
  | cons item items ih =>
    obtain ⟨kept, hkept, hitem⟩ := exists_kept k dropped item
    rw [endangeredFrom_cons, List.flatMap_cons, hkept, staying, contents_append, contents_append, List.length_append,
      List.length_append]
    rcases hitem with ⟨hsame, hsafe⟩ | ⟨hless, hexposed⟩
    · rw [hsame]
      rcases ih (item.droppedAfter k dropped) with ⟨heq, hrest⟩ | ⟨hlt, hrest⟩
      · exact .inl ⟨by rw [heq], not_or.mpr ⟨hsafe, hrest⟩⟩
      · exact .inr ⟨Nat.add_lt_add_left hlt _, .inr hrest⟩
    · refine .inr ⟨?_, .inl hexposed⟩
      rcases ih (item.droppedAfter k dropped) with ⟨heq, -⟩ | ⟨hlt, -⟩
      · rw [heq]
        exact Nat.add_lt_add_right hless _
      · exact Nat.add_lt_add hless hlt

/-! ### The whole function -/

theorem removePeerSectionByIdentity_eq (k : Text) (c : ManagedConfig) : ∃ result,
    removePeerSectionByIdentity c.text k = .ok result ∧
      contentLines result = contents (keptLines k false (c.items.flatMap Item.parts)) := by
  have hlines : splitlines c.text = (c.items.flatMap Item.parts).flatMap Part.lines := by
    rw [c.lines_eq, lines_parts]
  have hbreaks : ∀ l ∈ (c.items.flatMap Item.parts).flatMap Part.lines, ∀ ch ∈ l, isLineBreak ch = false := by
    rw [← hlines]
    exact fun l => isLineBreak_of_mem_splitlines
  have hloop := removeSectionsLoop_eq (k := k) hbreaks le_rfl
  have hkept : ∀ l ∈ keptLines k false (c.items.flatMap Item.parts), ∀ ch ∈ l, isLineBreak ch = false :=
    fun l hl => hbreaks l ((keptLines_sublist false _).subset hl)
  rw [removePeerSectionByIdentity, hlines, hloop]
  cases hany : (c.items.flatMap Item.parts).any (Part.drops k) with
  | true =>
    refine ⟨_, rfl, ?_⟩
    rw [contentLines_append_cons (by decide), contentLines_rstrip, contentLines_join hkept]
    exact List.append_nil _
  | false =>
    refine ⟨c.text, rfl, ?_⟩
    rw [keptLines_of_none hany, ← hlines]
    rfl

/-- **Only the peer is removed exactly when no comment and no block of another peer stands behind a section of
it.** -/
theorem removesOnly_iff (k : Text) (c : ManagedConfig) : RemovesOnly k c ↔ ¬Endangered k c.items := by
  obtain ⟨result, hresult, hcontent⟩ := removePeerSectionByIdentity_eq k c
  have hall : contentLines c.text = contents ((c.items.flatMap Item.parts).flatMap Part.lines) := by
    rw [lines_parts, ← c.lines_eq]
    rfl
  -- the sections are always the right ones
  have hsections : (parseSections result).map (List.map AwgSection.outline) =
      (parseSections c.text).map (fun sections => (sections.map AwgSection.outline).filter (keeps k)) := by
    rw [parseSections_outline, hcontent, outlines_keptLines, ← hall, ← parseSections_outline]
    cases parseSections c.text <;> rfl
  have hlines := contents_keptLines k false c.items
  constructor
  · rintro ⟨result', hresult', -, hstaying⟩ hendangered
    rw [hresult] at hresult'
    obtain rfl := Except.ok.inj hresult'
    rcases hlines with ⟨-, hsafe⟩ | ⟨hlt, -⟩
    · exact hsafe hendangered
    · rw [← hcontent, hstaying] at hlt
      exact lt_irrefl _ hlt
  · intro hsafe
    rcases hlines with ⟨heq, -⟩ | ⟨-, hendangered⟩
    · exact ⟨result, hresult, hsections, hcontent.trans heq⟩
    · exact absurd hendangered hsafe

/-- Of the block behind the removed one, the start marker goes. -/
theorem start_goes_with_peer_before : ¬∀ (k : Text) (c : ManagedConfig), RemovesOnly k c := by
  intro h
  obtain ⟨result, hresult, -, hstaying⟩ := h "A".toList twoBlocks
  have hremoved : (removePeerSectionByIdentity twoBlocks.text "A".toList).toOption.map contentLines ≠
      some (contents (staying "A".toList false twoBlocks.items)) := by
    decide +kernel
  rw [hresult] at hremoved
  exact hremoved (congrArg some hstaying)

end VpnBot.Awg
