import VpnBot.Awg.DirectAtomicity
import VpnBot.Awg.PeerBlock
import VpnBot.System.Blocks

/-!
# The blocks of a run

Calls of `add_peer` and `remove_peer` in direct mode, one after another, on a config that has no start marker at
first.  The lines with content are the lines of the first config, and behind them the blocks of the keys that have
been added and not removed since, in the order in which they were last added (`contentLines_of_runs`).

The code looks for the start marker of a key in two ways: `_managed_block_exists` in the lines as they stand, and
`_remove_managed_block` in the stripped ones.  Both agree as long as no start marker is indented (`Flush`).
-/

namespace VpnBot.Awg

open Py Sys Program

/-! ### Markers -/

variable {k : ℕ} {t u l : Text} {c : AddCall}

/-- The lines that open the block of a key, and those that close it. -/
def opensBlock (k : ℕ) (l : Text) : Bool := startsWith (startMarkerHead k) l
@[inherit_doc opensBlock] def closesBlock (k : ℕ) (l : Text) : Bool := l = endMarker k

/-- The start marker of any key. -/
def isStart (l : Text) : Bool := startsWith startPrefix l

/-- A start marker is that of one key only, also where one number begins with the other. -/
theorem opensBlock_startMarker (k k' ownerUserId : ℕ) (label : Option Text) (w : Text) :
    opensBlock k (startMarker k' ownerUserId label ++ w) = decide (k = k') := by
  rw [Bool.eq_iff_iff, decide_eq_true_eq, opensBlock, startsWith, List.isPrefixOf_iff_prefix, startMarkerHead,
    startMarker, List.append_assoc, List.prefix_append_right_inj]
  constructor
  · rintro ⟨rest, hrest⟩
    have hspace (n : ℕ) : ' ' ∉ natText n := not_mem_natText (by decide) n
    have hcut : natText k ++ ' ' :: rest =
        natText k' ++ ' ' :: ("owner=".toList ++ (natText ownerUserId ++ labelPart label) ++ w) := by
      rw [List.append_cons, hrest, List.append_assoc]
      rfl
    have hsplit := congrArg (splitOnce ' ') hcut
    rw [splitOnce_append (hspace k), splitOnce_append (hspace k'), Option.some.injEq, Prod.mk.injEq] at hsplit
    exact natText_injective hsplit.1
  · rintro rfl
    exact ⟨"owner=".toList ++ (natText ownerUserId ++ labelPart label) ++ w, by simp⟩

theorem isStart_of_opensBlock (h : opensBlock k l = true) : isStart l = true := by
  rw [opensBlock, startsWith, List.isPrefixOf_iff_prefix] at h
  rw [isStart, startsWith, List.isPrefixOf_iff_prefix]
  exact (List.prefix_append _ _).trans h

theorem opensBlock_of_not_isStart (h : isStart l = false) (k : ℕ) : opensBlock k l = false := by
  cases hopens : opensBlock k l with
  | false => rfl
  | true =>
    rw [isStart_of_opensBlock hopens] at h
    cases h

theorem isComment_of_isStart (h : isStart l = true) : isComment l = true := by
  rw [isStart, startsWith, List.isPrefixOf_iff_prefix] at h
  obtain ⟨rest, rfl⟩ := h
  rfl

theorem isStart_endMarker (k : ℕ) : isStart (endMarker k) = false := by
  have hend : ∀ t : Text, isStart ("# vpn-bot peer end key_id=".toList ++ t) = false := fun _ => rfl
  exact hend _

theorem isComment_endMarker (k : ℕ) : isComment (endMarker k) = true := by
  have hend : ∀ t : Text, isComment ("# vpn-bot peer end key_id=".toList ++ t) = true := fun _ => rfl
  exact hend _

theorem isComment_body (hl : l ∈ "[Peer]".toList :: c.bodyLines) : isComment l = false := by
  rcases List.mem_cons.1 hl with rfl | hl
  · decide
  rcases List.mem_cons.1 hl with rfl | hl
  · exact ((plainKey_of_mem (by decide)).line _).2.1
  rcases List.mem_append.1 hl with hl | hl
  · obtain ⟨preshared, -, rfl⟩ := List.mem_map.1 hl
    exact ((plainKey_of_mem (by decide)).line _).2.1
  · rw [List.mem_singleton.1 hl]
    exact ((plainKey_of_mem (by decide)).line _).2.1

theorem isStart_of_mem_blockLines (hl : l ∈ c.blockLines) : l = c.startLine ∨ isStart l = false := by
  rcases List.mem_cons.1 hl with rfl | hl
  · exact .inl rfl
  refine .inr ?_
  rw [← List.cons_append] at hl
  rcases List.mem_append.1 hl with hl | hl
  · cases hstart : isStart l with
    | false => rfl
    | true =>
      have hcomment := isComment_of_isStart hstart
      rw [isComment_body hl] at hcomment
      cases hcomment
  · rw [List.mem_singleton.1 hl]
    exact isStart_endMarker _

theorem opensBlock_startLine (c : AddCall) (k : ℕ) (w : Text) :
    opensBlock k (c.startLine ++ w) = decide (k = c.keyId) :=
  opensBlock_startMarker k c.keyId c.ownerUserId c.shownLabel w

theorem opensBlock_of_mem_blockLines (hne : c.keyId ≠ k) : ∀ l ∈ c.blockLines, opensBlock k l = false := by
  intro l hl
  rcases isStart_of_mem_blockLines hl with rfl | hstart
  · rw [← List.append_nil c.startLine, opensBlock_startLine, decide_eq_false_iff_not]
    exact Ne.symm hne
  · exact opensBlock_of_not_isStart hstart k

theorem framed_blockLines (c : AddCall) : Framed (opensBlock c.keyId) (closesBlock c.keyId) c.blockLines := by
  refine ⟨c.startLine, "[Peer]".toList :: c.bodyLines, endMarker c.keyId, rfl, ?_, fun l hl => ?_,
    decide_eq_true rfl⟩
  · rw [← List.append_nil c.startLine, opensBlock_startLine, decide_eq_true rfl]
  · rw [closesBlock, decide_eq_false_iff_not]
    rintro rfl
    have hcomment := isComment_body hl
    rw [isComment_endMarker] at hcomment
    cases hcomment

/-! ### Stripped lines -/

theorem contents_takeWhile {p : Text → Bool} (hp : p [] = true) (ls : List Text) :
    contents (ls.takeWhile fun l => p (strip l)) = (contents ls).takeWhile p := by
  induction ls with
  | nil => rfl
  | cons l ls ih =>
    rw [contents_cons]
    cases hl : p (strip l) with
    | false =>
      have hne : strip l ≠ [] := by
        intro heq
        rw [heq, hp] at hl
        cases hl
      rw [List.takeWhile_cons_of_neg (by simp [hl]), if_neg hne, List.takeWhile_cons_of_neg (by simp [hl])]
      rfl
    | true =>
      rw [List.takeWhile_cons_of_pos (by simp [hl]), contents_cons, ih]
      split_ifs
      · rfl
      · rw [List.takeWhile_cons_of_pos hl]

theorem contents_dropWhile {p : Text → Bool} (hp : p [] = true) (ls : List Text) :
    contents (ls.dropWhile fun l => p (strip l)) = (contents ls).dropWhile p := by
  induction ls with
  | nil => rfl
  | cons l ls ih =>
    cases hl : p (strip l) with
    | false =>
      have hne : strip l ≠ [] := by
        intro heq
        rw [heq, hp] at hl
        cases hl
      rw [List.dropWhile_cons_of_neg (by simp [hl]), contents_cons, if_neg hne,
        List.dropWhile_cons_of_neg (by simp [hl])]
    | true =>
      rw [List.dropWhile_cons_of_pos (by simp [hl]), ih, contents_cons]
      split_ifs
      · rfl
      · rw [List.dropWhile_cons_of_pos hl]

theorem contents_tail_dropWhile {p : Text → Bool} (hp : p [] = true) (ls : List Text) :
    contents (ls.dropWhile fun l => p (strip l)).tail = ((contents ls).dropWhile p).tail := by
  rw [← contents_dropWhile hp]
  cases hrest : ls.dropWhile fun l => p (strip l) with
  | nil => rfl
  | cons l rest =>
    have hl := List.head_dropWhile_not (fun l => p (strip l)) (l := ls) (by rw [hrest]; exact List.cons_ne_nil _ _)
    have hhead : p (strip l) = false := by simpa [hrest] using hl
    have hne : strip l ≠ [] := by
      intro heq
      rw [heq, hp] at hhead
      cases hhead
    rw [contents_cons, if_neg hne]
    rfl

theorem contents_cutOut {opens closes : Text → Bool} (hopens : opens [] = false) (hcloses : closes [] = false)
    (ls : List Text) : contents (cutOut (fun l => opens (strip l)) (fun l => closes (strip l)) ls) =
      cutOut opens closes (contents ls) := by
  rw [cutOut, cutOut, contents_append, contents_takeWhile (p := fun l => !opens l) (by simp [hopens]),
    contents_tail_dropWhile (p := fun l => !closes l) (by simp [hcloses]),
    contents_tail_dropWhile (p := fun l => !opens l) (by simp [hopens])]

/-! ### Start markers as they stand -/

/-- No start marker is indented. -/
def Flush (t : Text) : Prop := ∀ l ∈ splitlines t, isStart (strip l) = true → isStart l = true

theorem isStart_append {w : Text} (hw : ∀ ch ∈ w, isSpace ch = true) (h : isStart (l ++ w) = true) :
    isStart l = true := by
  rw [isStart, startsWith, List.isPrefixOf_iff_prefix] at h ⊢
  by_cases hlength : startPrefix.length ≤ l.length
  · exact List.prefix_of_prefix_length_le h (List.prefix_append l w) hlength
  · -- Otherwise the last character of the marker would be white space.
    exfalso
    obtain ⟨v, hv⟩ := List.prefix_of_prefix_length_le (List.prefix_append l w) h (by omega)
    have hne : v ≠ [] := by
      rintro rfl
      rw [List.append_nil] at hv
      exact hlength (by rw [hv])
    have hlast : v.getLast? = startPrefix.getLast? := by rw [← hv, List.getLast?_append_of_ne_nil _ hne]
    have hmem : '=' ∈ v := List.mem_of_getLast? (hlast.trans (by decide))
    have hspace : v <+: w := by
      rw [← hv] at h
      exact (List.prefix_append_right_inj l).1 h
    exact absurd (hw '=' (hspace.subset hmem)) (by decide)

/-- A start marker that is not indented is a stripped one with white space behind it. -/
theorem exists_append_of_isStart (h : isStart l = true) :
    ∃ w : Text, (∀ ch ∈ w, isSpace ch = true) ∧ l = strip l ++ w := by
  obtain ⟨v, w, hv, hw, hl⟩ := exists_strip l
  refine ⟨w, hw, ?_⟩
  cases v with
  | nil => exact hl
  | cons d v =>
    rw [isStart, startsWith, List.isPrefixOf_iff_prefix] at h
    obtain ⟨rest, hrest⟩ := h
    have hhead := congrArg List.head? (hrest.trans hl)
    obtain rfl : '#' = d := Option.some.inj hhead
    exact absurd (hv '#' List.mem_cons_self) (by decide)

theorem isStart_strip (h : isStart l = true) : isStart (strip l) = true := by
  obtain ⟨w, hw, hl⟩ := exists_append_of_isStart h
  exact isStart_append hw (hl ▸ h)

/-- Characters behind a text go to its last line, or make up lines of their own. -/
theorem splitlines_append (t w : Text) : splitlines t = [] ∨ ∃ l ls v ls', splitlines t = l :: ls ∧
    splitlines (t ++ w) = (l ++ v) :: ls' ∧ (∀ ch ∈ v, ch ∈ w) ∧
      ∀ m ∈ ls, ∃ v, (∀ ch ∈ v, ch ∈ w) ∧ m ++ v ∈ ls' := by
  induction t with
  | nil => exact .inl rfl
  | cons d t ih =>
    right
    by_cases hpair : d = '\r' ∧ t.head? = some '\n'
    · have hpair' : d = '\r' ∧ (t ++ w).head? = some '\n' := ⟨hpair.1, by rw [List.head?_append, hpair.2]; rfl⟩
      rw [List.cons_append, splitlines, splitlines, if_pos hpair, if_pos hpair']
      rcases ih with hnil | hcons
      · cases t with
        | nil => cases hpair.2
        | cons e t =>
          obtain ⟨hempty, -⟩ | ⟨l, ls, ms, hl, -⟩ := splitlines_eq_or (e :: t)
          · cases hempty
          · rw [hl] at hnil
            cases hnil
      · exact hcons
    by_cases hbreak : isLineBreak d = true
    · have hends : ∃ ls', splitlines (d :: (t ++ w)) = [] :: ls' ∧ ∀ m ∈ splitlines t, ∃ v, (∀ ch ∈ v, ch ∈ w) ∧
          m ++ v ∈ ls' := by
        by_cases hpair' : d = '\r' ∧ (t ++ w).head? = some '\n'
        · -- The carriage return at the end of the text and the line feed behind it are one break.
          cases t with
          | nil =>
            have hjoined : splitlines (d :: ([] ++ w)) = splitlines w := by
              rw [splitlines, if_pos hpair']
              rfl
            rw [hjoined]
            cases w with
            | nil => cases hpair'.2
            | cons e w =>
              obtain rfl : e = '\n' := Option.some.inj hpair'.2
              exact ⟨splitlines w, by simp [splitlines, isLineBreak], fun m hm => by cases hm⟩
          | cons e t => exact absurd ⟨hpair'.1, hpair'.2⟩ hpair
        · rw [splitlines, if_neg hpair', if_pos hbreak]
          refine ⟨_, rfl, fun m hm => ?_⟩
          rcases ih with hnil | ⟨l, ls, v, ls', hl, hl', hv, hls⟩
          · rw [hnil] at hm
            cases hm
          · rw [hl] at hm
            rw [hl']
            rcases List.mem_cons.1 hm with rfl | hm
            · exact ⟨v, hv, List.mem_cons_self⟩
            · obtain ⟨v', hv', hmem⟩ := hls m hm
              exact ⟨v', hv', List.mem_cons_of_mem _ hmem⟩
      obtain ⟨ls', hls', hmem⟩ := hends
      rw [splitlines, if_neg hpair, if_pos hbreak]
      exact ⟨[], splitlines t, [], ls', rfl, hls', by simp, hmem⟩
    · have hplain : isLineBreak d = false := by simpa using hbreak
      rw [List.cons_append, splitlines_cons hplain, splitlines_cons hplain]
      rcases ih with hnil | ⟨l, ls, v, ls', hl, hl', hv, hls⟩
      · obtain ⟨rfl, -⟩ | ⟨l, ls, ms, hl, -⟩ := splitlines_eq_or t
        · cases hw : splitlines w with
          | nil => exact ⟨[d], [], [], [], rfl, by simp [hw], by simp, by simp⟩
          | cons l ls =>
            refine ⟨[d], [], l, ls, rfl, by simp [hw], fun ch hch => ?_, by simp⟩
            exact mem_of_mem_splitlines (hw ▸ List.mem_cons_self) hch
        · rw [hl] at hnil
          cases hnil
      · rw [hl, hl']
        exact ⟨d :: l, ls, v, ls', rfl, rfl, hv, hls⟩

theorem flush_rstrip (h : Flush t) : Flush (rstrip t) := by
  intro l hl hstart
  obtain ⟨w, hw, ht⟩ := rstrip_append t
  have hline : ∃ v, (∀ ch ∈ v, ch ∈ w) ∧ l ++ v ∈ splitlines t := by
    have happend := splitlines_append (rstrip t) w
    rw [← ht] at happend
    rcases happend with hnil | ⟨m, ms, v, ms', hm, hm', hv, hms⟩
    · rw [hnil] at hl
      cases hl
    · rw [hm] at hl
      rw [hm']
      rcases List.mem_cons.1 hl with rfl | hl
      · exact ⟨v, hv, List.mem_cons_self⟩
      · obtain ⟨v', hv', hmem⟩ := hms l hl
        exact ⟨v', hv', List.mem_cons_of_mem _ hmem⟩
  obtain ⟨v, hv, hmem⟩ := hline
  have hspace : ∀ ch ∈ v, isSpace ch = true := fun ch hch => hw ch (hv ch hch)
  refine isStart_append hspace (h _ hmem ?_)
  rw [strip_append_of_forall hspace]
  exact hstart

theorem splitlines_append_newline_of_last (hlast : ∀ ch ∈ t.getLast?, isLineBreak ch = false) (hne : t ≠ []) (u : Text) :
    splitlines (t ++ '\n' :: u) = splitlines t ++ splitlines u := by
  induction t with
  | nil => exact absurd rfl hne
  | cons d t ih =>
    cases t with
    | nil =>
      have hplain : isLineBreak d = false := hlast d rfl
      have hline : ∀ ch ∈ [d], isLineBreak ch = false := by simpa using hplain
      rw [splitlines_append_newline hline, splitlines_line hline]
      rfl
    | cons e t =>
      have hrest := ih (fun ch hch => hlast ch (by rw [List.getLast?_cons_cons]; exact hch)) (List.cons_ne_nil _ _)
      have hhead : (e :: t ++ '\n' :: u).head? = (e :: t).head? := rfl
      rw [List.cons_append, splitlines, splitlines, hhead, hrest]
      split_ifs
      · rfl
      · rfl
      · obtain ⟨hempty, -⟩ | ⟨l, ls, ms, hl, -⟩ := splitlines_eq_or (e :: t)
        · cases hempty
        · rw [hl]
          rfl

theorem getLast?_rstrip (t : Text) : ∀ ch ∈ (rstrip t).getLast?, isLineBreak ch = false := by
  intro ch hch
  rw [rstrip, List.getLast?_reverse] at hch
  have hhead := List.head?_dropWhile_not isSpace t.reverse
  rw [Option.mem_def.1 hch] at hhead
  exact isLineBreak_of_not_isSpace (by simpa using hhead)

theorem flush_append_newline (ht : Flush t) (hlast : ∀ ch ∈ t.getLast?, isLineBreak ch = false) (hu : Flush u) :
    Flush (t ++ '\n' :: u) := by
  intro l hl hstart
  by_cases hne : t = []
  · subst hne
    rw [splitlines_append_newline (by simp)] at hl
    rcases List.mem_cons.1 hl with rfl | hl
    · exact hstart
    · exact hu l hl hstart
  · rw [splitlines_append_newline_of_last hlast hne] at hl
    rcases List.mem_append.1 hl with hl | hl
    · exact ht l hl hstart
    · exact hu l hl hstart

theorem flush_join {ls : List Text} (hbreaks : ∀ l ∈ ls, ∀ ch ∈ l, isLineBreak ch = false)
    (h : ∀ l ∈ ls, isStart (strip l) = true → isStart l = true) : Flush (join '\n' ls) := by
  intro l hl
  rw [splitlines_join hbreaks] at hl
  exact h l (mem_of_mem_dropEmptyLast hl)

/-! ### The config and its blocks -/

/-- The config has these blocks behind some lines that are no start markers. -/
structure HasBlocks (front : List Text) (blocks : List AddCall) (t : Text) : Prop where
  content : contentLines t = front ++ blocks.flatMap AddCall.blockLines
  front : ∀ l ∈ front, isStart l = false
  nodup : (blocks.map AddCall.keyId).Nodup
  flush : Flush t

variable {front : List Text} {blocks : List AddCall}

theorem mem_contentLines_iff : l ∈ contentLines t ↔ l ≠ [] ∧ ∃ m ∈ splitlines t, strip m = l := by
  rw [contentLines, List.mem_filter, List.mem_map, and_comm, Bool.not_eq_true', List.isEmpty_eq_false_iff]

theorem HasBlocks.start_of_mem (h : HasBlocks front blocks t) (hl : l ∈ contentLines t) (hstart : isStart l = true) :
    ∃ c ∈ blocks, l = c.startLine := by
  rw [h.content] at hl
  rcases List.mem_append.1 hl with hl | hl
  · rw [h.front l hl] at hstart
    cases hstart
  · obtain ⟨c, hc, hl⟩ := List.mem_flatMap.1 hl
    rcases isStart_of_mem_blockLines hl with rfl | hnone
    · exact ⟨c, hc, rfl⟩
    · rw [hnone] at hstart
      cases hstart

theorem HasBlocks.startLine_mem (h : HasBlocks front blocks t) (hc : c ∈ blocks) : c.startLine ∈ contentLines t := by
  rw [h.content]
  exact List.mem_append_right _ (List.mem_flatMap.2 ⟨c, hc, List.mem_cons_self⟩)

theorem HasBlocks.managedBlockExists_iff (h : HasBlocks front blocks t) :
    managedBlockExists t k = true ↔ k ∈ blocks.map AddCall.keyId := by
  rw [managedBlockExists, List.any_eq_true, List.mem_map]
  constructor
  · rintro ⟨l, hl, hopens⟩
    have hstart : isStart l = true := isStart_of_opensBlock hopens
    obtain ⟨w, -, hlw⟩ := exists_append_of_isStart hstart
    have hstrip := isStart_strip hstart
    have hne : strip l ≠ [] := by
      intro heq
      rw [heq] at hstrip
      cases hstrip
    obtain ⟨c, hc, heq⟩ := h.start_of_mem (mem_contentLines_iff.2 ⟨hne, l, hl, rfl⟩) hstrip
    have hkey : opensBlock k l = true := hopens
    rw [hlw, heq, opensBlock_startLine, decide_eq_true_eq] at hkey
    exact ⟨c, hc, hkey.symm⟩
  · rintro ⟨c, hc, rfl⟩
    obtain ⟨-, l, hl, hstrip⟩ := mem_contentLines_iff.1 (h.startLine_mem hc)
    have hstart : isStart (strip l) = true := by
      rw [hstrip]
      exact isStart_of_opensBlock (k := c.keyId)
        (by rw [← List.append_nil c.startLine, opensBlock_startLine, decide_eq_true rfl])
    obtain ⟨w, -, hlw⟩ := exists_append_of_isStart (h.flush l hl hstart)
    refine ⟨l, hl, ?_⟩
    show opensBlock c.keyId l = true
    rw [hlw, hstrip, opensBlock_startLine, decide_eq_true rfl]

/-! ### A new block -/

theorem HasBlocks.appended (h : HasBlocks front blocks t) (hchecked : c.Checked) (hip : Harmless c.clientIp)
    (hnew : c.keyId ∉ blocks.map AddCall.keyId) (happended : c.appended t = .ok u) :
    HasBlocks front (blocks ++ [c]) u := by
  refine ⟨?_, h.front, ?_, ?_⟩
  · rw [contentLines_appended hchecked hip happended, h.content, List.append_assoc, List.flatMap_append,
      List.flatMap_singleton]
  · rw [List.map_append, List.map_singleton]
    exact List.nodup_append.2 ⟨h.nodup, List.nodup_singleton _, fun a ha b hb => by
      rw [List.mem_singleton.1 hb]
      rintro rfl
      exact hnew ha⟩
  · unfold AddCall.appended at happended
    cases hblock : c.peerBlock with
    | error e =>
      rw [hblock] at happended
      cases happended
    | ok block =>
      rw [hblock] at happended
      have hu : u = rstrip t ++ '\n' :: '\n' :: block := by
        rw [← Except.ok.inj happended, List.append_assoc]
        rfl
      have hlines : ∀ l ∈ c.blockLines ++ [[]], (∀ ch ∈ l, isLineBreak ch = false) ∧
          (isStart (strip l) = true → isStart l = true) := by
        intro l hl
        rcases List.mem_append.1 hl with hl | hl
        · refine ⟨isLineBreak_of_mem_blockLines hchecked hip.1 hl, fun hstart => ?_⟩
          rwa [(stripped_blockLines hchecked l hl).1] at hstart
        · rw [List.mem_singleton.1 hl]
          exact ⟨by simp, id⟩
      have hblockFlush : Flush block := by
        rw [AddCall.peerBlock_eq hblock]
        exact flush_join (fun l hl => (hlines l hl).1) fun l hl => (hlines l hl).2
      have hempty : Flush ('\n' :: block) := by
        have hnone : Flush [] := fun l hl => by cases hl
        exact flush_append_newline hnone (by simp) hblockFlush
      rw [hu]
      exact flush_append_newline (flush_rstrip h.flush) (getLast?_rstrip t) hempty

/-! ### A block that goes -/

def withoutBlock (k : ℕ) (t : Text) : List Text :=
  cutOut (fun l => opensBlock k (strip l)) (fun l => closesBlock k (strip l)) (splitlines t)

theorem drop_takeWhile_length (p : Text → Bool) (ls : List Text) :
    ls.drop (ls.takeWhile p).length = ls.dropWhile p := by
  have hdrop : (ls.takeWhile p ++ ls.dropWhile p).drop (ls.takeWhile p).length = ls.dropWhile p := List.drop_left' rfl
  rwa [List.takeWhile_append_dropWhile] at hdrop

theorem removeManagedBlock_of_none (h : ∀ l ∈ splitlines t, opensBlock k (strip l) = false) :
    removeManagedBlock t k = .ok t := by
  have hbehind : (splitlines t).dropWhile (fun l => !startsWith (startMarkerHead k) (strip l)) = [] :=
    List.dropWhile_eq_nil_iff.2 fun l hl => by
      have hl := h l hl
      rw [opensBlock] at hl
      rw [hl]
      rfl
  rw [removeManagedBlock, drop_takeWhile_length, hbehind]

theorem eq_of_removeManagedBlock (h : removeManagedBlock t k = .ok u)
    (hopens : ∃ l ∈ splitlines t, opensBlock k (strip l) = true) :
    u = rstrip (join '\n' (withoutBlock k t)) ++ ['\n'] := by
  rw [removeManagedBlock, drop_takeWhile_length] at h
  have hbehind : (splitlines t).dropWhile (fun l => !startsWith (startMarkerHead k) (strip l)) ≠ [] := by
    intro hnil
    obtain ⟨l, hl, hopens⟩ := hopens
    have hnone := List.dropWhile_eq_nil_iff.1 hnil l hl
    rw [opensBlock] at hopens
    rw [hopens] at hnone
    cases hnone
  have hcut : withoutBlock k t = ((splitlines t).takeWhile fun l => !startsWith (startMarkerHead k) (strip l)) ++
      ((((splitlines t).dropWhile fun l => !startsWith (startMarkerHead k) (strip l)).tail.dropWhile
        fun l => strip l ≠ endMarker k)).tail := by
    simp [withoutBlock, cutOut, opensBlock, closesBlock]
  obtain ⟨start, rest, hrest⟩ := List.exists_cons_of_ne_nil hbehind
  rw [hrest] at h hcut
  rw [hcut, List.tail_cons]
  dsimp only at h
  cases hafter : rest.dropWhile fun l => strip l ≠ endMarker k with
  | nil =>
    rw [hafter] at h
    cases h
  | cons finish after =>
    rw [hafter] at h
    exact (Except.ok.inj h).symm

theorem HasBlocks.opens_iff (h : HasBlocks front blocks t) :
    (∃ l ∈ splitlines t, opensBlock k (strip l) = true) ↔ k ∈ blocks.map AddCall.keyId := by
  rw [List.mem_map]
  constructor
  · rintro ⟨l, hl, hopens⟩
    have hne : strip l ≠ [] := by
      intro heq
      rw [heq] at hopens
      cases hopens
    obtain ⟨c, hc, heq⟩ := h.start_of_mem (mem_contentLines_iff.2 ⟨hne, l, hl, rfl⟩) (isStart_of_opensBlock hopens)
    rw [heq, ← List.append_nil c.startLine, opensBlock_startLine, decide_eq_true_eq] at hopens
    exact ⟨c, hc, hopens.symm⟩
  · rintro ⟨c, hc, rfl⟩
    obtain ⟨-, l, hl, hstrip⟩ := mem_contentLines_iff.1 (h.startLine_mem hc)
    refine ⟨l, hl, ?_⟩
    rw [hstrip, ← List.append_nil c.startLine, opensBlock_startLine, decide_eq_true rfl]

theorem cutOut_subset {α : Type} {opens closes : α → Bool} {lines : List α} : cutOut opens closes lines ⊆ lines := by
  intro l hl
  rcases List.mem_append.1 hl with hl | hl
  · exact (List.takeWhile_prefix _).subset hl
  · exact (List.dropWhile_suffix _).subset (List.mem_of_mem_tail ((List.dropWhile_suffix _).subset
      (List.mem_of_mem_tail hl)))

theorem HasBlocks.removed (h : HasBlocks front blocks t) (hk : k ∈ blocks.map AddCall.keyId)
    (hremoved : removeManagedBlock t k = .ok u) : HasBlocks front (blocks.filter (·.keyId ≠ k)) u := by
  have hu := eq_of_removeManagedBlock hremoved (h.opens_iff.2 hk)
  have hbreaks : ∀ l ∈ withoutBlock k t, ∀ ch ∈ l, isLineBreak ch = false :=
    fun l hl => isLineBreak_of_mem_splitlines (cutOut_subset hl)
  refine ⟨?_, h.front, h.nodup.sublist (List.filter_sublist.map _), ?_⟩
  · have hlines : contentLines u = contents (withoutBlock k t) := by
      have hfeed : ∀ ch ∈ ['\n'], isSpace ch = true := by simp [isSpace]
      rw [hu, contentLines_append_of_forall hfeed, contentLines_rstrip, contentLines_join hbreaks]
    have hcloses : closesBlock k [] = false := decide_eq_false (stripped_endMarker k).2.symm
    rw [hlines, withoutBlock, contents_cutOut rfl hcloses]
    have hcontent : contents (splitlines t) = front ++ blocks.flatMap AddCall.blockLines := h.content
    rw [hcontent]
    refine cutOut_blocks (fun l hl => opensBlock_of_not_isStart (h.front l hl) k) h.nodup
      (fun b _ hne => opensBlock_of_mem_blockLines hne) fun b _ heq => ?_
    rw [← heq]
    exact framed_blockLines b
  · have hnone : Flush [] := fun l hl => by cases hl
    rw [hu]
    refine flush_append_newline (flush_rstrip (flush_join hbreaks fun l hl => h.flush l (cutOut_subset hl)))
      (getLast?_rstrip _) hnone

/-! ### A removal without a block -/

/-- No line of the config gives the key of a peer. -/
def Unnamed (publicKey t : Text) : Prop := ∀ l ∈ contentLines t, optionOf l ≠ some (publicKeyOption, publicKey)

variable {publicKey : Text}

theorem exists_of_addOptions {name : Text} {options options' : Options} {lines : List Text} {key value : Text}
    (h : addOptions name options lines = .ok options') (hvalue : options'.get? key = some value) :
    options.get? key = some value ∨ ∃ l ∈ lines, optionOf (strip l) = some (key, value) := by
  induction lines generalizing options with
  | nil =>
    cases h
    exact .inl hvalue
  | cons l lines ih =>
    rw [addOptions, List.foldlM_cons] at h
    cases hline : addOption name options l with
    | error e =>
      rw [hline] at h
      cases h
    | ok read =>
      rw [hline] at h
      rcases ih h with hread | ⟨m, hm, hoption⟩
      · unfold addOption at hline
        cases hoption : optionOf (strip l) with
        | none =>
          rw [hoption] at hline
          cases hline
          exact .inl hread
        | some option =>
          obtain ⟨key', value'⟩ := option
          cases hreject : rejectDuplicateCriticalKey name options key' with
          | error e =>
            simp only [hoption, hreject] at hline
            cases hline
          | ok _ =>
            simp only [hoption, hreject] at hline
            cases hline
            by_cases hkey : key = key'
            · subst hkey
              rw [Dict.get?_set_self] at hread
              exact .inr ⟨l, List.mem_cons_self, by rw [hoption, Option.some.inj hread]⟩
            · rw [Dict.get?_set_of_ne _ _ hkey] at hread
              exact .inl hread
      · exact .inr ⟨m, List.mem_cons_of_mem _ hm, hoption⟩

theorem removed_of_removeSectionsLoop {n : ℕ} {lines : List Text} {result : List Text × Bool}
    (h : removeSectionsLoop publicKey n lines = .ok result)
    (hbreaks : ∀ l ∈ lines, ∀ ch ∈ l, isLineBreak ch = false)
    (hunnamed : ∀ l ∈ lines, optionOf (strip l) ≠ some (publicKeyOption, publicKey)) : result.2 = false := by
  induction n generalizing lines result with
  | zero =>
    cases h
    rfl
  | succ n ih =>
    cases lines with
    | nil =>
      cases h
      rfl
    | cons line lines =>
      rw [removeSectionsLoop] at h
      split_ifs at h with hpeer
      · cases hloop : removeSectionsLoop publicKey n lines with
        | error e =>
          rw [hloop] at h
          cases h
        | ok rest =>
          have hnone : rest.2 = false := ih hloop (fun l hl => hbreaks l (List.mem_cons_of_mem _ hl))
            fun l hl => hunnamed l (List.mem_cons_of_mem _ hl)
          rw [hloop] at h
          cases h
          exact hnone
      · rw [not_not] at hpeer
        dsimp only [Except.mapError, bind, Except.bind] at h
        have hbody : ∀ l ∈ lines.takeWhile (fun l => !isHeader (strip l)), isHeader (strip l) = false :=
          fun l hl => by simpa using List.mem_takeWhile_imp hl
        have hsub : ∀ l ∈ lines.takeWhile (fun l => !isHeader (strip l)), l ∈ lines :=
          fun l hl => (List.takeWhile_prefix _).subset hl
        have hparsed := parseBlock_eq _ hpeer hbody fun l hl => by
          rcases List.mem_cons.1 hl with rfl | hl
          · exact hbreaks l List.mem_cons_self
          · exact hbreaks l (List.mem_cons_of_mem _ (hsub l hl))
        cases hblock : parseBlock (line :: lines.takeWhile fun l => !isHeader (strip l)) with
        | error e =>
          rw [hblock] at h
          cases h
        | ok peer =>
          rw [hblock] at hparsed
          have hother : peer.options.get? publicKeyOption ≠ some publicKey := by
            intro hkey
            rcases exists_of_addOptions hparsed.symm hkey with hnone | ⟨l, hl, hoption⟩
            · cases hnone
            · exact hunnamed l (List.mem_cons_of_mem _ (hsub l hl)) hoption
          have hrest : ∀ l ∈ (line :: lines).drop (line :: lines.takeWhile fun l => !isHeader (strip l)).length,
              l ∈ line :: lines := fun l hl => List.mem_of_mem_drop hl
          rw [hblock] at h
          dsimp only at h
          cases hloop : removeSectionsLoop publicKey n
              ((line :: lines).drop (line :: lines.takeWhile fun l => !isHeader (strip l)).length) with
          | error e =>
            rw [hloop] at h
            cases h
          | ok rest =>
            have hnone : rest.2 = false :=
              ih hloop (fun l hl => hbreaks l (hrest l hl)) fun l hl => hunnamed l (hrest l hl)
            rw [hloop] at h
            dsimp only at h
            rw [if_neg hother] at h
            cases h
            exact hnone

theorem removePeerSectionByIdentity_of_unnamed (hunnamed : Unnamed publicKey t)
    (h : removePeerSectionByIdentity t publicKey = .ok u) : u = t := by
  unfold removePeerSectionByIdentity at h
  cases hloop : removeSectionsLoop publicKey (splitlines t).length (splitlines t) with
  | error e =>
    rw [hloop] at h
    cases h
  | ok result =>
    rw [hloop] at h
    have hnone : result.2 = false := by
      refine removed_of_removeSectionsLoop hloop (fun l hl => isLineBreak_of_mem_splitlines hl) fun l hl hoption => ?_
      have hne : strip l ≠ [] := by
        intro heq
        rw [heq] at hoption
        cases hoption
      exact hunnamed _ (mem_contentLines_iff.2 ⟨hne, l, hl, rfl⟩) hoption
    obtain ⟨kept, removed⟩ := result
    obtain rfl : removed = false := hnone
    cases h
    rfl

/-! ### What a call that returns has done to the config -/

variable {a : Answers} {s s' : Server} {flags : Flags}

/-- The config, for the bodies with their local variables. -/
def configOf (t : Frame) : Text := t.1.config

section Keeps

variable {α : Type}

theorem keeps_onServer {p : Program Server Text α} (h : Keeps Server.config p) : Keeps configOf (onServer p) :=
  fun t => ends_onServer.2 (h t.1)

theorem keeps_ofResult {r : Except Text α} : Keeps Server.config (ofResult r) :=
  fun _ => ends_ofResult.2 ⟨fun _ _ => rfl, fun _ _ => rfl⟩

theorem keeps_readText {site : Site} : Keeps Server.config (readText a site) :=
  fun _ => ends_readText.2 ⟨fun _ => rfl, fun _ => rfl⟩

theorem keeps_checkRuntimePeer {site : ShowSite} : Keeps Server.config (checkRuntimePeer a site publicKey) :=
  fun _ => ends_checkRuntimePeer.2 ⟨fun _ => rfl, fun _ => rfl⟩

theorem keeps_change {answer : Answer} {text : Text} {effect : Server → Server}
    (h : ∀ s, (effect s).config = s.config) : Keeps Server.config (change answer text effect) := by
  intro s
  have happly : (answer.apply effect s).config = s.config := by
    unfold Answer.apply
    split_ifs
    · exact h s
    · rfl
  exact ends_change.2 ⟨fun _ => happly, fun _ => happly, fun _ => happly⟩

theorem keeps_setRuntime {value : Bool} : Keeps configOf (setRuntime value) := keeps_modify fun _ => rfl

theorem keeps_insist {p : Program Server Text Bool} {message : Text} (h : Keeps Server.config p) :
    Keeps configOf (insist p message) := by
  refine (keeps_onServer h).bind fun b => ?_
  cases b
  · exact keeps_throw message
  · exact keeps_pure ()

end Keeps

theorem keeps_addToRuntime (c : AddCall) (a : Answers) (message : Text) : Keeps configOf (addToRuntime c a message) :=
  keeps_setRuntime.bind fun _ => keeps_insist (keeps_change fun _ => rfl)

theorem keeps_addPresent (c : AddCall) (a : Answers) : Keeps configOf (addPresent c a) := by
  refine (keeps_onServer keeps_checkRuntimePeer).bind fun b => ?_
  cases b
  · exact keeps_addToRuntime c a _
  · exact keeps_pure ()

theorem keeps_checkConfig (c : RemoveCall) (a : Answers) (publicKey message : Text) :
    Keeps configOf (checkConfig c a publicKey message) := by
  refine (keeps_onServer keeps_readText).bind fun _ => (keeps_onServer keeps_ofResult).bind fun _ => ?_
  split_ifs
  · exact keeps_throw message
  · exact keeps_pure ()

theorem keeps_removeIfKeyed (c : RemoveCall) (a : Answers) : Keeps configOf (removeIfKeyed c a) := by
  unfold removeIfKeyed
  cases c.publicKey with
  | none => exact keeps_pure ()
  | some publicKey =>
    have hremove : Keeps Server.config (removePeerRuntime a publicKey) := keeps_change fun _ => rfl
    have hnot : Keeps Server.config (not <$> checkRuntimePeer a .after publicKey) :=
      fun s => (ends_map not).2 (keeps_checkRuntimePeer s)
    exact (keeps_insist hremove).bind fun _ => keeps_setRuntime.bind fun _ =>
      (keeps_insist hnot).bind fun _ => keeps_checkConfig c a publicKey _

theorem Keeps.returns {σ ε α γ : Type} {g : σ → γ} {p : Program σ ε α} (h : Keeps g p) (s : σ) :
    Ends p (fun _ s' => g s' = g s) (fun _ _ => True) s :=
  (h s).mono (fun _ _ h => h) fun _ _ _ => trivial

theorem ends_written {updated : Text} {rest : Program Frame Text Unit} {P : Unit → Frame → Prop}
    (h : Ends rest P (fun _ _ => True) ({ s with config := updated }, flags)) :
    Ends (do
      onServer (validateCandidateConfig a updated)
      onServer (guardSite a .unchangedAgain)
      onServer (writeConfig a updated)
      rest) P (fun _ _ => True) (s, flags) := by
  rw [ends_bind, ends_onServer, ends_validateCandidateConfig fun _ => trivial]
  intro _ _
  rw [ends_bind, ends_onServer, ends_guardSite]
  refine ⟨fun _ => trivial, fun _ => ?_⟩
  rw [ends_bind, ends_onServer]
  exact ends_call_of (fun _ => h) (fun _ => trivial) fun _ => trivial

/-- What `add_peer` makes of the config. -/
def AddCall.Writes (c : AddCall) (original config updated : Text) : Prop :=
  if managedBlockExists original c.keyId then updated = config else c.appended original = .ok updated

theorem ends_addBody (c : AddCall) (a : Answers) (s : Server) (flags : Flags) :
    Ends (addBody c a) (fun _ t => c.Writes (Warp.universalNewlines s.config) s.config t.1.config)
      (fun _ _ => True) (s, flags) := by
  unfold addBody AddCall.Writes
  rw [ends_bind, ends_onServer, ends_readText]
  refine ⟨fun _ => trivial, fun _ => ?_⟩
  rw [ends_bind, ends_onServer, ends_guardSite]
  refine ⟨fun _ => trivial, fun _ => ?_⟩
  rw [ends_bind, ends_onServer, ends_ofResult]
  refine ⟨fun sections _ => ?_, fun _ _ => trivial⟩
  split_ifs
  · exact Keeps.returns (keeps_addPresent c a) _
  · trivial
  · rw [addAppended, ends_bind, ends_onServer, ends_ofResult]
    refine ⟨fun updated happended => ?_, fun _ _ => trivial⟩
    have hrest : Keeps configOf (do
        addToRuntime c a "Не удалось применить AWG peer в runtime".toList
        if !(← onServer (checkRuntimePeer a .after c.publicKey)) then
          throw "AWG peer добавлен командой, но не найден в runtime".toList) :=
      (keeps_addToRuntime c a _).bind fun _ => keeps_insist keeps_checkRuntimePeer
    refine ends_written ?_
    rw [ends_bind, ends_setWroteConfig]
    refine (Keeps.returns hrest _).mono (fun _ t ht => ?_) fun _ _ h => h
    rw [show t.1.config = updated from ht]
    exact happended

theorem config_of_addPeer {c : AddCall} (h : addPeer c a s = .ok () s') :
    c.check = .ok () ∧ c.Writes (Warp.universalNewlines s.config) s.config s'.config := by
  have hends : Ends (addPeer c a) (fun _ s' => c.check = .ok () ∧
      c.Writes (Warp.universalNewlines s.config) s.config s'.config) (fun _ _ => True) s := by
    rw [addPeer, ends_bind, ends_outsideTry, ends_ofResult]
    refine ⟨fun _ hcheck => ?_, fun _ _ => trivial⟩
    rw [ends_bind, ends_openConfig fun _ => trivial]
    intro _ _ _ _
    rw [ends_tryBody]
    refine (ends_addBody c a s _).mono (fun _ t ht => ⟨hcheck, ht⟩) fun e t _ => ?_
    rw [addExcept, ends_bind]
    exact ends_of_forall (fun _ _ => trivial) fun _ _ => trivial
  exact (ends_iff.1 hends).1 () s' h

/-- What `remove_peer` makes of the config. -/
def RemoveCall.Writes (c : RemoveCall) (original config updated : Text) : Prop :=
  ∃ u, c.updated original = .ok u ∧ updated = if u = original then config else u

theorem ends_removeBody (c : RemoveCall) (a : Answers) (s : Server) (flags : Flags) :
    Ends (removeBody c a) (fun _ t => c.Writes (Warp.universalNewlines s.config) s.config t.1.config)
      (fun _ _ => True) (s, flags) := by
  unfold removeBody RemoveCall.Writes
  rw [ends_bind, ends_onServer, ends_readText]
  refine ⟨fun _ => trivial, fun _ => ?_⟩
  rw [ends_bind, ends_onServer, ends_guardSite]
  refine ⟨fun _ => trivial, fun _ => ?_⟩
  rw [ends_bind, ends_onServer, ends_ofResult]
  refine ⟨fun updated hupdated => ?_, fun _ _ => trivial⟩
  unfold writeUpdated
  split_ifs with hsame
  · refine (Keeps.returns (keeps_removeIfKeyed c a) _).mono (fun _ t ht => ?_) fun _ _ h => h
    exact ⟨updated, hupdated, by rw [if_pos hsame]; exact ht⟩
  · refine ends_bind.2 (ends_written ?_)
    rw [ends_setWroteConfig]
    refine (Keeps.returns (keeps_removeIfKeyed c a) _).mono (fun _ t ht => ?_) fun _ _ h => h
    exact ⟨updated, hupdated, by rw [if_neg hsame]; exact ht⟩

theorem config_of_removePeer {c : RemoveCall} (h : removePeer c a s = .ok () s') :
    c.Writes (Warp.universalNewlines s.config) s.config s'.config := by
  have hends : Ends (removePeer c a) (fun _ s' => c.Writes (Warp.universalNewlines s.config) s.config s'.config)
      (fun _ _ => True) s := by
    rw [removePeer, ends_bind, ends_outsideTry, ends_ofResult]
    refine ⟨fun _ _ => ?_, fun _ _ => trivial⟩
    rw [ends_bind, ends_openConfig fun _ => trivial]
    intro _ _ _ _
    rw [ends_tryBody]
    refine (ends_removeBody c a s _).mono (fun _ t ht => ht) fun e t _ => ?_
    rw [removeExcept, ends_bind]
    exact ends_of_forall (fun _ _ => trivial) fun _ _ => trivial
  exact (ends_iff.1 hends).1 () s' h

/-! ### Runs -/

/-- A call of one of the two methods. -/
def PeerCall.run : PeerCall → Answers → Program Server Failure Unit
  | .add call => addPeer call
  | .remove call => removePeer call

/-- The blocks after a call: a key that is there keeps its block, and a new one is the last. -/
def PeerCall.blocksAfter (blocks : List AddCall) : PeerCall → List AddCall
  | .add call => if call.keyId ∈ blocks.map AddCall.keyId then blocks else blocks ++ [call]
  | .remove call => blocks.filter (·.keyId ≠ call.keyId)

/-- What the calls are given: an address without a line break, and for the removal of a key without a block no
public key, or one that no line of the config gives. -/
def PeerCall.Fits (config : Text) : PeerCall → Prop
  | .add call => Harmless call.clientIp
  | .remove call => (∃ l ∈ contentLines config, opensBlock call.keyId l = true) ∨
      ∀ publicKey ∈ call.publicKey, Unnamed publicKey config

/-- Calls one after another that return, with any answers. -/
inductive Runs : List PeerCall → Server → Server → Prop
  | done (s : Server) : Runs [] s s
  | call {call : PeerCall} {calls : List PeerCall} {a : Answers} {s s' s'' : Server}
      (hfits : call.Fits s.config) (hreturns : call.run a s = .ok () s') (hrest : Runs calls s' s'') :
      Runs (call :: calls) s s''

theorem contentLines_universalNewlines (t : Text) : contentLines (Warp.universalNewlines t) = contentLines t := by
  rw [contentLines, Warp.splitlines_universalNewlines, contentLines]

theorem hasBlocks_universalNewlines : HasBlocks front blocks (Warp.universalNewlines t) ↔ HasBlocks front blocks t := by
  have hflush : Flush (Warp.universalNewlines t) ↔ Flush t := by
    rw [Flush, Warp.splitlines_universalNewlines, Flush]
  constructor
  · rintro ⟨hcontent, hfront, hnodup, hf⟩
    exact ⟨by rw [← contentLines_universalNewlines]; exact hcontent, hfront, hnodup, hflush.1 hf⟩
  · rintro ⟨hcontent, hfront, hnodup, hf⟩
    exact ⟨by rw [contentLines_universalNewlines]; exact hcontent, hfront, hnodup, hflush.2 hf⟩

theorem HasBlocks.step {call : PeerCall} (h : HasBlocks front blocks s.config) (hfits : call.Fits s.config)
    (hreturns : call.run a s = .ok () s') : HasBlocks front (call.blocksAfter blocks) s'.config := by
  have hread := hasBlocks_universalNewlines.2 h
  cases call with
  | add call =>
    obtain ⟨hcheck, hwrites⟩ := config_of_addPeer hreturns
    unfold AddCall.Writes at hwrites
    unfold PeerCall.blocksAfter
    by_cases hthere : call.keyId ∈ blocks.map AddCall.keyId
    · rw [if_pos (hread.managedBlockExists_iff.2 hthere)] at hwrites
      rw [hwrites]
      dsimp only
      rw [if_pos hthere]
      exact h
    · rw [if_neg fun hexists => hthere (hread.managedBlockExists_iff.1 hexists)] at hwrites
      dsimp only
      rw [if_neg hthere]
      obtain ⟨block, hblock⟩ : ∃ block, call.peerBlock = .ok block := by
        unfold AddCall.appended at hwrites
        cases hblock : call.peerBlock with
        | ok block => exact ⟨block, rfl⟩
        | error e =>
          rw [hblock] at hwrites
          cases hwrites
      exact hread.appended (AddCall.checked_of_check hcheck hblock) hfits hthere hwrites
  | remove call =>
    obtain ⟨u, hupdated, hconfig⟩ := config_of_removePeer hreturns
    show HasBlocks front (blocks.filter (·.keyId ≠ call.keyId)) s'.config
    unfold RemoveCall.updated at hupdated
    by_cases hthere : call.keyId ∈ blocks.map AddCall.keyId
    · cases hremoved : removeManagedBlock (Warp.universalNewlines s.config) call.keyId with
      | error e =>
        rw [hremoved] at hupdated
        cases hupdated
      | ok updated =>
        have hblocks := hread.removed hthere hremoved
        have hne : updated ≠ Warp.universalNewlines s.config := by
          -- The block is in the one text and not in the other.
          intro heq
          rw [heq] at hblocks
          have hmem := hblocks.opens_iff.1 (hread.opens_iff.2 hthere)
          obtain ⟨b, hb, hkey⟩ := List.mem_map.1 hmem
          exact of_decide_eq_true (List.mem_filter.1 hb).2 hkey
        have hu : u = updated := by
          rw [hremoved] at hupdated
          cases hkey : call.publicKey with
          | none =>
            simp only [hkey] at hupdated
            exact (Except.ok.inj hupdated).symm
          | some publicKey =>
            simp only [hkey] at hupdated
            exact (Except.ok.inj ((if_neg hne).symm.trans hupdated)).symm
        rw [hconfig, hu, if_neg hne]
        exact hblocks
    · -- There is no block, and nothing else is removed.
      have hnone : removeManagedBlock (Warp.universalNewlines s.config) call.keyId =
          .ok (Warp.universalNewlines s.config) := by
        refine removeManagedBlock_of_none fun l hl => ?_
        cases hopens : opensBlock call.keyId (strip l) with
        | false => rfl
        | true => exact absurd (hread.opens_iff.1 ⟨l, hl, hopens⟩) hthere
      have hunnamed : ∀ publicKey ∈ call.publicKey, Unnamed publicKey (Warp.universalNewlines s.config) := by
        rcases hfits with ⟨l, hl, hopens⟩ | hunnamed
        · obtain ⟨-, m, hm, rfl⟩ := mem_contentLines_iff.1 hl
          exact absurd (h.opens_iff.1 ⟨m, hm, hopens⟩) hthere
        · intro publicKey hkey
          rw [Unnamed, contentLines_universalNewlines]
          exact hunnamed publicKey hkey
      have hu : u = Warp.universalNewlines s.config := by
        rw [hnone] at hupdated
        cases hkey : call.publicKey with
        | none =>
          simp only [hkey] at hupdated
          exact (Except.ok.inj hupdated).symm
        | some publicKey =>
          simp only [hkey] at hupdated
          exact removePeerSectionByIdentity_of_unnamed (hunnamed publicKey hkey) ((if_pos rfl).symm.trans hupdated)
      have hsame : blocks.filter (·.keyId ≠ call.keyId) = blocks := by
        rw [List.filter_eq_self]
        intro b hb
        rw [decide_eq_true_eq]
        rintro heq
        exact hthere (heq ▸ List.mem_map_of_mem hb)
      rw [hconfig, if_pos hu, hsame]
      exact h

theorem HasBlocks.runs {calls : List PeerCall} (h : HasBlocks front blocks s.config) (hruns : Runs calls s s') :
    HasBlocks front (calls.foldl PeerCall.blocksAfter blocks) s'.config := by
  induction hruns generalizing blocks with
  | done => exact h
  | call hfits hreturns _ ih => exact ih (h.step hfits hreturns)

end VpnBot.Awg
