import VpnBot.Warp.HandedLists
import VpnBot.Warp.ListEntries

/-!
# The check of the manager and the check of the helper

`check_candidate` and `read_list` take an address without a prefix length and clear host bits; the helper takes
neither, wants one entry at least, and ends a line at fewer characters.  `helperTakes_renderList` and
`helperTakes_iff_of_readsAll` say which of the lists that the bot accepts the helper accepts.  The restore after a
failed apply sends the text of the old file through the helper, so that `restores_iff` depends on the same
conditions, and on the form of the text: `read_text` and the helper change line ends and NUL bytes.
-/

namespace VpnBot.Warp

open Py Py.Network

/-! ### Texts of networks -/

variable {t : Text} {c : Char}

theorem mem_splitAt {d c : Char} (h : c ∈ t) : c = d ∨ ∃ part ∈ splitAt d t, c ∈ part := by
  have hjoin : join d (splitAt d t) = t := List.intercalate_splitOn d
  rw [← hjoin] at h
  exact mem_join h

def IsNetworkChar (c : Char) : Prop := c.isDigit = true ∨ c = '.' ∨ c = '/'

theorem isNetworkChar_of_isDecimal (h : isDecimal t = true) (hc : c ∈ t) :
    IsNetworkChar c := by
  rw [isDecimal, Bool.and_eq_true] at h
  exact Or.inl (List.all_eq_true.mp h.2 c hc)

theorem isNetworkChar_of_parseAddress {a : ℕ} (h : IPv4.parseAddress t = some a)
    (hc : c ∈ t) : IsNetworkChar c := by
  unfold IPv4.parseAddress at h
  cases hparts : (splitAt '.' t).mapM IPv4.parseOctet with
  | none =>
    rw [hparts] at h
    cases h
  | some bytes =>
    rcases mem_splitAt (d := '.') hc with rfl | ⟨part, hpart, hc⟩
    · exact Or.inr (Or.inl rfl)
    · have hoctet : (IPv4.parseOctet part).isSome :=
        isSome_mapM.mp (Option.isSome_of_eq_some hparts) part hpart
      unfold IPv4.parseOctet at hoctet
      split_ifs at hoctet with hbad
      · simp at hoctet
      · simp only [Bool.or_eq_true, Bool.not_eq_true', not_or] at hbad
        exact isNetworkChar_of_isDecimal (by simpa using hbad.1.1.1) hc

theorem isNetworkChar_of_parseMask {m : ℕ} (h : IPv4.parseMask t = some m) (hc : c ∈ t) :
    IsNetworkChar c := by
  unfold IPv4.parseMask at h
  split_ifs at h with hdecimal
  · exact isNetworkChar_of_isDecimal (Bool.and_eq_true _ _ ▸ hdecimal).1 hc
  · obtain ⟨mask, hmask, -⟩ := Option.bind_eq_some_iff.mp h
    exact isNetworkChar_of_parseAddress hmask hc

theorem isNetworkChar_of_parse {strict : Bool} {n : IPv4Network} (h : IPv4.parse strict t = some n)
    (hc : c ∈ t) : IsNetworkChar c := by
  unfold IPv4.parse at h
  split at h
  · rename_i a hsplit
    obtain ⟨address, haddress, -⟩ := Option.bind_eq_some_iff.mp h
    rcases mem_splitAt (d := '/') hc with rfl | ⟨part, hpart, hc⟩
    · exact Or.inr (Or.inr rfl)
    · rw [hsplit, List.mem_singleton] at hpart
      exact isNetworkChar_of_parseAddress haddress (hpart ▸ hc)
  · rename_i a m hsplit
    obtain ⟨address, haddress, hmask⟩ := Option.bind_eq_some_iff.mp h
    obtain ⟨length, hlength, -⟩ := Option.bind_eq_some_iff.mp hmask
    rcases mem_splitAt (d := '/') hc with rfl | ⟨part, hpart, hc⟩
    · exact Or.inr (Or.inr rfl)
    · rw [hsplit, List.mem_pair] at hpart
      rcases hpart with rfl | rfl
      · exact isNetworkChar_of_parseAddress haddress hc
      · exact isNetworkChar_of_parseMask hlength hc
  · cases h

theorem isSpace_of_isNetworkChar (h : IsNetworkChar c) : isSpace c = false := by
  rcases h with h | rfl | rfl
  · exact isSpace_of_isDigit h
  · decide
  · decide

theorem isLineBreak_of_isNetworkChar (h : IsNetworkChar c) : isLineBreak c = false := by
  by_contra hbreak
  rw [Bool.not_eq_false] at hbreak
  have hspace := isSpace_of_isLineBreak hbreak
  rw [isSpace_of_isNetworkChar h] at hspace
  cases hspace

theorem parse_false_of_parse_true {n : IPv4Network} (h : IPv4.parse true t = some n) :
    IPv4.parse false t = some n := by
  have hparts : ∀ a p, IPv4.ofParts true a p = some n → IPv4.ofParts false a p = some n := by
    intro a p hstrict
    unfold IPv4.ofParts at hstrict ⊢
    split_ifs at hstrict ⊢ with hbounds
    · dsimp only at hstrict ⊢
      split_ifs at hstrict with hhost
      rw [Bool.false_and, if_neg Bool.false_ne_true]
      exact hstrict
  unfold IPv4.parse at h ⊢
  split at h
  · obtain ⟨a, ha, hofParts⟩ := Option.bind_eq_some_iff.mp h
    rw [ha]
    exact hparts _ _ hofParts
  · obtain ⟨a, ha, hmask⟩ := Option.bind_eq_some_iff.mp h
    obtain ⟨m, hm, hofParts⟩ := Option.bind_eq_some_iff.mp hmask
    rw [ha, Option.bind_some, hm]
    exact hparts _ _ hofParts
  · cases h

/-! ### What the helper takes -/

/-- The check that the helper makes of its input. -/
def helperTakes (stdin : Text) : Bool :=
  let content := commandSubstitution stdin
  !content.isEmpty && scriptValidates content

/-- The entry has a prefix length and no host bits. -/
structure Explicit (entry : Text) : Prop where
  hasLength : '/' ∈ entry
  noHostBits : IPv4.parse true entry = IPv4.parse false entry

theorem scriptAccepts_iff {entry : Text} (h : (IPv4.parse false entry).isSome) :
    scriptAccepts entry = true ↔ Explicit entry := by
  rw [scriptAccepts, Bool.and_eq_true, decide_eq_true_iff]
  constructor
  · rintro ⟨hslash, hstrict⟩
    obtain ⟨n, hn⟩ := Option.isSome_iff_exists.mp hstrict
    exact ⟨hslash, by rw [hn, parse_false_of_parse_true hn]⟩
  · rintro ⟨hslash, heq⟩
    exact ⟨hslash, by rw [heq]; exact h⟩

theorem entriesBy_commandSubstitution (t : Text) :
    entriesBy isNewline (commandSubstitution t) = entriesBy isNewline (t.filter (· ≠ '\x00')) := by
  have hsplit : commandSubstitution t ++ (t.filter (· ≠ '\x00')).rtakeWhile (· = '\n') =
      t.filter (· ≠ '\x00') := List.rdropWhile_append_rtakeWhile
  rw [← hsplit, entriesBy_append_of_ends]
  intro c hc
  have hnewline := List.mem_rtakeWhile_imp hc
  rw [decide_eq_true_eq] at hnewline
  rw [hnewline]
  rfl

theorem helperTakes_iff (stdin : Text) : helperTakes stdin = true ↔
    entriesBy isNewline (stdin.filter (· ≠ '\x00')) ≠ [] ∧
      ∀ e ∈ entriesBy isNewline (stdin.filter (· ≠ '\x00')), scriptAccepts e = true := by
  rw [← entriesBy_commandSubstitution]
  simp only [helperTakes, scriptValidates, scriptEntries_eq, Bool.and_eq_true, Bool.not_eq_true',
    List.isEmpty_eq_false_iff, List.all_eq_true]
  constructor
  · rintro ⟨-, hall, hne⟩
    exact ⟨hne, hall⟩
  · rintro ⟨hne, hall⟩
    refine ⟨?_, hall, hne⟩
    intro hempty
    rw [hempty] at hne
    exact hne rfl

/-! ### Candidates -/

/-- The entries of a candidate list, without white space. -/
def candidateEntries (cidrList : List Text) : List Text := (cidrList.map strip).filter (!·.isEmpty)

theorem entriesBy_join (l : List Text) : entriesBy isNewline (join '\n' l) = l.flatMap (entriesBy isNewline) := by
  induction l with
  | nil => rfl
  | cons raw l ih =>
    cases l with
    | nil => simp [join, List.intercalate]
    | cons next l =>
      have hjoin : join '\n' (raw :: next :: l) = raw ++ '\n' :: join '\n' (next :: l) := by
        simp [join, List.intercalate]
      rw [hjoin, entriesBy_append_cons rfl, ih]
      rfl

theorem flatMap_entries (l : List Text) (h : ∀ raw ∈ l, entriesBy isNewline raw =
    if strip raw = [] then [] else [strip raw]) : l.flatMap (entriesBy isNewline) = candidateEntries l := by
  induction l with
  | nil => rfl
  | cons raw l ih =>
    rw [List.flatMap_cons, h raw List.mem_cons_self, ih fun raw' hraw' => h raw' (List.mem_cons_of_mem _ hraw'),
      candidateEntries, candidateEntries, List.map_cons, List.filter_cons]
    cases strip raw <;> rfl

theorem isNewline_of_isNetworkChar (h : IsNetworkChar c) : isNewline c = false := by
  by_contra hnewline
  rw [Bool.not_eq_false, isNewline, Bool.or_eq_true, decide_eq_true_eq, decide_eq_true_eq] at hnewline
  have hspace := isSpace_of_isNetworkChar h
  rcases hnewline with rfl | rfl
  · revert hspace
    decide
  · revert hspace
    decide

theorem ne_of_isNetworkChar {c d : Char} (h : IsNetworkChar c) (hd : d.isDigit = false ∧ d ≠ '.' ∧ d ≠ '/') :
    c ≠ d := by
  rintro rfl
  rcases h with h | h | h
  · rw [hd.1] at h
    cases h
  · exact hd.2.1 h
  · exact hd.2.2 h

theorem entriesBy_of_isNetworkChar {p : Char → Bool} (hp : ∀ c, IsNetworkChar c → p c = false)
    (h : ∀ c ∈ strip t, IsNetworkChar c) :
    entriesBy p t = if strip t = [] then [] else [strip t] := by
  obtain ⟨v, w, hv, hw, ht⟩ := exists_strip t
  rw [List.append_assoc] at ht
  split_ifs with hnil
  · rw [ht, hnil, List.nil_append, entriesBy_append_left hv, entriesBy_of_forall hw]
  · have hpadded := entriesBy_padded hv hw (fun c hc => hp c (h c hc))
      (fun hhash => ne_of_isNetworkChar (h _ hhash) (by decide) rfl) (strip_strip t) hnil
    rwa [← ht] at hpadded

section Candidates

variable {manager : SplitManager} {guards : List Guard} {cidrList : List Text}

theorem isSome_of_checkList (hcheck : checkList manager guards cidrList = .ok ()) {raw : Text}
    (hraw : raw ∈ cidrList) (hne : strip raw ≠ []) : (IPv4.parse false (strip raw)).isSome := by
  unfold checkList at hcheck
  split_ifs at hcheck
  rcases forM_checkEntry manager guards cidrList with ⟨-, hall⟩ | ⟨bad, -, e, -, he⟩
  · have hentry := hall raw hraw
    unfold checkEntry at hentry
    rw [if_neg (by simpa using hne)] at hentry
    rw [← ipNetwork]
    cases hnet : ipNetwork (strip raw) with
    | none =>
      rw [hnet] at hentry
      cases hentry
    | some n => rfl
  · rw [he] at hcheck
    cases hcheck

theorem isNetworkChar_of_checkList (hcheck : checkList manager guards cidrList = .ok ()) {raw : Text}
    (hraw : raw ∈ cidrList) : ∀ c ∈ strip raw, IsNetworkChar c := by
  intro c hc
  obtain ⟨n, hn⟩ := Option.isSome_iff_exists.mp
    (isSome_of_checkList hcheck hraw (List.ne_nil_of_mem hc))
  exact isNetworkChar_of_parse hn hc

theorem filter_renderList (hcheck : checkList manager guards cidrList = .ok ()) :
    (renderList cidrList).filter (· ≠ '\x00') = renderList cidrList := by
  rw [List.filter_eq_self]
  intro c hc
  rw [decide_eq_true_eq]
  rcases List.mem_append.mp hc with hc | hc
  · rcases mem_join hc with rfl | ⟨raw, hraw, hc⟩
    · decide
    · obtain ⟨v, w, hv, hw, ht⟩ := exists_strip raw
      have hspace : isSpace c = true → c ≠ '\x00' := by
        rintro h rfl
        revert h
        decide
      rw [ht] at hc
      rcases List.mem_append.mp hc with hc | hc
      · rcases List.mem_append.mp hc with hc | hc
        · exact hspace (hv c hc)
        · exact ne_of_isNetworkChar (isNetworkChar_of_checkList hcheck hraw c hc) (by decide)
      · exact hspace (hw c hc)
  · rw [List.mem_singleton.mp hc]
    decide

/-- **A candidate that the manager accepts** is accepted by the helper exactly when it has an entry and all its
entries are explicit. -/
theorem helperTakes_renderList (hcheck : checkList manager guards cidrList = .ok ()) :
    helperTakes (renderList cidrList) = true ↔
      candidateEntries cidrList ≠ [] ∧ ∀ e ∈ candidateEntries cidrList, Explicit e := by
  have hentries : entriesBy isNewline ((renderList cidrList).filter (· ≠ '\x00')) = candidateEntries cidrList := by
    rw [filter_renderList hcheck, renderList,
      entriesBy_append_of_ends (fun c hc => by rw [List.mem_singleton.mp hc]; rfl), entriesBy_join]
    exact flatMap_entries cidrList fun raw hraw =>
      entriesBy_of_isNetworkChar (fun _ => isNewline_of_isNetworkChar) (isNetworkChar_of_checkList hcheck hraw)
  rw [helperTakes_iff, hentries]
  refine and_congr_right fun _ => forall₂_congr fun e he => scriptAccepts_iff ?_
  obtain ⟨hmem, hne⟩ := List.mem_filter.mp he
  obtain ⟨raw, hraw, rfl⟩ := List.mem_map.mp hmem
  exact isSome_of_checkList hcheck hraw (by simpa using hne)

end Candidates

/-! ### Files -/

/-- The entries of a text at the newlines, the NUL bytes left out. -/
def helperEntries (t : Text) : List Text := entriesBy isNewline (t.filter (· ≠ '\x00'))

/-- `read_list` skips no line of the text. -/
def ReadsAll (t : Text) : Prop := ∀ e ∈ readEntries t, (ipNetwork e).isSome

/-- The entry holds no character at which `splitlines` ends a line. -/
def OneLined (entry : Text) : Prop := ∀ c ∈ entry, isLineBreak c = false

theorem beforeComment_filter (t : Text) :
    beforeComment (t.filter (· ≠ '\x00')) = (beforeComment t).filter (· ≠ '\x00') := by
  rw [beforeComment_eq_takeWhile, beforeComment_eq_takeWhile]
  induction t with
  | nil => rfl
  | cons c t ih =>
    by_cases hnul : c = '\x00'
    · subst hnul
      rw [List.filter_cons_of_neg (by simp), List.takeWhile_cons_of_pos (by decide),
        List.filter_cons_of_neg (by simp), ih]
    · rw [List.filter_cons_of_pos (by simpa using hnul)]
      by_cases hhash : c = '#'
      · subst hhash
        rw [List.takeWhile_cons_of_neg (by simp), List.takeWhile_cons_of_neg (by simp)]
        rfl
      · rw [List.takeWhile_cons_of_pos (by simpa using hhash), List.takeWhile_cons_of_pos (by simpa using hhash),
          List.filter_cons_of_pos (by simpa using hnul), ih]

theorem not_mem_beforeComment (t : Text) : '#' ∉ beforeComment t := by
  rw [beforeComment_eq_takeWhile]
  intro hmem
  have h := List.mem_takeWhile_imp hmem
  simp at h

theorem exists_entry_of_mem {p : Char → Bool} (hp : ∀ c, p c = true → isSpace c = true)
    (hhash : '#' ∉ t) (hc : c ∈ t) (hspace : isSpace c = false) : ∃ e ∈ entriesBy p t, c ∈ e := by
  induction hn : t.length using Nat.strong_induction_on generalizing t with
  | _ n ih =>
    have hline : ∀ l : Text, (∀ d ∈ l, p d = false) → '#' ∉ l → c ∈ l → ∃ e ∈ entriesBy p l, c ∈ e := by
      intro l hl hnot hmem
      have hstrip := mem_strip_of_mem hmem hspace
      refine ⟨strip l, ?_, hstrip⟩
      rw [entriesBy_line hl, entryOfLine, beforeComment_of_not_mem hnot, if_neg (List.ne_nil_of_mem hstrip)]
      exact List.mem_singleton_self _
    rcases exists_first_line p t with hall | ⟨l, d, u, rfl, hd, hl⟩
    · exact hline t hall hhash hc
    · rw [List.mem_append, not_or] at hhash
      rw [entriesBy_append_cons hd]
      rcases List.mem_append.mp hc with hc | hc
      · obtain ⟨e, he, hce⟩ := hline l hl hhash.1 hc
        exact ⟨e, List.mem_append_left _ he, hce⟩
      · rcases List.mem_cons.mp hc with rfl | hc
        · rw [hp c hd] at hspace
          cases hspace
        · obtain ⟨e, he, hce⟩ := ih u.length
            (by rw [← hn, List.length_append, List.length_cons]; omega)
            (fun h => hhash.2 (List.mem_cons_of_mem _ h)) hc rfl
          exact ⟨e, List.mem_append_right _ he, hce⟩

/-- An entry of the helper that fits on one line of `splitlines` is an entry of the manager, unless the manager
skips a line beside it. -/
theorem mem_entriesBy_of_oneLined {line : Text} (hall : ∀ e ∈ entriesBy isLineBreak line, (ipNetwork e).isSome)
    (hone : OneLined (entryOfLine (line.filter (· ≠ '\x00')))) (hne : entryOfLine (line.filter (· ≠ '\x00')) ≠ []) :
    entryOfLine (line.filter (· ≠ '\x00')) ∈ entriesBy isLineBreak line := by
  have hprefix : ∃ later, entriesBy isLineBreak line = entriesBy isLineBreak (beforeComment line) ++ later := by
    have hsplit : line.takeWhile (· ≠ '#') ++ line.dropWhile (· ≠ '#') = line := List.takeWhile_append_dropWhile
    rw [beforeComment_eq_takeWhile]
    cases hdrop : line.dropWhile (· ≠ '#') with
    | nil =>
      rw [hdrop, List.append_nil] at hsplit
      exact ⟨[], by rw [hsplit, List.append_nil]⟩
    | cons c rest =>
      have hc := List.head?_dropWhile_not (· ≠ '#') line
      rw [hdrop] at hc
      obtain rfl : c = '#' := by simpa using hc
      rw [hdrop] at hsplit
      obtain ⟨later, hlater⟩ := exists_entriesBy_append_hash isLineBreak (line.takeWhile (· ≠ '#')) rest
      rw [hsplit] at hlater
      exact ⟨later, hlater⟩
  obtain ⟨later, hlater⟩ := hprefix
  have hnul : (beforeComment line).filter (· ≠ '\x00') = beforeComment line := by
    rw [List.filter_eq_self]
    intro c hc
    rw [decide_eq_true_eq]
    rintro rfl
    -- the byte would stand in an entry that is no network
    obtain ⟨e, he, hce⟩ := exists_entry_of_mem (fun _ => isSpace_of_isLineBreak) (not_mem_beforeComment line) hc
      (by decide)
    obtain ⟨n, hn⟩ := Option.isSome_iff_exists.mp (hall e (hlater ▸ List.mem_append_left _ he))
    exact ne_of_isNetworkChar (isNetworkChar_of_parse hn hce) (by decide) rfl
  rw [entryOfLine, beforeComment_filter, hnul] at hone hne ⊢
  obtain ⟨v, w, hv, hw, ht⟩ := exists_strip (beforeComment line)
  rw [List.append_assoc] at ht
  have hhash : '#' ∉ strip (beforeComment line) := fun h => not_mem_beforeComment line (mem_of_mem_strip h)
  have hpadded := entriesBy_padded hv hw hone hhash (strip_strip _) hne
  rw [← ht] at hpadded
  rw [hlater, hpadded]
  exact List.mem_append_left _ (List.mem_singleton_self _)

theorem isLineBreak_of_isNewline (h : isNewline c = true) : isLineBreak c = true := by
  rw [isNewline, Bool.or_eq_true, decide_eq_true_eq, decide_eq_true_eq] at h
  rcases h with rfl | rfl
  · decide
  · decide

theorem isSome_of_readsAll {t e : Text} (hreads : ReadsAll t) (he : e ∈ helperEntries t) (hone : OneLined e) :
    (IPv4.parse false e).isSome := by
  rw [helperEntries, entriesBy, splitOnP_filter, List.map_map] at he
  · obtain ⟨hmem, hne⟩ := List.mem_filter.mp he
    obtain ⟨line, hline, rfl⟩ := List.mem_map.mp hmem
    have hentries : ∀ e ∈ entriesBy isLineBreak line, e ∈ readEntries t := by
      intro e he
      rw [readEntries_eq, entriesBy_eq_flatMap (fun _ => isLineBreak_of_isNewline)]
      exact List.mem_flatMap.mpr ⟨line, hline, he⟩
    have hmem := mem_entriesBy_of_oneLined (fun e he => hreads e (hentries e he)) hone (by simpa using hne)
    exact hreads _ (hentries _ hmem)
  · intro c hc
    rw [decide_eq_true_eq]
    rintro rfl
    revert hc
    decide

/-- **A file that the manager reads without skipping a line** is accepted by the helper exactly when it has an
entry, and every entry at its newlines is explicit and fits on one line of `splitlines`. -/
theorem helperTakes_iff_of_readsAll (hreads : ReadsAll t) :
    helperTakes t = true ↔ helperEntries t ≠ [] ∧ ∀ e ∈ helperEntries t, Explicit e ∧ OneLined e := by
  rw [helperTakes_iff]
  refine and_congr_right fun _ => forall₂_congr fun e he => ?_
  constructor
  · intro haccepts
    have hstrict : (IPv4.parse true e).isSome := by
      rw [scriptAccepts, Bool.and_eq_true] at haccepts
      exact haccepts.2
    obtain ⟨n, hn⟩ := Option.isSome_iff_exists.mp hstrict
    have hparse : (IPv4.parse false e).isSome := Option.isSome_of_eq_some (parse_false_of_parse_true hn)
    exact ⟨(scriptAccepts_iff hparse).mp haccepts, fun c hc =>
      isLineBreak_of_isNetworkChar (isNetworkChar_of_parse hn hc)⟩
  · rintro ⟨hexplicit, hone⟩
    exact (scriptAccepts_iff (isSome_of_readsAll hreads he hone)).mpr hexplicit

end VpnBot.Warp
