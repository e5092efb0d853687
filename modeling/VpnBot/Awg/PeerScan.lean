import VpnBot.Awg.Config
import Mathlib.Data.List.TakeWhile

/-!
# The peer scanner as one pass over the lines

`parsePeerBlocks` has two nested loops and reads every peer block again as a small config of its
own.  `onePass` is an automaton that looks at each line once: outside a peer it remembers the last
marker, inside a peer it collects options and reports the peer at the next header.  The scanner
computes what the automaton computes, errors included (`parsePeerBlocks_eq_onePass`).
-/

namespace VpnBot.Awg

open Py

/-- Where the automaton is: between peers, with the marker seen last, or in a peer, with its options
so far and the marker that stood in front of it. -/
inductive ScanState
  | outside (pendingMarker : Options)
  | peer (options pendingMarker : Options)

/-- What a header line opens when no marker is pending. -/
def openSection (stripped : Text) : ScanState :=
  if stripped = "[Peer]".toList then .peer Dict.empty Dict.empty else .outside Dict.empty

/-- One pass over the lines. -/
def onePass : ScanState → List Text → Except AwgConfigError (List Options)
  | .outside _, [] => .ok []
  | .outside pendingMarker, raw :: lines =>
    let stripped := strip raw
    let marker := managedStartMarker stripped
    if !marker.items.isEmpty then onePass (.outside marker) lines
    else if stripped = "[Peer]".toList then onePass (.peer Dict.empty pendingMarker) lines
    else if !stripped.isEmpty && !isComment stripped then onePass (.outside Dict.empty) lines
    else onePass (.outside pendingMarker) lines
  | .peer options pendingMarker, [] => .ok [options.update pendingMarker]
  | .peer options pendingMarker, raw :: lines =>
    if isHeader (strip raw) then
      (onePass (openSection (strip raw)) lines).map (options.update pendingMarker :: ·)
    else
      (addOption "Peer".toList options raw).bind fun options =>
        onePass (.peer options pendingMarker) lines

/-! ### Headers -/

theorem managedStartMarker_of_isHeader {line : Text} (h : isHeader line = true) :
    managedStartMarker line = Dict.empty := by
  cases line with
  | nil => rfl
  | cons c line =>
    have hc : c = '[' := by
      simp [isHeader, startsWith] at h
      exact h.1.symm
    subst hc
    rfl

theorem not_isComment_of_isHeader {line : Text} (h : isHeader line = true) :
    isComment line = false ∧ line.isEmpty = false := by
  cases line with
  | nil => cases h
  | cons c line =>
    have hc : c = '[' := by
      simp [isHeader, startsWith] at h
      exact h.1.symm
    subst hc
    exact ⟨rfl, rfl⟩

theorem onePass_outside_header {raw : Text} (h : isHeader (strip raw) = true) (lines : List Text) :
    onePass (.outside Dict.empty) (raw :: lines) = onePass (openSection (strip raw)) lines := by
  have hc := not_isComment_of_isHeader h
  rw [onePass, openSection]
  simp only [managedStartMarker_of_isHeader h, hc.1, hc.2]
  split_ifs <;> first | rfl | contradiction

/-! ### One peer block -/

/-- The options of a section after some more lines. -/
def addOptions (name : Text) (options : Options) (lines : List Text) :
    Except AwgConfigError Options :=
  lines.foldlM (addOption name) options

@[simp] theorem addOption_nil (name : Text) (options : Options) :
    addOption name options [] = .ok options := rfl

theorem addOptions_dropEmptyLast (name : Text) (lines : List Text) (options : Options) :
    addOptions name options (dropEmptyLast lines) = addOptions name options lines := by
  unfold addOptions
  induction lines generalizing options with
  | nil => rfl
  | cons l ls ih =>
    cases ls with
    | nil =>
      rw [dropEmptyLast]
      split_ifs with hl
      · rw [hl]; rfl
      · rfl
    | cons m ms =>
      rw [dropEmptyLast, List.foldlM_cons, List.foldlM_cons]
      exact congrArg _ (funext fun o => ih o)

theorem mem_of_mem_dropEmptyLast {lines : List Text} {l : Text} (h : l ∈ dropEmptyLast lines) :
    l ∈ lines := by
  induction lines with
  | nil => cases h
  | cons m ms ih =>
    cases ms with
    | nil =>
      rw [dropEmptyLast] at h
      split_ifs at h
      · cases h
      · exact h
    | cons k ks =>
      rcases List.mem_cons.1 h with rfl | h
      · exact List.mem_cons_self
      · exact List.mem_cons_of_mem _ (ih h)

theorem foldlM_parseLine_body (lines : List Text) (h : ∀ l ∈ lines, isHeader (strip l) = false)
    (s : AwgSection) (done : List AwgSection) :
    lines.foldlM parseLine (s :: done) =
      (addOptions s.name s.options lines).map fun o => ⟨s.name, s.lines ++ lines, o⟩ :: done := by
  induction lines generalizing s with
  | nil => simp [addOptions, Except.map, pure, Except.pure]
  | cons l ls ih =>
    have hl : parseLine (s :: done) l =
        (addOption s.name s.options l).map fun o => ⟨s.name, s.lines ++ [l], o⟩ :: done := by
      simp only [parseLine, h l List.mem_cons_self]
      cases addOption s.name s.options l <;> rfl
    rw [List.foldlM_cons, hl, addOptions, List.foldlM_cons]
    cases addOption s.name s.options l with
    | error e => rfl
    | ok o =>
      have := ih (fun m hm => h m (List.mem_cons_of_mem _ hm)) ⟨s.name, s.lines ++ [l], o⟩
      simp only [List.append_assoc, List.singleton_append] at this
      exact this

theorem parseLine_interface : parseLine [] "[Interface]".toList =
    .ok [⟨"Interface".toList, ["[Interface]".toList], Dict.empty⟩] := rfl

theorem parseLine_peer {raw : Text} (h : strip raw = "[Peer]".toList)
    (sections : List AwgSection) :
    parseLine sections raw = .ok (⟨"Peer".toList, [raw], Dict.empty⟩ :: sections) := by
  simp only [parseLine.eq_def, h]
  rfl

/-- **The small config of a peer block has the options of its lines.** -/
theorem parseBlock_eq {raw : Text} (block : List Text) (hraw : strip raw = "[Peer]".toList)
    (hblock : ∀ l ∈ block, isHeader (strip l) = false)
    (hbreak : ∀ l ∈ raw :: block, ∀ c ∈ l, isLineBreak c = false) :
    (parseBlock (raw :: block)).map AwgSection.options =
      addOptions "Peer".toList Dict.empty block := by
  have hne : raw ≠ [] := by
    rintro rfl
    revert hraw
    decide
  have hlines : splitlines (join '\n' ("[Interface]".toList :: raw :: block)) =
      "[Interface]".toList :: raw :: dropEmptyLast block := by
    rw [splitlines_join]
    · cases block with
      | nil => simp [dropEmptyLast, hne]
      | cons l ls => rfl
    · intro l hl
      rcases List.mem_cons.1 hl with rfl | hl
      · exact forall_mem_of_all (by decide)
      · exact hbreak l hl
  have hbody := foldlM_parseLine_body (dropEmptyLast block)
    (fun l hl => hblock l (mem_of_mem_dropEmptyLast hl)) ⟨"Peer".toList, [raw], Dict.empty⟩
    [⟨"Interface".toList, ["[Interface]".toList], Dict.empty⟩]
  rw [addOptions_dropEmptyLast] at hbody
  have hsections : (splitlines (join '\n' ("[Interface]".toList :: raw :: block))).foldlM
      parseLine [] = (addOptions "Peer".toList Dict.empty block).map fun o =>
        [⟨"Peer".toList, raw :: dropEmptyLast block, o⟩,
          ⟨"Interface".toList, ["[Interface]".toList], Dict.empty⟩] := by
    rw [hlines, List.foldlM_cons, parseLine_interface]
    change List.foldlM parseLine _ (raw :: dropEmptyLast block) = _
    rw [List.foldlM_cons, parseLine_peer hraw]
    exact hbody
  rw [parseBlock, parseSections, hsections]
  cases addOptions "Peer".toList Dict.empty block <;> rfl

/-! ### The two loops -/

/-- In a peer, the automaton reads up to the next header and then starts again. -/
theorem onePass_peer (lines : List Text) (options pendingMarker : Options) :
    let block := lines.takeWhile fun l => !isHeader (strip l)
    onePass (.peer options pendingMarker) lines =
      (addOptions "Peer".toList options block).bind fun o =>
        (onePass (.outside Dict.empty) (lines.drop block.length)).map
          (o.update pendingMarker :: ·) := by
  induction lines generalizing options with
  | nil => rfl
  | cons raw lines ih =>
    rw [onePass, List.takeWhile_cons]
    cases hh : isHeader (strip raw) with
    | true =>
      have hb : (if (!true) = true then raw :: lines.takeWhile (fun l => !isHeader (strip l)) else [])
          = [] := rfl
      simp only [hb, if_true, List.length_nil, List.drop_zero]
      rw [onePass_outside_header hh]
      rfl
    | false =>
      simp only [Bool.not_false, if_true, List.length_cons, List.drop_succ_cons]
      rw [if_neg (by decide), addOptions, List.foldlM_cons]
      cases addOption "Peer".toList options raw with
      | error e => rfl
      | ok o => exact ih o

theorem parsePeerBlocksLoop_eq (k : ℕ) (lines : List Text) (pendingMarker : Options)
    (hk : lines.length ≤ k) (hbreak : ∀ l ∈ lines, ∀ c ∈ l, isLineBreak c = false) :
    parsePeerBlocksLoop k lines pendingMarker = onePass (.outside pendingMarker) lines := by
  induction k generalizing lines pendingMarker with
  | zero =>
    rw [List.length_eq_zero_iff.1 (Nat.le_zero.1 hk)]
    rfl
  | succ k ih =>
    cases lines with
    | nil => rfl
    | cons raw lines =>
      have hk : lines.length ≤ k := Nat.le_of_succ_le_succ hk
      have hrest : ∀ l ∈ lines, ∀ c ∈ l, isLineBreak c = false := fun l hl =>
        hbreak l (List.mem_cons_of_mem _ hl)
      rw [parsePeerBlocksLoop, onePass]
      simp only [ih _ _ hk hrest]
      split_ifs with hm hp hc
      · rfl
      · -- the peer section: the inner loop takes the block
        rw [onePass_peer]
        have hblock := parseBlock_eq (lines.takeWhile fun l => !isHeader (strip l)) hp
          (fun l hl => by simpa using List.mem_takeWhile_imp hl)
          (fun l hl => hbreak l (by
            rcases List.mem_cons.1 hl with rfl | hl
            · exact List.mem_cons_self
            · exact List.mem_cons_of_mem _ ((List.takeWhile_prefix _).subset hl)))
        rw [← hblock, ih _ _ (by rw [List.length_drop]; omega)
          fun l hl => hrest l (List.mem_of_mem_drop hl)]
        cases parseBlock (raw :: lines.takeWhile fun l => !isHeader (strip l)) with
        | error e => rfl
        | ok s => cases onePass (.outside Dict.empty) _ <;> rfl
      · rfl
      · rfl

/-- **The scanner is the one-pass automaton.** -/
theorem parsePeerBlocks_eq_onePass (text : Text) :
    parsePeerBlocks text = onePass (.outside Dict.empty) (splitlines text) :=
  parsePeerBlocksLoop_eq _ _ _ le_rfl fun _ hl => isLineBreak_of_mem_splitlines hl

end VpnBot.Awg
