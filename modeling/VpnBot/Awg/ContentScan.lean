import VpnBot.Awg.ManagedTags
import VpnBot.Python.ContentLines

/-!
# The config as its lines with content

The parser and the scanner strip every line, and a blank line changes neither the sections nor the peers.  So
both are determined by `contentLines`: the sections, without the lines that they keep, by `outlineLine`
(`parseSections_outline`), and the peers by `scanRun`, which reads a config in two parts
(`onePass_eq_scanRun`).
-/

namespace VpnBot.Awg

open Py

/-! ### The sections -/

/-- A section without its lines. -/
def AwgSection.outline (s : AwgSection) : Text × Options := (s.name, s.options)

/-- `parseLine` on a stripped line, without the lines of the sections. -/
def outlineLine (sections : List (Text × Options)) (line : Text) :
    Except AwgConfigError (List (Text × Options)) :=
  if isHeader line then
    if sectionNames.contains (strip line.tail.dropLast) then
      .ok ((strip line.tail.dropLast, Dict.empty) :: sections)
    else .error ⟨"Неизвестная секция AWG config: [".toList ++ strip line.tail.dropLast ++ "]".toList⟩
  else
    match sections with
    | [] =>
      if line.isEmpty || isComment line then .ok []
      else .error ⟨"AWG config содержит параметры до первой секции".toList⟩
    | current :: done => (addOption current.1 current.2 line).map fun options => (current.1, options) :: done

theorem addOption_strip (name : Text) (options : Options) (raw : Text) :
    addOption name options (strip raw) = addOption name options raw := by
  rw [addOption, addOption, strip_strip]

theorem parseLine_outline (sections : List AwgSection) (raw : Text) :
    (parseLine sections raw).map (List.map AwgSection.outline) =
      outlineLine (sections.map AwgSection.outline) (strip raw) := by
  unfold parseLine outlineLine
  dsimp only
  by_cases hheader : isHeader (strip raw) = true
  · rw [if_pos hheader, if_pos hheader]
    split_ifs <;> rfl
  · rw [if_neg hheader, if_neg hheader]
    cases sections with
    | nil =>
      dsimp only [List.map_nil]
      split_ifs <;> rfl
    | cons current done =>
      rw [List.map_cons]
      show Except.map _ (do
          let options ← addOption current.name current.options raw
          return ⟨current.name, current.lines ++ [raw], options⟩ :: done) =
        (addOption current.name current.options (strip raw)).map _
      rw [addOption_strip]
      cases addOption current.name current.options raw <;> rfl

theorem outlineLine_nil (sections : List (Text × Options)) : outlineLine sections [] = .ok sections := by
  cases sections <;> rfl

theorem contents_cons (l : Text) (ls : List Text) :
    contents (l :: ls) = if strip l = [] then contents ls else strip l :: contents ls := by
  rw [contents, List.map_cons, List.filter_cons]
  cases strip l <;> rfl

theorem foldlM_outline (lines : List Text) (sections : List AwgSection) :
    (lines.foldlM parseLine sections).map (List.map AwgSection.outline) =
      (contents lines).foldlM outlineLine (sections.map AwgSection.outline) := by
  induction lines generalizing sections with
  | nil => rfl
  | cons l lines ih =>
    have hline := parseLine_outline sections l
    rw [List.foldlM_cons, contents_cons]
    split_ifs with hblank
    · rw [hblank, outlineLine_nil] at hline
      cases hparsed : parseLine sections l with
      | error e =>
        rw [hparsed] at hline
        cases hline
      | ok sections' =>
        rw [hparsed] at hline
        have heq : sections'.map AwgSection.outline = sections.map AwgSection.outline := Except.ok.inj hline
        rw [← heq]
        exact ih sections'
    · rw [List.foldlM_cons, ← hline]
      cases parseLine sections l with
      | error e => rfl
      | ok sections' => exact ih sections'

/-- The outlines of the sections of a config. -/
def outlines (content : List Text) : Except AwgConfigError (List (Text × Options)) := do
  let sections ← content.foldlM outlineLine []
  if sections.any (·.1 = "Interface".toList) then return sections.reverse
  else throw ⟨"В AWG config не найден [Interface]".toList⟩

/-- **The sections are determined by the lines with content.** -/
theorem parseSections_outline (t : Text) :
    (parseSections t).map (List.map AwgSection.outline) = outlines (contentLines t) := by
  have hfold := foldlM_outline (splitlines t) []
  rw [parseSections, outlines, show contentLines t = contents (splitlines t) from rfl]
  rw [List.map_nil] at hfold
  rw [← hfold]
  cases (splitlines t).foldlM parseLine [] with
  | error e => rfl
  | ok sections =>
    have hany : (sections.map AwgSection.outline).any (·.1 = "Interface".toList) =
        sections.any (·.name = "Interface".toList) := by
      rw [List.any_map]
      rfl
    simp only [Except.map, bind, Except.bind, hany]
    split_ifs
    · show Except.ok (sections.reverse.map AwgSection.outline) = Except.ok (sections.map AwgSection.outline).reverse
      rw [List.map_reverse]
    · rfl

/-! ### The peers -/

/-- One line of `onePass`: the peer that it reports, if any, and where the automaton is then. -/
def scanStep : ScanState → Text → Except AwgConfigError (List Options × ScanState)
  | .outside pendingMarker, line =>
    if !(managedStartMarker line).items.isEmpty then .ok ([], .outside (managedStartMarker line))
    else if line = "[Peer]".toList then .ok ([], .peer Dict.empty pendingMarker)
    else if !line.isEmpty && !isComment line then .ok ([], .outside Dict.empty)
    else .ok ([], .outside pendingMarker)
  | .peer options pendingMarker, line =>
    if isHeader line then .ok ([options.update pendingMarker], openSection line)
    else (addOption "Peer".toList options line).map fun options => ([], .peer options pendingMarker)

/-- The peers that some lines report, and where the automaton is then. -/
def scanRun : ScanState → List Text → Except AwgConfigError (List Options × ScanState)
  | state, [] => .ok ([], state)
  | state, line :: lines =>
    (scanStep state line).bind fun step =>
      (scanRun step.2 lines).map fun run => (step.1 ++ run.1, run.2)

/-- The peer that is reported at the end. -/
def scanEnd : ScanState → List Options
  | .outside _ => []
  | .peer options pendingMarker => [options.update pendingMarker]

theorem scanStep_nil (state : ScanState) : scanStep state [] = .ok ([], state) := by
  cases state <;> rfl

theorem onePass_cons (state : ScanState) (raw : Text) (lines : List Text) :
    onePass state (raw :: lines) =
      (scanStep state (strip raw)).bind fun step => (onePass step.2 lines).map (step.1 ++ ·) := by
  have hid : ∀ r : Except AwgConfigError (List Options), r.map ([] ++ ·) = r := by
    intro r
    cases r <;> rfl
  cases state with
  | outside pendingMarker =>
    rw [onePass, scanStep]
    split_ifs <;> exact (hid _).symm
  | peer options pendingMarker =>
    rw [onePass, scanStep, addOption_strip]
    split_ifs
    · rfl
    · cases addOption "Peer".toList options raw with
      | error e => rfl
      | ok options' => exact (hid _).symm

/-- **The peers are determined by the lines with content.** -/
theorem onePass_eq_scanRun (state : ScanState) (lines : List Text) :
    onePass state lines = (scanRun state (contents lines)).map fun run => run.1 ++ scanEnd run.2 := by
  induction lines generalizing state with
  | nil => cases state <;> rfl
  | cons l lines ih =>
    rw [onePass_cons, contents_cons]
    split_ifs with hblank
    · rw [hblank, scanStep_nil]
      show (onePass state lines).map ([] ++ ·) = _
      rw [ih state]
      cases scanRun state (contents lines) <;> rfl
    · rw [scanRun]
      cases scanStep state (strip l) with
      | error e => rfl
      | ok step =>
        show (onePass step.2 lines).map (step.1 ++ ·) = ((scanRun step.2 (contents lines)).map _).map _
        rw [ih step.2]
        cases scanRun step.2 (contents lines) with
        | error e => rfl
        | ok run => exact congrArg Except.ok (List.append_assoc _ _ _).symm

theorem scanRun_append (state : ScanState) (lines lines' : List Text) :
    scanRun state (lines ++ lines') =
      (scanRun state lines).bind fun run => (scanRun run.2 lines').map fun run' => (run.1 ++ run'.1, run'.2) := by
  have hid : ∀ r : Except AwgConfigError (List Options × ScanState),
      r.map (fun run => ([] ++ run.1, run.2)) = r := by
    intro r
    cases r <;> rfl
  induction lines generalizing state with
  | nil => exact (hid _).symm
  | cons l lines ih =>
    rw [List.cons_append, scanRun, scanRun]
    cases scanStep state l with
    | error e => rfl
    | ok step =>
      show (scanRun step.2 (lines ++ lines')).map _ = ((scanRun step.2 lines).map _).bind _
      rw [ih step.2]
      cases scanRun step.2 lines with
      | error e => rfl
      | ok run =>
        show ((scanRun run.2 lines').map _).map _ = (scanRun run.2 lines').map _
        cases scanRun run.2 lines' with
        | error e => rfl
        | ok run' => exact congrArg (fun peers => Except.ok (peers, run'.2)) (List.append_assoc _ _ _).symm

theorem listConfigPeers_eq_scanRun (t : Text) :
    listConfigPeers t = (scanRun (.outside Dict.empty) (contentLines t)).map fun run => run.1 ++ scanEnd run.2 := by
  rw [listConfigPeers, parsePeerBlocks_eq_onePass, onePass_eq_scanRun]
  rfl

end VpnBot.Awg
