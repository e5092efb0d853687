import VpnBot.Awg.ShellRunner
import VpnBot.System.Covering

/-!
# The shell runner and sensitive values

`ShellRunner.run` for a command with sensitive values: what is read of the second stream is decoded, every value in
it is replaced by `***`, one after another, and then the text is stripped and cut.  The text is returned, and logged
where the command failed.

`tracedStderr` is the same run on characters that carry a mark; `map_fst_tracedStderr` says so.  The marks stand at
the characters of sensitive values in what the command wrote, and where they survive part of a value is shown.
-/

namespace VpnBot.Shell

open Py Covering

variable {values : List Text} {stderr : Stream} {cap : ℕ}

/-! ### The run -/

/-- `_redact`. -/
def redact (text : Text) (sensitiveValues : List Text) : Text := replaceAll id sensitiveValues stars text

/-- The text of the second stream. -/
def stderrOf (stderr : Stream) (sensitiveValues : List Text) (maxOutputChars : ℕ) : Text :=
  let (stderrRaw, stderrTruncated) := readStreamLimited stderr maxOutputChars
  compactText (redact (decodeUtf8 stderrRaw) sensitiveValues) stderrTruncated maxOutputChars

/-- `ShellRunner.run` with sensitive values: the result, and the text that is logged with the return code. -/
def runRedacted (maxOutputChars : ℕ) (sensitiveValues : List Text) :
    Outcome → Except Error (ShellResult × Option Text)
  | .missing => .ok (⟨COMMAND_NOT_FOUND_RETURNCODE, [], COMMAND_NOT_FOUND_STDERR⟩, none)
  | .notStarted => .error .os
  | .timedOut _ => .ok (⟨TIMEOUT_RETURNCODE, [], TIMEOUT_STDERR⟩, none)
  | .exited returncode stdout stderr =>
    let text := stderrOf stderr sensitiveValues maxOutputChars
    .ok (⟨returncode, compact stdout maxOutputChars, text⟩, if returncode ≠ 0 then some text else none)

/-! ### The characters of sensitive values -/

/-- The place lies in an occurrence of a sensitive value. -/
def insideValue (values : List Text) (text : Text) (place : ℕ) : Bool :=
  values.any fun value =>
    (List.range (place + 1)).any fun i => place < i + value.length && value.isPrefixOf (text.drop i)

theorem insideValue_iff {text : Text} {place : ℕ} : insideValue values text place = true ↔
    ∃ value ∈ values, ∃ i ≤ place, place < i + value.length ∧ value <+: text.drop i := by
  simp [insideValue, List.any_eq_true]

/-- What is read of the stream, marked where it belongs to a sensitive value. -/
def markedRead (values : List Text) (stderr : Stream) (maxOutputChars : ℕ) : List (Char × Bool) :=
  (decodeUtf8 (readStreamLimited stderr maxOutputChars).1).zipIdx.map fun p =>
    (p.1, insideValue values (decodeUtf8 stderr.data) p.2)

/-- A text without marks. -/
def unmarked (t : Text) : List (Char × Bool) := t.map (·, false)

/-- `t.strip()` of a text with marks. -/
def stripMarked (t : List (Char × Bool)) : List (Char × Bool) :=
  ((t.dropWhile (isSpace ∘ Prod.fst)).reverse.dropWhile (isSpace ∘ Prod.fst)).reverse

/-- `_compact_text` of a text with marks. -/
def compactMarked (text : List (Char × Bool)) (truncated : Bool) (maxOutputChars : ℕ) : List (Char × Bool) :=
  let text := stripMarked text
  if !truncated && text.length ≤ maxOutputChars then text
  else text.take maxOutputChars ++ unmarked truncationMarker

/-- The redacted text, with the marks that survive. -/
def tracedRedact (stderr : Stream) (values : List Text) (maxOutputChars : ℕ) : List (Char × Bool) :=
  replaceAll Prod.fst values (unmarked stars) (markedRead values stderr maxOutputChars)

/-- The text of the second stream, with the marks that survive. -/
def tracedStderr (stderr : Stream) (values : List Text) (maxOutputChars : ℕ) : List (Char × Bool) :=
  compactMarked (tracedRedact stderr values maxOutputChars) (readStreamLimited stderr maxOutputChars).2 maxOutputChars

@[simp] theorem map_fst_unmarked (t : Text) : (unmarked t).map Prod.fst = t := by
  simp [unmarked, Function.comp_def]

theorem map_fst_markedRead (values : List Text) (stderr : Stream) (cap : ℕ) :
    (markedRead values stderr cap).map Prod.fst = decodeUtf8 (readStreamLimited stderr cap).1 := by
  rw [markedRead, List.map_map]
  exact List.zipIdx_map_fst 0 _

theorem map_fst_stripMarked (t : List (Char × Bool)) : (stripMarked t).map Prod.fst = strip (t.map Prod.fst) := by
  rw [stripMarked, strip, List.dropWhile_map, ← List.map_reverse, List.dropWhile_map, ← List.map_reverse]

theorem map_fst_compactMarked (t : List (Char × Bool)) (truncated : Bool) (cap : ℕ) :
    (compactMarked t truncated cap).map Prod.fst = compactText (t.map Prod.fst) truncated cap := by
  have hlength : (stripMarked t).length = (strip (t.map Prod.fst)).length := by
    rw [← map_fst_stripMarked, List.length_map]
  simp only [compactMarked, compactText, hlength]
  split_ifs
  · exact map_fst_stripMarked t
  · rw [List.map_append, List.map_take, map_fst_stripMarked, map_fst_unmarked]

/-- **The marks change nothing.** -/
theorem map_fst_tracedStderr (stderr : Stream) (values : List Text) (cap : ℕ) :
    (tracedStderr stderr values cap).map Prod.fst = stderrOf stderr values cap := by
  have hreplace := map_replaceAll id (Prod.fst : Char × Bool → Char) values (unmarked stars)
    (markedRead values stderr cap)
  rw [map_fst_unmarked, map_fst_markedRead] at hreplace
  rw [tracedStderr, map_fst_compactMarked]
  exact congrArg (compactText · _ cap) hreplace

end VpnBot.Shell
