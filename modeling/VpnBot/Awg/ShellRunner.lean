import VpnBot.Python.Utf8
import VpnBot.Python.ContentLines

/-!
# The shell runner and its output cap

`src/adapters/shell_runner.py`: `ShellRunner.run` starts a command, reads at most `max_output_chars` bytes
of each of its two streams, decodes them and strips the text.  A text that is longer, or was cut, is given
back cut with a marker behind it.

* `readStreamLimited`, `compactText`, `run`: as the runner computes them;
* `readStreamLimited_eq`: the loop over the chunks reads a prefix of the stream;
* `compact_of_le`, `compact_of_lt`: the text of a short and of a long stream.

None of the commands modelled here has sensitive values, so nothing is redacted; the arguments that a
result repeats are left out.
-/

namespace VpnBot.Shell

open Py

/-! ### Commands and results -/

/-- A stream of a command, in the chunks that `stream.read(1024)` returns. -/
structure Stream where
  chunks : List (List UInt8)
  valid : ∀ chunk ∈ chunks, chunk ≠ [] ∧ chunk.length ≤ 1024

/-- What the command writes to the stream. -/
def Stream.data (stream : Stream) : List UInt8 := stream.chunks.flatten

/-- A stream that is read byte by byte. -/
def Stream.ofData (data : List UInt8) : Stream where
  chunks := data.map ([·])
  valid := by
    intro chunk hchunk
    obtain ⟨b, -, rfl⟩ := List.mem_map.1 hchunk
    exact ⟨List.cons_ne_nil _ _, Nat.le_add_left 1 1023⟩

@[simp] theorem Stream.data_ofData (data : List UInt8) : (Stream.ofData data).data = data := by
  show (data.map fun b => [b]).flatten = data
  induction data with
  | nil => rfl
  | cons b data ih => exact congrArg (b :: ·) ih

/-- What comes of starting a command. -/
inductive Outcome
  /-- There is no such program. -/
  | missing
  /-- The program cannot be started for another reason. -/
  | notStarted
  /-- The command is killed at the timeout. -/
  | timedOut (stdout : Stream)
  | exited (returncode : ℤ) (stdout stderr : Stream)

def Outcome.printed : Outcome → List UInt8
  | .missing => []
  | .notStarted => []
  | .timedOut stdout => stdout.data
  | .exited _ stdout _ => stdout.data

/-- The command runs to its end and reports success. -/
def Outcome.Succeeds : Outcome → Prop
  | .exited returncode _ _ => returncode = 0
  | _ => False

/-- `ShellResult`. -/
structure ShellResult where
  returncode : ℤ
  stdout : Text
  stderr : Text

/-- `ShellResult.ok`. -/
def ShellResult.ok (result : ShellResult) : Bool := result.returncode == 0

/-- The exceptions of the runner and of the AWG adapter. -/
inductive Error
  | os
  | awgConfig (message : Text)
  | awgApply (message : Text)

def COMMAND_NOT_FOUND_RETURNCODE : ℤ := 127

def COMMAND_NOT_FOUND_STDERR : Text := "command not found".toList

def TIMEOUT_RETURNCODE : ℤ := 124

def TIMEOUT_STDERR : Text := "timeout".toList

/-! ### The runner -/

/-- The loop of `_read_stream_limited`. -/
def readStreamLimitedLoop (maxOutputBytes : ℕ) :
    List UInt8 → ℕ → Bool → List (List UInt8) → List UInt8 × Bool
  | data, _, truncated, [] => (data, truncated)
  | data, total, truncated, chunk :: chunks =>
    let remaining := maxOutputBytes - total
    let truncated' := truncated || remaining < chunk.length
    if 0 < remaining then
      readStreamLimitedLoop maxOutputBytes (data ++ chunk.take remaining)
        (total + min chunk.length remaining) truncated' chunks
    -- Past the cap the rest is read and dropped, so that the command does not block on a full pipe.
    else readStreamLimitedLoop maxOutputBytes data total truncated' chunks

/-- `_read_stream_limited`. -/
def readStreamLimited (stream : Stream) (maxOutputBytes : ℕ) : List UInt8 × Bool :=
  readStreamLimitedLoop maxOutputBytes [] 0 false stream.chunks

/-- What stands for the part of a text that is cut off. -/
def truncationMarker : Text := "...[truncated]".toList

/-- `_compact_text`. -/
def compactText (text : Text) (truncated : Bool) (maxOutputChars : ℕ) : Text :=
  let text := strip text
  if !truncated && text.length ≤ maxOutputChars then text
  else text.take maxOutputChars ++ truncationMarker

/-- `_compact` of what is read of a stream. -/
def compact (stream : Stream) (maxOutputChars : ℕ) : Text :=
  let (data, truncated) := readStreamLimited stream maxOutputChars
  compactText (decodeUtf8 data) truncated maxOutputChars

/-- `ShellRunner.run` with an output limit. -/
def run (maxOutputChars : ℕ) : Outcome → Except Error ShellResult
  | .missing => .ok ⟨COMMAND_NOT_FOUND_RETURNCODE, [], COMMAND_NOT_FOUND_STDERR⟩
  | .notStarted => .error .os
  | .timedOut _ => .ok ⟨TIMEOUT_RETURNCODE, [], TIMEOUT_STDERR⟩
  | .exited returncode stdout stderr =>
    .ok ⟨returncode, compact stdout maxOutputChars, compact stderr maxOutputChars⟩

/-! ### What the runner reads -/

theorem readStreamLimitedLoop_cons (cap : ℕ) (before chunk : List UInt8) (chunks : List (List UInt8)) :
    readStreamLimitedLoop cap (before.take cap) (min before.length cap) (decide (cap < before.length))
        (chunk :: chunks) =
      readStreamLimitedLoop cap ((before ++ chunk).take cap) (min (before ++ chunk).length cap)
        (decide (cap < (before ++ chunk).length)) chunks := by
  rw [readStreamLimitedLoop, List.take_append, List.length_append]
  have htruncated : (decide (cap < before.length) ||
      decide (cap - min before.length cap < chunk.length)) =
        decide (cap < before.length + chunk.length) := by
    rw [Bool.eq_iff_iff, Bool.or_eq_true, decide_eq_true_eq, decide_eq_true_eq, decide_eq_true_eq]
    omega
  simp only [htruncated]
  split_ifs with hremaining
  · have hmin : min before.length cap = before.length := by omega
    have htotal : before.length + min chunk.length (cap - before.length) =
        min (before.length + chunk.length) cap := by omega
    rw [hmin, htotal]
  · have hzero : cap - before.length = 0 := by omega
    have htotal : min before.length cap = min (before.length + chunk.length) cap := by omega
    rw [hzero, List.take_zero, List.append_nil, htotal]

/-- **The runner reads a prefix of the stream and notices when that is not all.** -/
theorem readStreamLimited_eq (stream : Stream) (cap : ℕ) :
    readStreamLimited stream cap = (stream.data.take cap, decide (cap < stream.data.length)) := by
  have hloop : ∀ (chunks : List (List UInt8)) (before : List UInt8),
      readStreamLimitedLoop cap (before.take cap) (min before.length cap)
          (decide (cap < before.length)) chunks =
        ((before ++ chunks.flatten).take cap, decide (cap < (before ++ chunks.flatten).length)) := by
    intro chunks
    induction chunks with
    | nil =>
      intro before
      rw [List.flatten_nil, List.append_nil]
      rfl
    | cons chunk chunks ih =>
      intro before
      rw [readStreamLimitedLoop_cons, ih, List.flatten_cons, List.append_assoc]
  have h := hloop stream.chunks []
  rw [List.take_nil, List.nil_append] at h
  exact h

/-- **A stream below the cap comes through**, up to the white space around it. -/
theorem compact_of_le {stream : Stream} {cap : ℕ} (h : stream.data.length ≤ cap) :
    compact stream cap = strip (decodeUtf8 stream.data) := by
  have hnot : ¬ cap < stream.data.length := by omega
  have hlen : (strip (decodeUtf8 stream.data)).length ≤ cap :=
    (length_strip_le _).trans ((length_decodeUtf8_le _).trans h)
  rw [compact, readStreamLimited_eq]
  simp [compactText, hnot, List.take_of_length_le h, hlen]

/-- **A longer stream is cut and carries the marker.** -/
theorem compact_of_lt {stream : Stream} {cap : ℕ} (h : cap < stream.data.length) :
    compact stream cap = (strip (decodeUtf8 (stream.data.take cap))).take cap ++ truncationMarker := by
  rw [compact, readStreamLimited_eq]
  simp [compactText, h]

theorem mem_compact_of_lt {stream : Stream} {cap : ℕ} (h : cap < stream.data.length) {c : Char}
    (hc : c ∈ compact stream cap) :
    c ∈ decodeUtf8 (stream.data.take cap) ∨ c ∈ truncationMarker := by
  rw [compact_of_lt h] at hc
  rcases List.mem_append.1 hc with hc | hc
  · exact .inl (mem_of_mem_strip (List.mem_of_mem_take hc))
  · exact .inr hc

end VpnBot.Shell
