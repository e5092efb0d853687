import VpnBot.Awg.Config
import VpnBot.Awg.ShellRunner

/-!
# The AWG runtime

`src/adapters/awg_config.py` without the privileged helper: what the bot learns of the running interface
from `awg show`, and the config that it hands to `awg syncconf`.  Every command is run by the shell runner
of `src/bot/app.py`, `ShellRunner(max_output_chars=4096)`; a world gives what comes of each command.

* `runAwgOrWg`, `quickStrip`: the fallback to `wg` where `awg` is not installed;
* `parseRuntimePeers`, `listRuntimePeers`, `verifyRuntimePeer`;
* `syncRuntimeFromConfig`, with the text in the file for `syncconf`.
-/

namespace VpnBot.Awg

open Py Shell

/-! ### The commands -/

/-- The cap of the runner that the bot builds. -/
def maxOutputChars : ℕ := 4096

/-- `_is_command_missing`. -/
def isCommandMissing (result : ShellResult) : Bool :=
  result.returncode == COMMAND_NOT_FOUND_RETURNCODE && result.stderr == COMMAND_NOT_FOUND_STDERR

/-- `_run_awg_or_wg`. -/
def runAwgOrWg (awg wg : Outcome) : Except Error ShellResult := do
  let result ← run maxOutputChars awg
  if !isCommandMissing result then return result
  run maxOutputChars wg

/-- `_quick_strip`. -/
def quickStrip (awgQuick wgQuick : Outcome) : Except Error ShellResult := do
  let result ← run maxOutputChars awgQuick
  if !isCommandMissing result then return result
  let result ← run maxOutputChars wgQuick
  if isCommandMissing result then
    throw (.awgConfig "Не найден awg-quick или wg-quick для проверки AWG config".toList)
  return result

/-- The command of the two whose output counts. -/
def ran (first second : Outcome) : Outcome :=
  match run maxOutputChars first with
  | .ok result => if isCommandMissing result then second else first
  | .error _ => first

/-! ### The peers of the runtime -/

/-- What the line of a peer begins with. -/
def peerPrefix : Text := "peer: ".toList

def publicKeyField : Text := "PublicKey".toList

def allowedIpsField : Text := "AllowedIPs".toList

def endpointField : Text := "Endpoint".toList

/-- A stripped line with content; the peer that the lines are about comes first. -/
def readContentLine (peers : List Options) (line : Text) : List Options :=
  if startsWith peerPrefix line then
    Dict.singleton publicKeyField (strip (line.drop peerPrefix.length)) :: peers
  else
    match peers, splitOnce ':' line with
    | current :: rest, some (key, value) =>
      if strip key = "allowed ips".toList then current.set allowedIpsField (strip value) :: rest
      else if strip key = "endpoint".toList then current.set endpointField (strip value) :: rest
      else peers
    | _, _ => peers

/-- One line of `_parse_runtime_peers`. -/
def readRuntimeLine (peers : List Options) (rawLine : Text) : List Options :=
  let line := strip rawLine
  if line.isEmpty then peers else readContentLine peers line

/-- `_parse_runtime_peers`. -/
def parseRuntimePeers (text : Text) : List Options :=
  ((splitlines text).foldl readRuntimeLine []).reverse

/-- `list_runtime_peers`. -/
def listRuntimePeers (interface : Text) (awg wg : Outcome) : Except Error (List Options) := do
  let result ← runAwgOrWg awg wg
  if !result.ok then
    throw (.awgApply ("Не удалось получить AWG runtime peers для ".toList ++ interface))
  return parseRuntimePeers result.stdout

/-- `verify_runtime_peer`. -/
def verifyRuntimePeer (awg wg : Outcome) (publicKey : Text) : Except Error Bool := do
  let result ← runAwgOrWg awg wg
  if !result.ok then return false
  return (splitlines result.stdout).any fun line => strip line = peerPrefix ++ publicKey

/-! ### The config for `syncconf` -/

/-- `_sync_runtime_from_config`: the text in the file that `syncconf` is given, if it comes to that, and how
the call ends.  The flag says whether the file can be written. -/
def syncRuntimeFromConfig (awgQuick wgQuick : Outcome) (written : Bool) (awg wg : Outcome) :
    Option Text × Except Error Unit :=
  match quickStrip awgQuick wgQuick with
  | .error (.awgConfig _) =>
    (none, .error (.awgApply "Не удалось проверить восстановленный AWG config перед syncconf".toList))
  | .error error => (none, .error error)
  | .ok stripped =>
    if !stripped.ok then
      (none, .error (.awgApply "Не удалось подготовить AWG config для syncconf".toList))
    else if !written then (none, .error .os)
    else
      (some stripped.stdout, do
        let result ← runAwgOrWg awg wg
        if !result.ok then
          throw (.awgApply "Не удалось синхронизировать AWG runtime из восстановленного config".toList))

/-! ### The command that counts -/

theorem runAwgOrWg_eq (awg wg : Outcome) : runAwgOrWg awg wg = run maxOutputChars (ran awg wg) := by
  unfold runAwgOrWg ran
  cases h : run maxOutputChars awg with
  | error error => exact h.symm
  | ok result =>
    show (if !isCommandMissing result then .ok result else run maxOutputChars wg) = _
    simp only
    cases hmissing : isCommandMissing result
    · exact h.symm
    · rfl

theorem quickStrip_eq_ok {awgQuick wgQuick : Outcome} {result : ShellResult}
    (h : quickStrip awgQuick wgQuick = .ok result) :
    run maxOutputChars (ran awgQuick wgQuick) = .ok result := by
  rw [← runAwgOrWg_eq]
  unfold quickStrip at h
  unfold runAwgOrWg
  cases hfirst : run maxOutputChars awgQuick with
  | error error =>
    rw [hfirst] at h
    cases h
  | ok first =>
    rw [hfirst] at h
    simp only [bind, Except.bind] at h
    show (if !isCommandMissing first then .ok first else run maxOutputChars wgQuick) = _
    cases hmissing : isCommandMissing first with
    | false =>
      rw [hmissing] at h
      exact h
    | true =>
      rw [hmissing] at h
      cases hsecond : run maxOutputChars wgQuick with
      | error error =>
        rw [hsecond] at h
        cases h
      | ok second =>
        rw [hsecond] at h
        cases hnone : isCommandMissing second with
        | false =>
          simp only [hnone] at h
          exact h
        | true =>
          simp only [hnone] at h
          cases h

theorem run_ok {cap : ℕ} {outcome : Outcome} {result : ShellResult}
    (h : run cap outcome = .ok result) (hok : result.ok = true) :
    outcome.Succeeds ∧ ∃ stdout : Stream, stdout.data = outcome.printed ∧
      result.stdout = compact stdout cap := by
  cases outcome with
  | missing =>
    cases h
    exact absurd hok (by decide)
  | notStarted => cases h
  | timedOut stdout =>
    cases h
    exact absurd hok (by decide)
  | exited returncode stdout stderr =>
    cases h
    have hzero : returncode = 0 := by simpa [ShellResult.ok] using hok
    exact ⟨hzero, stdout, rfl, rfl⟩

theorem run_of_succeeds {cap : ℕ} {outcome : Outcome} (h : outcome.Succeeds) :
    ∃ result, run cap outcome = .ok result ∧ result.ok = true := by
  cases outcome with
  | exited returncode stdout stderr =>
    have hzero : returncode = 0 := h
    exact ⟨_, rfl, by rw [ShellResult.ok, hzero]; rfl⟩
  | missing => exact absurd h not_false
  | notStarted => exact absurd h not_false
  | timedOut stdout => exact absurd h not_false

/-! ### What the parser sees -/

theorem parseRuntimePeers_eq (text : Text) :
    parseRuntimePeers text = ((contentLines text).foldl readContentLine []).reverse := by
  have hfold : ∀ (lines : List Text) (peers : List Options),
      lines.foldl readRuntimeLine peers =
        ((lines.map strip).filter (!·.isEmpty)).foldl readContentLine peers := by
    intro lines
    induction lines with
    | nil => exact fun _ => rfl
    | cons line lines ih =>
      intro peers
      rw [List.foldl_cons, ih, List.map_cons, List.filter_cons, readRuntimeLine]
      cases hempty : (strip line).isEmpty
      · rfl
      · rfl
  rw [parseRuntimePeers, hfold]
  rfl

theorem parseRuntimePeers_congr {text seen : Text} (h : contentLines seen = contentLines text) :
    parseRuntimePeers seen = parseRuntimePeers text := by
  rw [parseRuntimePeers_eq, parseRuntimePeers_eq, h]

/-- A peer is printed: the text has its line. -/
def Prints (text publicKey : Text) : Prop :=
  ∃ line ∈ splitlines text, strip line = peerPrefix ++ publicKey

theorem prints_iff {text publicKey : Text} :
    Prints text publicKey ↔ peerPrefix ++ publicKey ∈ contentLines text := by
  unfold contentLines
  rw [List.mem_filter, List.mem_map]
  exact ⟨fun h => ⟨h, rfl⟩, fun h => h.1⟩

def keyOfLine (line : Text) : Text := strip (line.drop peerPrefix.length)

theorem get?_readContentLine (peers : List Options) (line : Text) :
    (readContentLine peers line).map (·.get? publicKeyField) =
      (if startsWith peerPrefix line then [some (keyOfLine line)] else []) ++
        peers.map (·.get? publicKeyField) := by
  unfold readContentLine
  split_ifs with hpeer
  · simp [keyOfLine, Dict.get?]
  · split
    · rename_i current rest key value heq
      have hallowed : publicKeyField ≠ allowedIpsField := by decide
      have hendpoint : publicKeyField ≠ endpointField := by decide
      split_ifs
      · simp [Dict.get?_set_of_ne, hallowed]
      · simp [Dict.get?_set_of_ne, hendpoint]
      · rfl
    · rfl

/-- **The listed keys are those of the lines that begin a peer.** -/
theorem get?_parseRuntimePeers (text : Text) :
    (parseRuntimePeers text).map (·.get? publicKeyField) =
      ((contentLines text).filter (startsWith peerPrefix)).map fun line => some (keyOfLine line) := by
  have hfold : ∀ (lines : List Text) (peers : List Options),
      (lines.foldl readContentLine peers).reverse.map (·.get? publicKeyField) =
        (peers.reverse.map (·.get? publicKeyField)) ++
          (lines.filter (startsWith peerPrefix)).map fun line => some (keyOfLine line) := by
    intro lines
    induction lines with
    | nil => exact fun peers => (List.append_nil _).symm
    | cons line lines ih =>
      intro peers
      rw [List.foldl_cons, ih, List.map_reverse, get?_readContentLine, List.reverse_append,
        List.append_assoc, List.map_reverse, List.filter_cons]
      split_ifs
      · rfl
      · rfl
  rw [parseRuntimePeers_eq, hfold]
  rfl

end VpnBot.Awg
