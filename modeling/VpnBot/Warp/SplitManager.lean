import VpnBot.Python.Lines
import VpnBot.System.Program
import VpnBot.Warp.FeedStore

/-!
# The manager of the split list

`src/warp/split_manager.py`: the guards, the check of a whole candidate list, the check of single
tokens, and the write through the privileged helper.  A `Host` is what the manager meets outside:
the endpoint that the status helper reports, the two networks read from the kernel and the apply
helper, which may do anything to the list file.

`ends_applyLocked` is what later proofs use: an apply never touches the tables, and it returns
exactly when the list passes the whole check and the helper is not needed or exits with zero.
-/

namespace VpnBot.Warp

open Py Sys

/-! ### The manager and its host -/

/-- The settings of a `WarpSplitManager`. -/
structure SplitManager where
  awgNetwork : IPv4Network
  maxPrefixes : ℕ
  minPrefixlen : ℕ

/-- A run of the apply helper: it exits with a return code and an output, or the runner raises;
both leave some list file. -/
inductive HelperRun
  | exited (returncode : ℤ) (detail : Text) (file : Option Text)
  | raised (file : Option Text)

def HelperRun.file : HelperRun → Option Text
  | .exited _ _ file => file
  | .raised file => file

/-- What the manager meets outside: `applyHelper content file` is the run of the apply helper on
an input when the list file holds `file`. -/
structure Host where
  probe : Option ℕ
  wan : Option (IPv4Network × Text)
  gateway : Option ℕ
  applyHelper : Text → Option Text → HelperRun

theorem addr10_lt : 10 * 2 ^ 24 < 2 ^ 32 := by decide

theorem prefixlen24_le : 24 ≤ 32 := by decide

def defaultManager : SplitManager where
  awgNetwork := Network.around (10 * 2 ^ 24) 24 addr10_lt prefixlen24_le
  maxPrefixes := 1500
  minPrefixlen := 8

/-- A host on which the apply helper always writes its input. -/
def obedientHost : Host where
  probe := none
  wan := none
  gateway := none
  applyHelper content _ := .exited 0 [] (some content)

/-- The exceptions of the manager and of the merge. -/
inductive SplitError
  | emptyList
  | capExceeded (count limit : ℕ)
  | notIpv4 (token : Text)
  | defaultRoute (token : Text)
  | shortPrefix (token : Text) (minPrefixlen : ℕ)
  | overlaps (token : Text) (guard : IPv4Network) (reason : Text)
  | helperFailed (returncode : ℤ) (detail : Text)
  | helperRaised
  | noCache (slug : Text)
  | valueError
  deriving DecidableEq

/-- The state an edit works on: the tables, the list file and the last endpoint seen. -/
structure SplitState where
  tables : FeedTables
  file : Option Text
  endpointIp : Option ℕ

/-- A method of the manager or of the service. -/
abbrev SplitM := Program SplitState SplitError

structure ApplyOutcome where
  count : ℕ
  added : List Text
  removed : List Text
  unchanged : Bool
  deriving DecidableEq

/-! ### Reading the list file -/

/-- `ip_network(token, strict=False)`, an IPv6 network counting as `none`: the list is IPv4 only,
and all callers turn both down. -/
def ipNetwork (token : Text) : Option IPv4Network := IPv4.parse false token

/-- What stands before the first `#`. -/
def beforeComment (line : Text) : Text := (splitOnce '#' line).elim line Prod.fst

/-- The networks of the list file, sorted; lines that are no IPv4 network are skipped. -/
def readList (file : Option Text) : List Text :=
  match file with
  | none => []
  | some text =>
    (sortNetworks ((splitlines text).filterMap fun raw =>
      ipNetwork (strip (beforeComment raw)))).map IPv4.text

/-- The list as it is written to disk. -/
def renderList (cidrList : List Text) : Text := join '\n' cidrList ++ ['\n']

/-! ### Guards -/

/-- A guard network and the reason for it. -/
abbrev Guard := IPv4Network × Text

theorem loopback_lt : 127 * 2 ^ 24 < 2 ^ 32 := by decide

theorem linkLocal_lt : 169 * 2 ^ 24 + 254 * 2 ^ 16 < 2 ^ 32 := by decide

theorem multicast_lt : 224 * 2 ^ 24 < 2 ^ 32 := by decide

theorem warpTunnel_lt : 172 * 2 ^ 24 + 16 * 2 ^ 16 < 2 ^ 32 := by decide

theorem prefixlen4_le : 4 ≤ 32 := by decide

theorem prefixlen8_le : 8 ≤ 32 := by decide

theorem prefixlen12_le : 12 ≤ 32 := by decide

theorem prefixlen16_le : 16 ≤ 32 := by decide

/-- `_STATIC_GUARDS`. -/
def STATIC_GUARDS : List Guard :=
  [(Network.around (127 * 2 ^ 24) 8 loopback_lt prefixlen8_le, "loopback (127.0.0.0/8)".toList),
   (Network.around (169 * 2 ^ 24 + 254 * 2 ^ 16) 16 linkLocal_lt prefixlen16_le,
    "link-local (169.254.0.0/16)".toList),
   (Network.around (224 * 2 ^ 24) 4 multicast_lt prefixlen4_le, "multicast (224.0.0.0/4)".toList),
   (Network.around (172 * 2 ^ 24 + 16 * 2 ^ 16) 12 warpTunnel_lt prefixlen12_le,
    "WARP tunnel range (172.16.0.0/12) — would break the tunnel".toList)]

/-- The `/32` around an address. -/
def hostNetwork (a : ℕ) : Option IPv4Network := IPv4.ofParts false a 32

/-- `build_guards`: the static guards, the client subnet, the network and the gateway of the
server, and the endpoint when one is known. -/
def buildGuards (manager : SplitManager) (host : Host) (endpointIp : Option ℕ) : List Guard :=
  STATIC_GUARDS ++
    [(manager.awgNetwork,
      "AWG client subnet (".toList ++ IPv4.text manager.awgNetwork ++ [')'])] ++
    (host.wan.map fun w => (w.1, "server ".toList ++ w.2 ++ " network (".toList ++ IPv4.text w.1 ++
      ") — would break SSH".toList)).toList ++
    ((host.gateway.bind hostNetwork).map fun g => (g, "default gateway (".toList ++
      IPv4.addressText g.addr ++ ") — would break the host's uplink".toList)).toList ++
    ((endpointIp.bind hostNetwork).map fun e => (e, "WARP endpoint (".toList ++
      IPv4.addressText e.addr ++ ") — would create a routing loop".toList)).toList

/-- `refresh_endpoint`: a probe that finds nothing keeps the last endpoint. -/
def refreshEndpoint (host : Host) : SplitM Unit :=
  modify fun s => { s with endpointIp := host.probe <|> s.endpointIp }

/-! ### The check of a candidate list -/

def checkEntry (manager : SplitManager) (guards : List Guard) (raw : Text) :
    Except SplitError Unit :=
  let token := strip raw
  if token.isEmpty then .ok ()
  else
    match ipNetwork token with
    | none => .error (.notIpv4 token)
    | some net =>
      if net.prefixlen = 0 then .error (.defaultRoute token)
      else if net.prefixlen < manager.minPrefixlen then
        .error (.shortPrefix token manager.minPrefixlen)
      else
        match guards.find? fun g => net.overlaps g.1 with
        | some g => .error (.overlaps token g.1 g.2)
        | none => .ok ()

/-- The check of a whole candidate list against the guards: the cap, then every entry. -/
def checkList (manager : SplitManager) (guards : List Guard) (cidrList : List Text) :
    Except SplitError Unit :=
  if manager.maxPrefixes < cidrList.length then
    .error (.capExceeded cidrList.length manager.maxPrefixes)
  else cidrList.forM (checkEntry manager guards)

theorem forM_checkEntry (manager : SplitManager) (guards : List Guard) (cidrList : List Text) :
    (cidrList.forM (checkEntry manager guards) = .ok () ∧
      ∀ raw ∈ cidrList, checkEntry manager guards raw = .ok ()) ∨
    ∃ raw ∈ cidrList, ∃ e, checkEntry manager guards raw = .error e ∧
      cidrList.forM (checkEntry manager guards) = .error e := by
  induction cidrList with
  | nil => exact Or.inl ⟨rfl, nofun⟩
  | cons raw cidrList ih =>
    have hcons : (raw :: cidrList).forM (checkEntry manager guards) =
        (checkEntry manager guards raw >>= fun _ => cidrList.forM (checkEntry manager guards)) := rfl
    rw [hcons]
    cases hraw : checkEntry manager guards raw with
    | error e => exact Or.inr ⟨raw, List.mem_cons_self, e, hraw, rfl⟩
    | ok u =>
      rcases ih with ⟨hloop, hall⟩ | ⟨bad, hbad, e, he, hloop⟩
      · exact Or.inl ⟨hloop, List.forall_mem_cons.2 ⟨hraw, hall⟩⟩
      · exact Or.inr ⟨bad, List.mem_cons_of_mem _ hbad, e, he, hloop⟩

/-- `check_candidate`. -/
def checkCandidate (manager : SplitManager) (host : Host) (cidrList : List Text) : SplitM Unit := do
  refreshEndpoint host
  Program.ofExcept fun s => checkList manager (buildGuards manager host s.endpointIp) cidrList

/-! ### The check of the tokens of an operator -/

/-- `CidrResult.status`, as far as adding goes. -/
inductive CidrStatus
  | added
  | dup
  | rejected
  deriving DecidableEq

/-- What became of one token. -/
structure CidrResult where
  raw : Text
  canonical : Text
  status : CidrStatus
  deriving DecidableEq

/-- `_validate_add`. -/
def validateAdd (token : Text) (current seen : List Text) (guards : List Guard)
    (minPrefixlen : ℕ) : CidrResult :=
  if '/' ∉ token then ⟨token, [], .rejected⟩
  else
    match ipNetwork token with
    | none => ⟨token, [], .rejected⟩
    | some net =>
      let canonical := IPv4.text net
      if net.prefixlen = 0 ∨ net.prefixlen < minPrefixlen then ⟨token, canonical, .rejected⟩
      else if guards.any fun g => g.1.prefixlen ≠ 0 && net.overlaps g.1 then
        ⟨token, canonical, .rejected⟩
      else if canonical ∈ current ∨ canonical ∈ seen then ⟨token, canonical, .dup⟩
      else ⟨token, canonical, .added⟩

/-- The loop of `process_add_tokens`; `seen` holds the prefixes accepted so far. -/
def addTokensLoop (manager : SplitManager) (guards : List Guard) (current : List Text) :
    List Text → List Text → List CidrResult × List Text
  | _, [] => ([], [])
  | seen, raw :: tokens =>
    let token := strip raw
    if token.isEmpty then addTokensLoop manager guards current seen tokens
    else
      let r := validateAdd token current seen guards manager.minPrefixlen
      if r.status = .added then
        let rest := addTokensLoop manager guards current (r.canonical :: seen) tokens
        (r :: rest.1, r.canonical :: rest.2)
      else
        let rest := addTokensLoop manager guards current seen tokens
        (r :: rest.1, rest.2)

/-- `process_add_tokens`: what became of each token, and the prefixes accepted. -/
def processAddTokens (manager : SplitManager) (host : Host) (endpointIp : Option ℕ)
    (tokens current : List Text) : List CidrResult × List Text :=
  addTokensLoop manager (buildGuards manager host endpointIp) current [] tokens

theorem validateAdd_added {token : Text} {current seen : List Text} {guards : List Guard}
    {minPrefixlen : ℕ} (h : (validateAdd token current seen guards minPrefixlen).status = .added) :
    ∃ n, ipNetwork token = some n ∧
      (validateAdd token current seen guards minPrefixlen).canonical = IPv4.text n ∧
        validateAdd token [] [] guards minPrefixlen = ⟨token, IPv4.text n, .added⟩ := by
  unfold validateAdd at h ⊢
  split_ifs at h ⊢ with hslash
  cases hnet : ipNetwork token with
  | none =>
    rw [hnet] at h
    cases h
  | some n =>
    rw [hnet] at h
    dsimp only at h ⊢
    split_ifs at h ⊢ with hwide hguard hdup hnone
    · exact absurd hnone (by simp)
    · exact ⟨n, rfl, rfl, rfl⟩

theorem mem_addTokensLoop {manager : SplitManager} {guards : List Guard}
    {current seen tokens : List Text} {p : Text}
    (h : p ∈ (addTokensLoop manager guards current seen tokens).2) :
    ∃ raw ∈ tokens, (strip raw).isEmpty = false ∧ ∃ seen,
      (validateAdd (strip raw) current seen guards manager.minPrefixlen).status = .added ∧
        p = (validateAdd (strip raw) current seen guards manager.minPrefixlen).canonical := by
  induction tokens generalizing seen with
  | nil => cases h
  | cons raw tokens ih =>
    have hlater : ∀ {seen}, p ∈ (addTokensLoop manager guards current seen tokens).2 →
        ∃ raw' ∈ raw :: tokens, (strip raw').isEmpty = false ∧ ∃ seen,
          (validateAdd (strip raw') current seen guards manager.minPrefixlen).status = .added ∧
            p = (validateAdd (strip raw') current seen guards manager.minPrefixlen).canonical := by
      intro seen hmem
      obtain ⟨raw', hraw, hadded⟩ := ih hmem
      exact ⟨raw', List.mem_cons_of_mem _ hraw, hadded⟩
    rw [addTokensLoop] at h
    dsimp only at h
    split_ifs at h with hempty hadded
    · exact hlater h
    · rcases List.mem_cons.1 h with rfl | h
      · exact ⟨raw, List.mem_cons_self, Bool.eq_false_iff.2 hempty, seen, hadded, rfl⟩
      · exact hlater h
    · exact hlater h

/-! ### Apply -/

def runHelper (host : Host) (content : Text) : SplitM HelperRun := do
  let s ← get
  let run := host.applyHelper content s.file
  modify fun s => { s with file := run.file }
  return run

/-- `_restore_previous`: the previous content goes through the helper again, and a second failure
only raises an alert. -/
def restorePrevious (host : Host) (previous : Option Text) : SplitM Unit :=
  match previous with
  | none => pure ()
  | some text =>
    if (strip text).isEmpty then pure ()
    else do
      let _ ← runHelper host text
      return ()

/-- `_apply_locked`. -/
def applyLocked (manager : SplitManager) (host : Host) (cidrList : List Text) (force : Bool) :
    SplitM ApplyOutcome :=
  if cidrList.isEmpty then throw .emptyList
  else do
    let s ← get
    let previousEntries := readList s.file
    checkCandidate manager host cidrList
    let content := renderList cidrList
    if !force && s.file = some content then
      return ⟨cidrList.length, [], [], true⟩
    else do
      let run ← runHelper host content
      match run with
      | .raised _ => throw .helperRaised
      | .exited returncode detail _ =>
        if returncode ≠ 0 then do
          restorePrevious host s.file
          throw (.helperFailed returncode detail)
        else
          return { count := cidrList.length
                   added := sortTexts (cidrList.dedup.filter (· ∉ previousEntries))
                   removed := sortTexts (previousEntries.dedup.filter (· ∉ cidrList))
                   unchanged := false }

/-- `apply_computed`: the computation and the write, both under the lock. -/
def applyComputed (manager : SplitManager) (host : Host) (compute : SplitM (List Text)) :
    SplitM ApplyOutcome := do
  let prefixes ← compute
  applyLocked manager host prefixes false

/-! ### What an apply can do -/

/-- The helper exits with zero on this input and this list file. -/
def HelperAccepts (host : Host) (content : Text) (file : Option Text) : Prop :=
  ∃ detail file', host.applyHelper content file = .exited 0 detail file'

/-- The list is not empty, passes the check of the manager, and stands in the file already or is
taken by the helper. -/
structure Accepted (manager : SplitManager) (host : Host) (s : SplitState) (cidrList : List Text) :
    Prop where
  nonempty : cidrList ≠ []
  checked : checkList manager (buildGuards manager host (host.probe <|> s.endpointIp)) cidrList =
    .ok ()
  written : s.file = some (renderList cidrList) ∨ HelperAccepts host (renderList cidrList) s.file

/-- The second run of the helper concerns the list file only. -/
theorem ends_restorePrevious (host : Host) (previous : Option Text) {s : SplitState}
    {P : Unit → SplitState → Prop} {Q : SplitError → SplitState → Prop}
    (h : ∀ s', s'.tables = s.tables → P () s') : Program.Ends (restorePrevious host previous) P Q s := by
  cases previous with
  | none => exact h s rfl
  | some text =>
    simp only [restorePrevious]
    split_ifs
    · exact h s rfl
    · simp only [runHelper, Program.ends_bind, Program.ends_get, Program.ends_modify,
        Program.ends_pure]
      exact h _ rfl

/-- **An apply leaves the tables alone, and returns exactly on an accepted list.** -/
theorem ends_applyLocked (manager : SplitManager) (host : Host) (cidrList : List Text)
    (s : SplitState) :
    Program.Ends (applyLocked manager host cidrList false)
      (fun _ s' => s'.tables = s.tables ∧ Accepted manager host s cidrList)
      (fun _ s' => s'.tables = s.tables ∧ ¬ Accepted manager host s cidrList) s := by
  rw [applyLocked]
  by_cases hne : cidrList.isEmpty
  · rw [if_pos hne, Program.ends_throw]
    exact ⟨rfl, fun h => h.nonempty (List.isEmpty_iff.1 hne)⟩
  have hne' : cidrList ≠ [] := fun h => hne (List.isEmpty_iff.2 h)
  rw [if_neg hne]
  simp only [checkCandidate, refreshEndpoint, Program.ends_bind, Program.ends_get,
    Program.ends_modify, Program.ends_ofExcept, Bool.not_false, Bool.true_and, decide_eq_true_eq]
  refine ⟨fun _ hc => ?_, fun e he => ⟨trivial, fun h => ?_⟩⟩
  · split_ifs with hf
    · exact ⟨rfl, hne', hc, Or.inl hf⟩
    · simp only [runHelper, Program.ends_bind, Program.ends_get, Program.ends_modify,
        Program.ends_pure]
      cases hrun : host.applyHelper (renderList cidrList) s.file with
      | raised file =>
        refine ⟨rfl, fun h => ?_⟩
        obtain ⟨detail, file', ha⟩ := h.written.resolve_left hf
        rw [hrun] at ha
        cases ha
      | exited returncode detail file =>
        simp only
        split_ifs with hrc
        · rw [Program.ends_bind]
          refine ends_restorePrevious host _ fun s' hs' => ⟨hs', fun h => ?_⟩
          obtain ⟨detail', file', ha⟩ := h.written.resolve_left hf
          rw [hrun] at ha
          cases ha
          exact hrc rfl
        · rw [not_not] at hrc
          exact ⟨rfl, hne', hc, Or.inr ⟨detail, file, by rw [hrun, hrc]⟩⟩
  · rw [h.checked] at he
    cases he

end VpnBot.Warp
