import VpnBot.MtProxy.StoreRoundTrip
import VpnBot.Python.Find

/-!
# The launch of the proxy

`_env_content` of `src/adapters/mtproxy.py` writes the environment file of the service, and
`src/deploy/run-mtproxy-managed` makes the arguments of the proxy out of that file and the store of the secrets.
Written by the adapter, the two files give the arguments with the secrets in order (`launch_storeDocument_iff`).

Not modelled: the encoding of the files, and what `execv` makes of the arguments.
-/

namespace VpnBot.MtProxy

open Py Json

/-! ### The environment file -/

/-- What the adapter knows of the service. -/
structure Adapter where
  binaryPath : Text
  runUser : Text
  runGroup : Text
  proxySecretPath : Text
  proxyMultiConfPath : Text
  managedSecretsPath : Text
  port : ℤ
  internalStatsPort : Option ℤ
  workers : ℤ

variable {a : Adapter}

/-- `self.internal_stats_port or 8888`. -/
def Adapter.statsPort (a : Adapter) : ℤ :=
  match a.internalStatsPort with
  | some n => if n = 0 then 8888 else n
  | none => 8888

/-- The records of the environment file. -/
def Adapter.envValues (a : Adapter) : List (Text × Text) :=
  [("MTPROTO_BINARY_PATH".toList, a.binaryPath),
    ("MTPROTO_RUN_USER".toList, a.runUser),
    ("MTPROTO_RUN_GROUP".toList, a.runGroup),
    ("MTPROTO_PROXY_SECRET_PATH".toList, a.proxySecretPath),
    ("MTPROTO_PROXY_MULTI_CONF_PATH".toList, a.proxyMultiConfPath),
    ("MTPROTO_MANAGED_SECRETS_PATH".toList, a.managedSecretsPath),
    ("MTPROTO_PORT".toList, intText a.port),
    ("MTPROTO_INTERNAL_STATS_PORT".toList, intText a.statsPort),
    ("MTPROTO_WORKERS".toList, intText a.workers)]

/-- A character that would end the record. -/
def isControl (c : Char) : Bool := c = '\n' || c = '\r' || c = '\x00'

/-- A record of the file. -/
def envLine (record : Text × Text) : Text := record.1 ++ '=' :: record.2

/-- `_env_content`. -/
def Adapter.envContent (a : Adapter) : Except Text Text :=
  match a.envValues.find? fun record => record.2.any isControl with
  | some (key, _) =>
    .error ("MTProxy env value for ".toList ++ key ++ " содержит недопустимые управляющие символы".toList)
  | none => .ok (a.envValues.flatMap fun record => envLine record ++ ['\n'])

structure Files where
  secrets : Option Text
  env : Option Text
  deriving DecidableEq

/-! ### The wrapper -/

/-- `_ALLOWED_BINARY_PATHS`. -/
def allowedBinaryPaths : List Text := ["/usr/local/bin/mtproto-proxy".toList]

/-- `_ALLOWED_ENV_KEYS`. -/
def allowedEnvKeys : List Text :=
  ["MTPROTO_BINARY_PATH".toList, "MTPROTO_RUN_USER".toList, "MTPROTO_RUN_GROUP".toList,
    "MTPROTO_PROXY_SECRET_PATH".toList, "MTPROTO_PROXY_MULTI_CONF_PATH".toList,
    "MTPROTO_MANAGED_SECRETS_PATH".toList, "MTPROTO_PORT".toList, "MTPROTO_INTERNAL_STATS_PORT".toList,
    "MTPROTO_WORKERS".toList]

/-- `required_keys`. -/
def requiredKeys : List Text :=
  ["MTPROTO_BINARY_PATH".toList, "MTPROTO_RUN_USER".toList, "MTPROTO_PROXY_SECRET_PATH".toList,
    "MTPROTO_PROXY_MULTI_CONF_PATH".toList, "MTPROTO_MANAGED_SECRETS_PATH".toList, "MTPROTO_PORT".toList,
    "MTPROTO_INTERNAL_STATS_PORT".toList, "MTPROTO_WORKERS".toList]

/-- One line of `read_env`. -/
def readEnvLine (env : Dict Text Text) (raw : Text) : Dict Text Text :=
  let line := strip raw
  if line.isEmpty ∨ line.head? = some '#' then env
  else
    match splitOnce '=' line with
    | none => env
    | some (key, value) => if key ∈ allowedEnvKeys then env.set key value else env

/-- `read_env`, on the text of the file. -/
def readEnv (content : Text) : Dict Text Text :=
  ((Warp.universalNewlines content).splitOn '\n').foldl readEnvLine Dict.empty

/-- The digits that `isdigit` accepts and `int` does not. -/
def digitRanges : List (ℕ × ℕ) :=
  [(0xb2, 0xb3), (0xb9, 0xb9), (0x1369, 0x1371), (0x19da, 0x19da), (0x2070, 0x2070), (0x2074, 0x2079),
    (0x2080, 0x2089), (0x2460, 0x2468), (0x2474, 0x247c), (0x2488, 0x2490), (0x24ea, 0x24ea), (0x24f5, 0x24fd),
    (0x24ff, 0x24ff), (0x2776, 0x277e), (0x2780, 0x2788), (0x278a, 0x2792), (0x10a40, 0x10a43),
    (0x10e60, 0x10e68), (0x11052, 0x1105a), (0x1f100, 0x1f10a)]

/-- `text.isdigit()`. -/
def isDigitText (t : Text) : Bool :=
  !t.isEmpty && t.all fun c =>
    (digitValue c).isSome || digitRanges.any fun range => range.1 ≤ c.toNat && c.toNat ≤ range.2

/-- Why there is no launch: the keys that are missing, the value that is refused, or an exception. -/
inductive LaunchError
  | missing (keys : List Text)
  | binaryPath (path : Text)
  | port (key raw : Text)
  | workers (raw : Text)
  | raised
  deriving DecidableEq

/-- `env[key]` for a key that is there. -/
def envAt (env : Dict Text Text) (key : Text) : Text := (env.get? key).getD []

/-- `_require_port`. -/
def requirePort (env : Dict Text Text) (key : Text) : Except LaunchError Unit :=
  let raw := envAt env key
  if !isDigitText raw then .error (.port key raw)
  else
    match parseInt raw with
    | none => .error .raised
    | some n => if 1 ≤ n ∧ n ≤ 65535 then .ok () else .error (.port key raw)

/-- `document.get("runtime_secrets") or document.get("secrets") or []`; what is not a list raises later. -/
def runtimeItems (document : Json) : Except LaunchError (List Json) :=
  if !document.isObj then .error .raised
  else
    let runtime := document.field "runtime_secrets".toList
    let secrets := document.field "secrets".toList
    let value := if runtime.truthy then runtime else if secrets.truthy then secrets else .arr []
    match value with
    | .arr items => .ok items
    | _ => .error .raised

def itemSecret (p : Interpreter) (item : Json) : Except LaunchError Text :=
  if item.isObj then .ok (p.strOr (item.field "secret".toList)) else .error .raised

def arguments (env : Dict Text Text) (secrets : List Text) : List Text :=
  [envAt env "MTPROTO_BINARY_PATH".toList, "-u".toList, envAt env "MTPROTO_RUN_USER".toList, "-p".toList,
      envAt env "MTPROTO_INTERNAL_STATS_PORT".toList, "-H".toList, envAt env "MTPROTO_PORT".toList] ++
    (secrets.flatMap fun secret => if secret.isEmpty then [] else ["-S".toList, secret]) ++
    ["--aes-pwd".toList, envAt env "MTPROTO_PROXY_SECRET_PATH".toList,
      envAt env "MTPROTO_PROXY_MULTI_CONF_PATH".toList, "-M".toList, envAt env "MTPROTO_WORKERS".toList]

/-- `json.load` of a file. -/
def loadDocument (p : Interpreter) (file : Option Text) : Except LaunchError Json :=
  match file with
  | none => .error .raised
  | some text =>
    match Json.read p.limit p.float (Warp.universalNewlines text) with
    | .error _ => .error .raised
    | .ok document => .ok document

/-- `main` of the wrapper behind `read_env`, up to `execv`; `files` are the texts of the files. -/
def launchWith (p : Interpreter) (env : Dict Text Text) (files : Text → Option Text) :
    Except LaunchError (List Text) := do
  let missing := requiredKeys.filter fun key => !env.contains key
  if !missing.isEmpty then .error (.missing missing)
  else if envAt env "MTPROTO_BINARY_PATH".toList ∉ allowedBinaryPaths then
    .error (.binaryPath (envAt env "MTPROTO_BINARY_PATH".toList))
  else
    requirePort env "MTPROTO_PORT".toList
    requirePort env "MTPROTO_INTERNAL_STATS_PORT".toList
    if !isDigitText (envAt env "MTPROTO_WORKERS".toList) then
      .error (.workers (envAt env "MTPROTO_WORKERS".toList))
    else
      let document ← loadDocument p (files (envAt env "MTPROTO_MANAGED_SECRETS_PATH".toList))
      let items ← runtimeItems document
      let secrets ← items.mapM (itemSecret p)
      return arguments env secrets

/-- `main` of the wrapper, on the text of the environment file. -/
def launch (p : Interpreter) (envFile : Option Text) (files : Text → Option Text) :
    Except LaunchError (List Text) :=
  match envFile with
  | none => .error .raised
  | some content => launchWith p (readEnv content) files

/-! ### White space at the end -/

theorem rstrip_append_cons {c : Char} (h : isSpace c = false) (t v : Text) :
    rstrip (t ++ c :: v) = t ++ c :: rstrip v := by
  rw [rstrip, rstrip, List.rdropWhile, List.rdropWhile, List.reverse_append, List.reverse_cons, List.append_assoc,
    List.dropWhile_append]
  cases hv : v.reverse.dropWhile isSpace with
  | nil => simp [h]
  | cons d w => simp

theorem strip_of_head {c : Char} (h : isSpace c = false) (t : Text) : strip (c :: t) = rstrip (c :: t) := by
  rw [strip, List.dropWhile_cons_of_neg (by simp [h])]
  rfl

/-! ### The records of the file -/

variable {key value env : Text}

theorem key_of_mem (h : key ∈ allowedEnvKeys) :
    (∃ rest, key = 'M' :: rest) ∧ '=' ∉ key ∧ '\n' ∉ key ∧ '\r' ∉ key := by
  have hall : (allowedEnvKeys.all fun key =>
      key.head? = some 'M' && !key.any fun c => c = '=' || c = '\n' || c = '\r') = true := by decide
  have hkey := List.all_eq_true.1 hall key h
  rw [Bool.and_eq_true, decide_eq_true_eq, Bool.not_eq_true', List.any_eq_false] at hkey
  obtain ⟨hhead, hchars⟩ := hkey
  refine ⟨⟨key.tail, (List.cons_head?_tail hhead).symm⟩, ?_, ?_, ?_⟩
  · exact fun hc => hchars _ hc rfl
  · exact fun hc => hchars _ hc rfl
  · exact fun hc => hchars _ hc rfl

theorem readEnvLine_envLine (d : Dict Text Text) (h : key ∈ allowedEnvKeys) (value : Text) :
    readEnvLine d (envLine (key, value)) = d.set key (rstrip value) := by
  obtain ⟨⟨rest, hrest⟩, hequals, -, -⟩ := key_of_mem h
  have hM : isSpace 'M' = false := rfl
  have hstrip : strip (envLine (key, value)) = key ++ '=' :: rstrip value := by
    rw [envLine, hrest, List.cons_append, strip_of_head hM, ← List.cons_append]
    exact rstrip_append_cons (show isSpace '=' = false by rfl) ('M' :: rest) value
  have hline : ¬((key ++ '=' :: rstrip value).isEmpty = true ∨ (key ++ '=' :: rstrip value).head? = some '#') := by
    rw [hrest]
    simp
  unfold readEnvLine
  dsimp only
  rw [hstrip, if_neg hline, splitOnce_append hequals]
  exact if_pos h

theorem splitOn_lines {lines : List Text} (h : ∀ l ∈ lines, '\n' ∉ l) :
    (lines.flatMap fun l => l ++ ['\n']).splitOn '\n' = lines ++ [[]] := by
  induction lines with
  | nil => rfl
  | cons l lines ih =>
    rw [List.flatMap_cons, List.append_assoc, List.singleton_append, List.splitOn_append_cons_self,
      List.splitOn_eq_singleton (h l List.mem_cons_self), ih fun m hm => h m (List.mem_cons_of_mem _ hm)]
    rfl

theorem envContent_eq_ok (h : a.envContent = .ok env) :
    (∀ record ∈ a.envValues, ∀ c ∈ record.2, isControl c = false) ∧
      env = (a.envValues.map envLine).flatMap fun l => l ++ ['\n'] := by
  unfold Adapter.envContent at h
  cases hfind : a.envValues.find? fun record => record.2.any isControl with
  | some record =>
    rw [hfind] at h
    cases h
  | none =>
    rw [hfind] at h
    obtain rfl := Except.ok.inj h
    refine ⟨fun record hrecord c hc => ?_, by rw [List.flatMap_map]⟩
    have hnone := List.find?_eq_none.1 hfind record hrecord
    rw [Bool.not_eq_true, List.any_eq_false] at hnone
    simpa using hnone c hc

theorem mem_allowedEnvKeys {record : Text × Text} (h : record ∈ a.envValues) : record.1 ∈ allowedEnvKeys := by
  have hkeys : a.envValues.map Prod.fst = allowedEnvKeys := rfl
  exact hkeys ▸ List.mem_map_of_mem h

theorem nodup_envValues (a : Adapter) : (a.envValues.map Prod.fst).Nodup := by
  have hkeys : a.envValues.map Prod.fst = allowedEnvKeys := rfl
  rw [hkeys]
  decide

theorem not_mem_envLine (h : a.envContent = .ok env) :
    ∀ l ∈ a.envValues.map envLine, '\n' ∉ l ∧ '\r' ∉ l := by
  intro l hl
  obtain ⟨record, hrecord, rfl⟩ := List.mem_map.1 hl
  obtain ⟨-, -, hnewline, hreturn⟩ := key_of_mem (mem_allowedEnvKeys hrecord)
  have hout : ∀ c, isControl c = true → c ∉ record.2 := by
    intro c hc hmem
    rw [(envContent_eq_ok h).1 record hrecord c hmem] at hc
    cases hc
  simp only [envLine, List.mem_append, List.mem_cons, not_or]
  exact ⟨⟨hnewline, by decide, hout _ rfl⟩, ⟨hreturn, by decide, hout _ rfl⟩⟩

theorem universalNewlines_envContent (h : a.envContent = .ok env) : Warp.universalNewlines env = env := by
  refine Warp.universalNewlines_eq_self ?_
  rw [(envContent_eq_ok h).2, List.mem_flatMap]
  rintro ⟨l, hl, hmem⟩
  rcases List.mem_append.1 hmem with hmem | hmem
  · exact (not_mem_envLine h l hl).2 hmem
  · simp at hmem

/-- **The records of the adapter are read back**, without the white space at the end of a value. -/
theorem readEnv_envContent (h : a.envContent = .ok env) :
    readEnv env = a.envValues.foldl (fun d record => d.set record.1 (rstrip record.2)) Dict.empty := by
  have hblank : ∀ d : Dict Text Text, readEnvLine d [] = d := fun _ => rfl
  rw [readEnv, universalNewlines_envContent h, (envContent_eq_ok h).2,
    splitOn_lines fun l hl => (not_mem_envLine h l hl).1, List.foldl_append, List.foldl_cons, List.foldl_nil, hblank,
    List.foldl_map]
  refine List.foldl_ext _ _ _ fun d record hrecord => ?_
  exact readEnvLine_envLine d (mem_allowedEnvKeys hrecord) record.2

theorem get?_readEnv (h : a.envContent = .ok env) (key : Text) :
    (readEnv env).get? key = ((a.envValues.find? fun record => record.1 = key).map Prod.snd).map rstrip := by
  have hnodup : ((a.envValues.map fun record => (record.1, rstrip record.2)).map Prod.fst).Nodup := nodup_envValues a
  have hfold := Dict.get?_foldl_set (a.envValues.map fun record => (record.1, rstrip record.2)) hnodup Dict.empty key
  rw [List.foldl_map] at hfold
  rw [readEnv_envContent h, hfold, Dict.get?_empty, Option.or_none, List.find?_map, Option.map_map, Option.map_map]
  rfl

/-! ### Ports -/

variable {d : Dict Text Text} {n : ℤ}

theorem isDigitText_natText (m : ℕ) : isDigitText (natText m) = true := by
  rw [isDigitText, Bool.and_eq_true, List.all_eq_true]
  refine ⟨by simpa using natText_ne_nil m, fun c hc => ?_⟩
  rw [digitValue_of_isDigit (isDigit_of_mem_natText hc)]
  rfl

theorem isDigitText_intText : isDigitText (intText n) = true ↔ 0 ≤ n := by
  cases n with
  | ofNat m => exact iff_of_true (isDigitText_natText m) (Int.natCast_nonneg m)
  | negSucc m =>
    refine iff_of_false ?_ (by omega)
    have hminus : ((digitValue '-').isSome || digitRanges.any fun range => range.1 ≤ '-'.toNat && '-'.toNat ≤ range.2) =
        false := by decide
    show ¬isDigitText ('-' :: natText (m + 1)) = true
    rw [isDigitText, List.all_cons, hminus, Bool.false_and, Bool.and_false]
    exact Bool.false_ne_true

theorem requirePort_intText (h : envAt d key = intText n) :
    requirePort d key = .ok () ↔ 1 ≤ n ∧ n ≤ 65535 := by
  rw [requirePort, h]
  cases n with
  | negSucc m =>
    have hdigits : isDigitText (intText (Int.negSucc m)) = false := by
      rw [← Bool.not_eq_true, isDigitText_intText]
      omega
    rw [hdigits]
    refine iff_of_false (fun hok => by cases hok) (by omega)
  | ofNat m =>
    have hdigits : isDigitText (intText (Int.ofNat m)) = true := isDigitText_natText m
    have hparse := parseInt_natText_eq m
    rw [hdigits]
    show (match parseInt (natText m) with
      | none => Except.error LaunchError.raised
      | some n => if 1 ≤ n ∧ n ≤ 65535 then .ok () else .error (.port key (natText m))) = .ok () ↔ _
    by_cases hshort : m < 10 ^ maxStrDigits
    · rw [parseInt_natText hshort]
      show (if 1 ≤ (m : ℤ) ∧ (m : ℤ) ≤ 65535 then Except.ok ()
        else .error (LaunchError.port key (natText m))) = .ok () ↔ _
      split_ifs with hrange
      · exact iff_of_true rfl hrange
      · exact iff_of_false (fun hok => by cases hok) hrange
    · rw [parseInt_natText_of_le (not_lt.1 hshort)]
      refine iff_of_false (fun hok => by cases hok) fun hrange => hshort ?_
      have hsmall : m < 10 ^ 5 := by
        have hle : (m : ℤ) ≤ 65535 := hrange.2
        omega
      exact lt_of_lt_of_le hsmall (Nat.pow_le_pow_right (by decide) (by decide))

theorem rstrip_intText (n : ℤ) : rstrip (intText n) = intText n := by
  have hnat : ∀ m, rstrip (natText m) = natText m := by
    intro m
    refine List.rdropWhile_eq_self_iff.2 fun hne => ?_
    rw [isSpace_of_mem_natText (List.getLast_mem hne)]
    exact Bool.false_ne_true
  cases n with
  | ofNat m => exact hnat m
  | negSucc m =>
    show rstrip ([] ++ '-' :: natText (m + 1)) = _
    rw [rstrip_append_cons (show isSpace '-' = false by rfl), hnat]
    rfl

/-! ### The secrets of the runtime -/

variable {p : Interpreter} {normalized : List ManagedSecret} {generation : ℤ} {runtime : List Json}

/-- The secrets that the proxy gets: those of the users in order, or that of the placeholder. -/
def launchedSecrets (p : Interpreter) (normalized : List ManagedSecret) (runtime : List Json) : List Text :=
  if normalized = [] then runtime.map fun item => p.strOr (item.sorted.field "secret".toList)
  else normalized.map ManagedSecret.secret

theorem Stored.isObj (h : Stored p normalized generation runtime) : ∀ item ∈ runtime, item.isObj = true := by
  intro v hv
  by_cases hnil : normalized = []
  · obtain ⟨placeholder, rfl, hkeeps⟩ := h.placeholder hnil
    rw [List.mem_singleton.1 hv]
    exact isObj_of_keepsPlaceholder hkeeps
  · rw [h.secrets hnil] at hv
    obtain ⟨item, -, rfl⟩ := List.mem_map.1 hv
    rfl

theorem Stored.launchedSecrets (h : Stored p normalized generation runtime) :
    (runtime.map Json.sorted).mapM (itemSecret p) = .ok (launchedSecrets p normalized runtime) := by
  have hall : ∀ items : List Json, (∀ item ∈ items, item.isObj = true) →
      (items.map Json.sorted).mapM (itemSecret p) =
        .ok (items.map fun item => p.strOr (item.sorted.field "secret".toList)) := by
    intro items hitems
    induction items with
    | nil => rfl
    | cons item items ih =>
      have hitem : itemSecret p item.sorted = .ok (p.strOr (item.sorted.field "secret".toList)) := by
        rw [itemSecret, sorted_isObj, if_pos (hitems item List.mem_cons_self)]
      rw [List.map_cons, List.mapM_cons, hitem, ih fun v hv => hitems v (List.mem_cons_of_mem _ hv)]
      rfl
  rw [hall runtime h.isObj, MtProxy.launchedSecrets]
  split_ifs with hnil
  · rfl
  · rw [h.secrets hnil, List.map_map]
    refine congrArg Except.ok (List.map_congr_left fun item hitem => ?_)
    have hreadable := readable_secretDict (p := p) (h.writable item hitem).1 0
    show p.strOr ((secretDict item).sorted.field "secret".toList) = _
    rw [field_sorted hreadable, (field_secretDict item).1]
    exact strOr_str item.secret

theorem Stored.launched (h : Stored p normalized generation runtime) :
    (normalized ≠ [] → MtProxy.launchedSecrets p normalized runtime = normalized.map ManagedSecret.secret) ∧
      (normalized = [] → ∃ placeholder, keepsPlaceholder placeholder = true ∧
        MtProxy.launchedSecrets p normalized runtime = [p.strOr (placeholder.field "secret".toList)]) := by
  refine ⟨fun hne => if_neg hne, fun hnil => ?_⟩
  obtain ⟨placeholder, rfl, hkeeps⟩ := h.placeholder hnil
  have hreadable := h.items placeholder List.mem_cons_self
  refine ⟨placeholder.sorted, (keepsPlaceholder_sorted hreadable).trans hkeeps, ?_⟩
  rw [MtProxy.launchedSecrets, if_pos hnil]
  rfl

theorem Stored.runtimeItems (h : Stored p normalized generation runtime) :
    runtimeItems (documentOf generation (normalized.map secretDict) runtime).sorted =
      .ok (runtime.map Json.sorted) := by
  have hobj : (documentOf generation (normalized.map secretDict) runtime).sorted.isObj = true := rfl
  have htruthy : (Json.arr (runtime.map Json.sorted)).truthy = true := by
    rw [truthy, List.isEmpty_map]
    simpa using h.runtime_ne_nil
  rw [MtProxy.runtimeItems, hobj, h.field.2.1]
  dsimp only
  rw [htruthy]
  rfl

/-! ### The launch -/

/-- The conditions of the wrapper on an environment file. -/
structure EnvLaunches (d : Dict Text Text) : Prop where
  required : requiredKeys.filter (fun key => !d.contains key) = []
  binaryPath : envAt d "MTPROTO_BINARY_PATH".toList ∈ allowedBinaryPaths
  port : requirePort d "MTPROTO_PORT".toList = .ok ()
  statsPort : requirePort d "MTPROTO_INTERNAL_STATS_PORT".toList = .ok ()
  workers : isDigitText (envAt d "MTPROTO_WORKERS".toList) = true

/-- With secrets that can be read there is a launch exactly when the values are allowed. -/
theorem launchWith_eq_ok_iff {files : Text → Option Text} {document : Json} {items : List Json}
    {secrets argv : List Text}
    (hload : loadDocument p (files (envAt d "MTPROTO_MANAGED_SECRETS_PATH".toList)) = .ok document)
    (hitems : runtimeItems document = .ok items) (hsecrets : items.mapM (itemSecret p) = .ok secrets) :
    launchWith p d files = .ok argv ↔ EnvLaunches d ∧ argv = MtProxy.arguments d secrets := by
  have hrequired : (!(requiredKeys.filter fun key => !d.contains key).isEmpty) = true ↔
      requiredKeys.filter (fun key => !d.contains key) ≠ [] := by simp
  unfold launchWith
  dsimp only
  by_cases hmissing : requiredKeys.filter (fun key => !d.contains key) = []
  · rw [if_neg fun h => hrequired.1 h hmissing]
    by_cases hbinary : envAt d "MTPROTO_BINARY_PATH".toList ∈ allowedBinaryPaths
    · rw [if_neg (not_not_intro hbinary), bind_eq_ok]
      constructor
      · rintro ⟨_, hport, hrest⟩
        obtain ⟨_, hstats, hrest⟩ := bind_eq_ok.1 hrest
        split_ifs at hrest with hdigits
        obtain ⟨loaded, hloaded, hrest⟩ := bind_eq_ok.1 hrest
        obtain rfl := Except.ok.inj (hload.symm.trans hloaded)
        obtain ⟨found, hfound, hrest⟩ := bind_eq_ok.1 hrest
        obtain rfl := Except.ok.inj (hitems.symm.trans hfound)
        obtain ⟨taken, htaken, hrest⟩ := bind_eq_ok.1 hrest
        obtain rfl := Except.ok.inj (hsecrets.symm.trans htaken)
        exact ⟨⟨hmissing, hbinary, hport, hstats, by simpa using hdigits⟩, (Except.ok.inj hrest).symm⟩
      · rintro ⟨hlaunches, rfl⟩
        refine ⟨(), hlaunches.port, bind_eq_ok.2 ⟨(), hlaunches.statsPort, ?_⟩⟩
        rw [if_neg (by simpa using hlaunches.workers)]
        exact bind_eq_ok.2 ⟨document, hload, bind_eq_ok.2 ⟨items, hitems, bind_eq_ok.2 ⟨secrets, hsecrets, rfl⟩⟩⟩
    · rw [if_pos hbinary]
      exact iff_of_false (fun h => by cases h) fun h => hbinary h.1.binaryPath
  · rw [if_pos (hrequired.2 hmissing)]
    exact iff_of_false (fun h => by cases h) fun h => hmissing h.1.required

theorem exists_file_of_launch {files : Text → Option Text} {argv : List Text}
    (h : launch p (some env) files = .ok argv) :
    ∃ text, files (envAt (readEnv env) "MTPROTO_MANAGED_SECRETS_PATH".toList) = some text := by
  change launchWith p (readEnv env) files = .ok argv at h
  unfold launchWith at h
  dsimp only at h
  split_ifs at h
  all_goals
    obtain ⟨_, -, h⟩ := bind_eq_ok.1 h
    obtain ⟨_, -, h⟩ := bind_eq_ok.1 h
  · cases h
  obtain ⟨document, hload, -⟩ := bind_eq_ok.1 h
  cases hfile : files (envAt (readEnv env) "MTPROTO_MANAGED_SECRETS_PATH".toList) with
  | some text => exact ⟨text, rfl⟩
  | none =>
    rw [hfile] at hload
    cases hload

/-- The conditions of the wrapper on the values of the adapter. -/
structure Adapter.Launches (a : Adapter) : Prop where
  binaryPath : rstrip a.binaryPath ∈ allowedBinaryPaths
  port : 1 ≤ a.port ∧ a.port ≤ 65535
  statsPort : 1 ≤ a.statsPort ∧ a.statsPort ≤ 65535
  workers : 0 ≤ a.workers

def Adapter.arguments (a : Adapter) (secrets : List Text) : List Text :=
  [rstrip a.binaryPath, "-u".toList, rstrip a.runUser, "-p".toList, intText a.statsPort, "-H".toList,
      intText a.port] ++
    (secrets.flatMap fun secret => if secret.isEmpty then [] else ["-S".toList, secret]) ++
    ["--aes-pwd".toList, rstrip a.proxySecretPath, rstrip a.proxyMultiConfPath, "-M".toList, intText a.workers]

/-- The values that the wrapper finds. -/
theorem envAt_readEnv (h : a.envContent = .ok env) :
    envAt (readEnv env) "MTPROTO_BINARY_PATH".toList = rstrip a.binaryPath ∧
      envAt (readEnv env) "MTPROTO_RUN_USER".toList = rstrip a.runUser ∧
      envAt (readEnv env) "MTPROTO_PROXY_SECRET_PATH".toList = rstrip a.proxySecretPath ∧
      envAt (readEnv env) "MTPROTO_PROXY_MULTI_CONF_PATH".toList = rstrip a.proxyMultiConfPath ∧
      envAt (readEnv env) "MTPROTO_MANAGED_SECRETS_PATH".toList = rstrip a.managedSecretsPath ∧
      envAt (readEnv env) "MTPROTO_PORT".toList = intText a.port ∧
      envAt (readEnv env) "MTPROTO_INTERNAL_STATS_PORT".toList = intText a.statsPort ∧
      envAt (readEnv env) "MTPROTO_WORKERS".toList = intText a.workers := by
  simp only [envAt, get?_readEnv h]
  refine ⟨rfl, rfl, rfl, rfl, rfl, ?_, ?_, ?_⟩
  · exact rstrip_intText a.port
  · exact rstrip_intText a.statsPort
  · exact rstrip_intText a.workers

theorem no_missing (h : a.envContent = .ok env) :
    requiredKeys.filter (fun key => !(readEnv env).contains key) = [] := by
  rw [List.filter_eq_nil_iff]
  intro key hkey
  have hfound : (a.envValues.find? fun record => record.1 = key).isSome = true := by
    have hall : requiredKeys.all (fun key => decide (key ∈ allowedEnvKeys)) = true := by decide
    have hmem := of_decide_eq_true (List.all_eq_true.1 hall key hkey)
    have hkeys : a.envValues.map Prod.fst = allowedEnvKeys := rfl
    rw [← hkeys] at hmem
    obtain ⟨record, hrecord, rfl⟩ := List.mem_map.1 hmem
    exact List.find?_isSome.2 ⟨record, hrecord, by simp⟩
  rw [Dict.contains, get?_readEnv h, Option.isSome_map, Option.isSome_map, hfound]
  exact Bool.false_ne_true

theorem envLaunches_readEnv (h : a.envContent = .ok env) : EnvLaunches (readEnv env) ↔ a.Launches := by
  obtain ⟨hbinary, -, -, -, -, hport, hstats, hworkers⟩ := envAt_readEnv h
  constructor
  · rintro ⟨-, hallowed, hport', hstats', hworkers'⟩
    rw [hbinary] at hallowed
    rw [hworkers, isDigitText_intText] at hworkers'
    exact ⟨hallowed, (requirePort_intText hport).1 hport', (requirePort_intText hstats).1 hstats', hworkers'⟩
  · rintro ⟨hallowed, hport', hstats', hworkers'⟩
    refine ⟨no_missing h, ?_, (requirePort_intText hport).2 hport', (requirePort_intText hstats).2 hstats', ?_⟩
    · rwa [hbinary]
    · rwa [hworkers, isDigitText_intText]

theorem launch_of_stored_iff {files : Text → Option Text} {argv : List Text}
    (h : Stored p normalized generation runtime) (henv : a.envContent = .ok env)
    (hfile : files (rstrip a.managedSecretsPath) =
      some (jsonDump (documentOf generation (normalized.map secretDict) runtime))) :
    launch p (some env) files = .ok argv ↔
      a.Launches ∧ argv = a.arguments (launchedSecrets p normalized runtime) := by
  obtain ⟨hbinary, huser, hsecret, hmulti, hmanaged, hport, hstats, hworkers⟩ := envAt_readEnv henv
  have hload : loadDocument p (files (envAt (readEnv env) "MTPROTO_MANAGED_SECRETS_PATH".toList)) =
      .ok (documentOf generation (normalized.map secretDict) runtime).sorted := by
    rw [hmanaged, hfile, loadDocument, read_jsonDump h.read]
  have harguments : MtProxy.arguments (readEnv env) (launchedSecrets p normalized runtime) =
      a.arguments (launchedSecrets p normalized runtime) := by
    rw [MtProxy.arguments, hbinary, huser, hsecret, hmulti, hport, hstats, hworkers]
    rfl
  show launchWith p (readEnv env) files = _ ↔ _
  rw [launchWith_eq_ok_iff hload h.runtimeItems h.launchedSecrets, envLaunches_readEnv henv, harguments]

variable {secrets : List ManagedSecret} {current document : Json}

/-- **The proxy runs with the secrets of the users**, in order and one for each fingerprint, after any document that
the adapter has written: exactly when the values are the ones that the wrapper allows, and with no other arguments.
Where no user has a secret it gets the one of the placeholder. -/
theorem launch_storeDocument_iff {token : Text} {g : Option ℤ} {file : Option Text} {files : Text → Option Text}
    (hcurrent : readStoreDocument p file = .ok current) (hg : ∀ n ∈ g, Short n) (htoken : token ≠ [])
    (hwritable : Writable secrets) (hdocument : storeDocument p token secrets current g = .ok document)
    (henv : a.envContent = .ok env) (hfile : files (rstrip a.managedSecretsPath) = some (jsonDump document)) :
    ∃ normalized launched, normalizeSecrets secrets = .ok normalized ∧
      (normalized ≠ [] → launched = normalized.map ManagedSecret.secret) ∧
      (normalized = [] → ∃ placeholder, keepsPlaceholder placeholder = true ∧
        launched = [p.strOr (placeholder.field "secret".toList)]) ∧
      ∀ argv, launch p (some env) files = .ok argv ↔ a.Launches ∧ argv = a.arguments launched := by
  obtain ⟨normalized, generation, runtime, hnormalized, -, rfl, h⟩ :=
    stored_of_storeDocument (read_of_readStoreDocument hcurrent).1 hg htoken hwritable hdocument
  obtain ⟨husers, hplaceholder⟩ := h.launched
  exact ⟨normalized, launchedSecrets p normalized runtime, hnormalized, husers, hplaceholder,
    fun argv => launch_of_stored_iff h henv hfile⟩

/-- A service with the usual values. -/
def usual : Adapter where
  binaryPath := "/usr/local/bin/mtproto-proxy".toList
  runUser := "mtproxy".toList
  runGroup := "mtproxy".toList
  proxySecretPath := "/etc/mtproxy/proxy-secret".toList
  proxyMultiConfPath := "/etc/mtproxy/proxy-multi.conf".toList
  managedSecretsPath := "/etc/mtproxy/vpn-bot/managed-secrets.json".toList
  port := 8443
  internalStatsPort := none
  workers := 1

/-- The launch after the first secret. -/
theorem launch_storeDocument_iff_seven : ∃ normalized launched, normalizeSecrets [secretOfSeven] = .ok normalized ∧
    (normalized ≠ [] → launched = normalized.map ManagedSecret.secret) ∧
    (normalized = [] → ∃ placeholder, keepsPlaceholder placeholder = true ∧
      launched = [plain.strOr (placeholder.field "secret".toList)]) ∧
    ∀ argv, launch plain (some (usual.envValues.flatMap fun record => envLine record ++ ['\n']))
        (fun _ => some (jsonDump (documentOf 1 [secretDict secretOfSeven] [secretDict secretOfSeven]))) = .ok argv ↔
      usual.Launches ∧ argv = usual.arguments launched := by
  exact @launch_storeDocument_iff usual _ plain [secretOfSeven] noDocument _ ['b'] (some 1) none _ rfl short_one
    (List.cons_ne_nil _ _) writable_secretOfSeven rfl rfl rfl

end VpnBot.MtProxy
