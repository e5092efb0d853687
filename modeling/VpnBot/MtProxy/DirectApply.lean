import VpnBot.MtProxy.Helper

/-!
# The direct apply

`apply_managed_secrets` of `src/adapters/mtproxy.py` without a privileged helper: the two files are replaced one
after the other, the service is restarted and checked, and after an exception the backup is copied back.  `Answers`
says of every call whether it raises, so that a statement for all answers is one for every pattern of failures.

After any applies, whichever of them fail and wherever, as long as each failed one has gone back, the files hold the
secrets of the last apply that has returned, and the proxy is launched with these secrets (`launch_of_applies`).

The two files are there or not; their modes and owners, the other backups and the texts of the exceptions are left
out.
-/

namespace VpnBot.MtProxy

open Py Json Sys Program

/-- `str` refuses the integer. -/
def isTooLong (n : ℤ) : Bool := maxStrDigits < (natText n.natAbs).length

theorem isTooLong_eq_false_iff {n : ℤ} : isTooLong n = false ↔ Short n := by
  rw [isTooLong, decide_eq_false_iff_not, not_lt, length_natText_le_iff (by decide)]
  exact Iff.rfl

/-! ### The files -/

/-- How a copy fails: `copy2` writes into the file itself and may break off. -/
inductive CopyFault
  | before
  | torn (written : ℕ)
  | after

/-- What the calls answer: whether the runtime is ready, the texts that are drawn, whether the backup and the two
replacements fail, whether the service has come up, and the same for the way back. -/
structure Answers where
  ready : Bool
  token : Text
  token' : Text
  backupFails : Bool
  writeSecrets : Option CallFault
  writeEnv : Option CallFault
  verified : Bool
  manifest : Bool
  restoreSecrets : Option CopyFault
  restoreEnv : Option CopyFault
  verifiedAgain : Bool

/-- How an apply fails: before a file is touched, without a way back, with the files as they were, or with a way back
that has failed too. -/
inductive ApplyError
  | early
  | failed
  | restored
  | rollbackFailed
  deriving DecidableEq

/-- A computation that raises before a file is touched. -/
def early {α : Type} (x : Except Text α) : Program Files ApplyError α := ofExcept fun _ => x.mapError fun _ => .early

/-- `shutil.copy2` of a backup. -/
def copyBack (fault : Option CopyFault) (backup : Text) (set : Text → Files → Files) : Program Files ApplyError Unit :=
  match fault with
  | none => modify (set backup)
  | some .before => throw .rollbackFailed
  | some (.torn written) => do
    modify (set (backup.take written))
    throw .rollbackFailed
  | some .after => do
    modify (set backup)
    throw .rollbackFailed

/-- `_runtime_files_current`. -/
def runtimeFilesCurrent (a : Adapter) (document : Json) (secrets env : Text) : Except Text Bool :=
  if Warp.universalNewlines secrets ≠ jsonDump document then .ok false
  else do
    let content ← a.envContent
    return Warp.universalNewlines env = content

/-- `_write_runtime_files`, and the restart with its checks; a generation with too many digits is not written. -/
def replaceFiles (a : Adapter) (answers : Answers) (generation : ℤ) (document : Json) :
    Program Files ApplyError Unit := do
  if isTooLong generation then throw .failed
  Program.call answers.writeSecrets .failed fun s => { s with secrets := some (jsonDump document) }
  let content ← ofExcept fun _ => a.envContent.mapError fun _ => ApplyError.failed
  Program.call answers.writeEnv .failed fun s => { s with env := some content }
  if answers.verified then pure () else throw .failed

/-- `restore_backup`, and the restart with its check. -/
def restoreFiles (answers : Answers) (secrets env : Text) : Program Files ApplyError Unit := do
  if !answers.manifest then throw .rollbackFailed
  copyBack answers.restoreSecrets secrets fun text s => { s with secrets := some text }
  copyBack answers.restoreEnv env fun text s => { s with env := some text }
  if answers.verifiedAgain then pure () else throw .rollbackFailed

/-- The replacement with its way back. -/
def replaceOrRestore (a : Adapter) (rollback : Bool) (answers : Answers) (generation : ℤ) (document : Json)
    (secrets env : Text) : Program Files ApplyError Unit :=
  tryCatch (replaceFiles a answers generation document) fun error =>
    if rollback then do
      restoreFiles answers secrets env
      throw .restored
    else throw error

/-- `apply_managed_secrets`: whether there was something to change, and the generation. -/
def applyManagedSecrets (p : Interpreter) (a : Adapter) (rollback : Bool) (answers : Answers)
    (secrets : List ManagedSecret) : Program Files ApplyError (Bool × ℤ) := do
  match (← get) with
  | ⟨some text, some env⟩ =>
    if !answers.ready then throw .early
    let current ← early (readStoreDocument p (some text))
    let desired ← early (normalizeSecrets secrets)
    let stored ← early (documentUserSecrets p current)
    let generation ← early (generationOf p current)
    let runtime ← early (storeDocument p answers.token stored current (some generation))
    let unchanged ← early (if sameSecretSet stored desired then runtimeFilesCurrent a runtime text env else .ok false)
    if unchanged then return (false, generation)
    let document ← early (storeDocument p answers.token' desired current (some (generation + 1)))
    if answers.backupFails then throw .early
    replaceOrRestore a rollback answers (generation + 1) document text env
    return (true, generation + 1)
  | _ => throw .early

/-- `init_managed_runtime_baseline`, which writes a document without secrets. -/
def initManagedRuntimeBaseline (p : Interpreter) (a : Adapter) (answers : Answers) : Program Files ApplyError ℤ := do
  if !answers.ready then throw .early
  let s ← get
  let current ← early (readStoreDocument p s.secrets)
  let generation ← early (generationOf p current)
  let document ← early (storeDocument p answers.token [] current (some generation))
  replaceFiles a answers generation document
  return generation

/-! ### The steps -/

variable {p : Interpreter} {a : Adapter} {rollback : Bool} {answers : Answers} {generation : ℤ} {document : Json}
  {secrets env : Text} {s : Files}

/-- What may be left of the files: each holds the new text or the old one, or the part of the old one that a copy has
written before it has broken off. -/
structure Left (a : Adapter) (answers : Answers) (generation : ℤ) (document : Json) (secrets env : Text) (s : Files) :
    Prop where
  secrets : (Short generation ∧ s.secrets = some (jsonDump document)) ∨ s.secrets = some secrets ∨
    ∃ n, answers.restoreSecrets = some (.torn n) ∧ s.secrets = some (secrets.take n)
  env : (∃ content, a.envContent = .ok content ∧ s.env = some content) ∨ s.env = some env ∨
    ∃ n, answers.restoreEnv = some (.torn n) ∧ s.env = some (env.take n)

theorem left_refl : Left a answers generation document secrets env ⟨some secrets, some env⟩ where
  secrets := .inr (.inl rfl)
  env := .inr (.inl rfl)

theorem ends_copyBack {fault : Option CopyFault} {backup : Text} {set : Text → Files → Files}
    {P : Unit → Files → Prop} {Q : ApplyError → Files → Prop} (hnone : P () (set backup s))
    (hbefore : Q .rollbackFailed s) (htorn : ∀ n, fault = some (.torn n) → Q .rollbackFailed (set (backup.take n) s))
    (hafter : Q .rollbackFailed (set backup s)) : Ends (copyBack fault backup set) P Q s := by
  unfold copyBack
  cases fault with
  | none => exact hnone
  | some fault =>
    cases fault with
    | before => exact hbefore
    | torn written => exact htorn written rfl
    | after => exact hafter

/-- What the replacement leaves: the two new files, or the new document in front of the old environment. -/
theorem ends_replaceFiles : Ends (replaceFiles a answers generation document)
    (fun _ s' => Short generation ∧ ∃ content, a.envContent = .ok content ∧
      s' = ⟨some (jsonDump document), some content⟩)
    (fun e s' => e = .failed ∧ (s' = s ∨ Short generation ∧ s'.secrets = some (jsonDump document) ∧
      (s'.env = s.env ∨ ∃ content, a.envContent = .ok content ∧ s'.env = some content))) s := by
  unfold replaceFiles
  cases hlong : isTooLong generation with
  | true => exact ⟨rfl, .inl rfl⟩
  | false =>
    have hshort := isTooLong_eq_false_iff.1 hlong
    rw [if_neg Bool.false_ne_true, ends_bind]
    refine ends_call_of (fun _ => ?_) (fun _ => ⟨rfl, .inl rfl⟩) fun _ => ⟨rfl, .inr ⟨hshort, rfl, .inl rfl⟩⟩
    cases hcontent : a.envContent with
    | error e => exact ⟨rfl, .inr ⟨hshort, rfl, .inl rfl⟩⟩
    | ok content =>
      rw [ends_bind]
      refine (ends_ofExcept _).2 ⟨fun taken htaken => ?_, fun e h => by cases h⟩
      obtain rfl := Except.ok.inj htaken
      rw [ends_bind]
      refine ends_call_of (fun _ => ?_) (fun _ => ⟨rfl, .inr ⟨hshort, rfl, .inl rfl⟩⟩)
        fun _ => ⟨rfl, .inr ⟨hshort, rfl, .inr ⟨content, rfl, rfl⟩⟩⟩
      cases answers.verified with
      | true => exact ⟨hshort, content, rfl, rfl⟩
      | false => exact ⟨rfl, .inr ⟨hshort, rfl, .inr ⟨content, rfl, rfl⟩⟩⟩

/-- The way back gives the old files, or what is left may be in parts. -/
theorem ends_restoreFiles (h : Left a answers generation document secrets env s) :
    Ends (restoreFiles answers secrets env) (fun _ s' => s' = ⟨some secrets, some env⟩)
      (fun e s' => e = .rollbackFailed ∧ Left a answers generation document secrets env s') s := by
  unfold restoreFiles
  cases answers.manifest with
  | false => exact ⟨rfl, h⟩
  | true =>
    show Ends (do
      copyBack answers.restoreSecrets secrets fun text s => { s with secrets := some text }
      copyBack answers.restoreEnv env fun text s => { s with env := some text }
      if answers.verifiedAgain then pure () else throw .rollbackFailed) _ _ s
    rw [ends_bind]
    have hback : Left a answers generation document secrets env { s with secrets := some secrets } :=
      ⟨.inr (.inl rfl), h.env⟩
    refine ends_copyBack ?_ ⟨rfl, h⟩ (fun n hn => ⟨rfl, .inr (.inr ⟨n, hn, rfl⟩), h.env⟩) ⟨rfl, hback⟩
    rw [ends_bind]
    refine ends_copyBack ?_ ⟨rfl, hback⟩ (fun n hn => ⟨rfl, .inr (.inl rfl), .inr (.inr ⟨n, hn, rfl⟩)⟩) ⟨rfl, left_refl⟩
    cases answers.verifiedAgain with
    | true => rfl
    | false => exact ⟨rfl, left_refl⟩

theorem ends_replaceOrRestore : Ends (replaceOrRestore a rollback answers generation document secrets env)
    (fun _ s' => Short generation ∧ ∃ content, a.envContent = .ok content ∧
      s' = ⟨some (jsonDump document), some content⟩)
    (fun e s' => e ≠ .early ∧ (e = .restored → s' = ⟨some secrets, some env⟩) ∧
      Left a answers generation document secrets env s') ⟨some secrets, some env⟩ := by
  unfold replaceOrRestore
  rw [ends_tryCatch]
  refine ends_replaceFiles.mono (fun _ _ h => h) ?_
  rintro e s' ⟨rfl, hcases⟩
  have hleft : Left a answers generation document secrets env s' := by
    rcases hcases with rfl | ⟨hshort, hsecrets, henv | hcontent⟩
    · exact left_refl
    · exact ⟨.inl ⟨hshort, hsecrets⟩, .inr (.inl henv)⟩
    · exact ⟨.inl ⟨hshort, hsecrets⟩, .inl hcontent⟩
  cases rollback with
  | false => exact ⟨by simp, by simp, hleft⟩
  | true =>
    show Ends (do
      restoreFiles answers secrets env
      throw .restored) _ _ s'
    rw [ends_bind]
    refine (ends_restoreFiles hleft).mono ?_ ?_
    · rintro _ s'' rfl
      exact ⟨by simp, fun _ => rfl, left_refl⟩
    · rintro e s'' ⟨rfl, hleft'⟩
      exact ⟨by simp, by simp, hleft'⟩

@[simp] theorem ends_early {α : Type} {x : Except Text α} {P : α → Files → Prop} {Q : ApplyError → Files → Prop} :
    Ends (early x) P Q s ↔ (∀ v, x = .ok v → P v s) ∧ ((∃ e, x = .error e) → Q .early s) := by
  unfold early
  rw [ends_ofExcept]
  cases x with
  | ok v => simp [Except.mapError]
  | error e => simp [Except.mapError]

/-! ### What an apply leaves -/

variable {managed normalized stored : List ManagedSecret} {current : Json}

theorem eq_of_sameSecretSet (h : Normalized stored) (h' : Normalized normalized)
    (hsame : sameSecretSet stored normalized = true) : stored = normalized := by
  rw [sameSecretSet, Bool.and_eq_true, List.all_eq_true, List.all_eq_true] at hsame
  have hmem : ∀ item, item ∈ stored ↔ item ∈ normalized := fun item =>
    ⟨fun hitem => of_decide_eq_true (hsame.1 item hitem), fun hitem => of_decide_eq_true (hsame.2 item hitem)⟩
  have hperm : stored.Perm normalized :=
    (List.perm_ext_iff_of_nodup (List.Nodup.of_map _ h.nodup) (List.Nodup.of_map _ h'.nodup)).2 hmem
  refine hperm.eq_of_pairwise (fun x y hx hy hxy hyx => ?_) h.ordered h'.ordered
  have hkey : x.key = y.key := le_antisymm hxy hyx
  have hfingerprint : x.fingerprint = y.fingerprint :=
    congrArg (fun k : Lex (Text × Text) => (ofLex k).1) hkey
  exact List.inj_on_of_nodup_map h.nodup hx ((hmem y).2 hy) hfingerprint

theorem universalNewlines_universalNewlines (t : Text) :
    Warp.universalNewlines (Warp.universalNewlines t) = Warp.universalNewlines t :=
  Warp.universalNewlines_eq_self (Warp.not_mem_universalNewlines t)

theorem readStoreDocument_universalNewlines (p : Interpreter) (text : Text) :
    readStoreDocument p (some (Warp.universalNewlines text)) = readStoreDocument p (some text) := by
  rw [readStoreDocument, readStoreDocument, universalNewlines_universalNewlines]

theorem normalized_nil : Normalized [] where
  valid := fun _ h => by cases h
  nodup := List.nodup_nil
  ordered := List.Pairwise.nil

theorem normalized_of_documentUserSecrets (h : documentUserSecrets p document = .ok stored) : Normalized stored := by
  unfold documentUserSecrets at h
  split at h
  · obtain ⟨found, -, hnormalized⟩ := bind_eq_ok.1 h
    exact (normalized_of_normalizeSecrets hnormalized).1
  · obtain rfl := Except.ok.inj h
    exact normalized_nil

theorem writable_of_normalizeSecrets (hwritable : Writable managed) (h : normalizeSecrets managed = .ok normalized) :
    Writable normalized :=
  fun item hitem => hwritable item ((normalized_of_normalizeSecrets h).2 item hitem)

theorem runtimeFilesCurrent_eq_true {text envText : Text} (h : runtimeFilesCurrent a document text envText = .ok true) :
    Warp.universalNewlines text = jsonDump document ∧ a.envContent = .ok (Warp.universalNewlines envText) := by
  unfold runtimeFilesCurrent at h
  split_ifs at h with hsecrets
  · cases h
  rw [ne_eq, not_not] at hsecrets
  obtain ⟨content, hcontent, h⟩ := bind_eq_ok.1 h
  have henv : Warp.universalNewlines envText = content := of_decide_eq_true (Except.ok.inj h)
  exact ⟨hsecrets, henv ▸ hcontent⟩

/-- The text is the document of the secrets in order. -/
def Renders (p : Interpreter) (normalized : List ManagedSecret) (generation : ℤ) (text : Text) : Prop :=
  ∃ runtime, Stored p normalized generation runtime ∧
    Warp.universalNewlines text = jsonDump (documentOf generation (normalized.map secretDict) runtime)

/-- What the files hold after an apply of the secrets. -/
structure Holds (p : Interpreter) (a : Adapter) (managed : List ManagedSecret) (generation : ℤ) (s : Files) : Prop where
  secrets : ∃ text normalized, s.secrets = some text ∧ normalizeSecrets managed = .ok normalized ∧
    Renders p normalized generation text
  env : ∃ text, s.env = some text ∧ a.envContent = .ok (Warp.universalNewlines text)

theorem Renders.readsBack {text : Text} (h : Renders p normalized generation text) :
    ReadsBack p text normalized generation := by
  obtain ⟨runtime, hstored, htext⟩ := h
  obtain ⟨hcanonical, hcurrent, hruntime, hgeneration⟩ := readsBack_of_stored hstored
  rw [← htext] at hcurrent hruntime hgeneration
  unfold readCurrentManagedSecrets at hcurrent
  unfold readRuntimeManagedSecrets at hruntime
  rw [readStoreDocument_universalNewlines] at hcurrent hruntime hgeneration
  exact ⟨hcanonical, hcurrent, hruntime, hgeneration⟩

theorem universalNewlines_jsonDump {runtime : List Json} (h : Stored p normalized generation runtime) :
    Warp.universalNewlines (jsonDump (documentOf generation (normalized.map secretDict) runtime)) =
      jsonDump (documentOf generation (normalized.map secretDict) runtime) :=
  Warp.universalNewlines_eq_self (not_mem_jsonDump h.read)

theorem renders_of_storeDocument {token : Text} {g : ℤ} (hcurrent : Read p.limit p.float current) (hg : Short g)
    (htoken : token ≠ []) (hwritable : Writable normalized) (hcanonical : Normalized normalized)
    (h : storeDocument p token normalized current (some g) = .ok document) :
    Renders p normalized g (jsonDump document) ∧ Warp.universalNewlines (jsonDump document) = jsonDump document := by
  obtain ⟨again, n, runtime, hagain, hn, rfl, hstored⟩ :=
    stored_of_storeDocument hcurrent (fun n hn => by rwa [← Option.some.inj hn]) htoken hwritable h
  obtain rfl := Except.ok.inj hn
  rw [hcanonical.normalize] at hagain
  obtain rfl := Except.ok.inj hagain
  exact ⟨⟨runtime, hstored, universalNewlines_jsonDump hstored⟩, universalNewlines_jsonDump hstored⟩

/-- What an apply that has raised may leave. -/
def LeftBy (p : Interpreter) (a : Adapter) (answers : Answers) (managed : List ManagedSecret) (text envText : Text)
    (s : Files) : Prop :=
  ∃ normalized generation document, normalizeSecrets managed = .ok normalized ∧
    (Short generation → Renders p normalized generation (jsonDump document)) ∧
    Left a answers generation document text envText s

/-- **One apply.**  When it returns the files hold the secrets, and the generation counts the change; when it raises
before the replacement or has gone back the files are as they were, and otherwise each of them is new or old, or a part
of the old one. -/
theorem ends_applyManagedSecrets {text envText : Text} (hwritable : Writable managed) (htoken : answers.token ≠ [])
    (htoken' : answers.token' ≠ []) : Ends (applyManagedSecrets p a rollback answers managed)
      (fun r s' => Holds p a managed r.2 s' ∧
        ∃ generation, (readStoreDocument p (some text) >>= generationOf p) = .ok generation ∧
          ((r = (false, generation) ∧ s' = ⟨some text, some envText⟩) ∨ r = (true, generation + 1)))
      (fun e s' => (e = .early ∨ e = .restored → s' = ⟨some text, some envText⟩) ∧
        (s' = ⟨some text, some envText⟩ ∨ LeftBy p a answers managed text envText s')) ⟨some text, some envText⟩ := by
  have hearly : ∀ {s' : Files}, s' = ⟨some text, some envText⟩ →
      (ApplyError.early = .early ∨ ApplyError.early = .restored → s' = ⟨some text, some envText⟩) ∧
        (s' = ⟨some text, some envText⟩ ∨ LeftBy p a answers managed text envText s') :=
    fun h => ⟨fun _ => h, .inl h⟩
  unfold applyManagedSecrets
  rw [ends_bind, ends_get]
  dsimp only
  cases answers.ready with
  | false => exact hearly rfl
  | true =>
    rw [if_neg (by simp), ends_bind, ends_early]
    refine ⟨fun current hcurrent => ?_, fun _ => hearly rfl⟩
    rw [ends_bind, ends_early]
    refine ⟨fun normalized hnormalized => ?_, fun _ => hearly rfl⟩
    rw [ends_bind, ends_early]
    refine ⟨fun stored hstored => ?_, fun _ => hearly rfl⟩
    rw [ends_bind, ends_early]
    refine ⟨fun generation hgeneration => ?_, fun _ => hearly rfl⟩
    rw [ends_bind, ends_early]
    refine ⟨fun runtime hruntime => ?_, fun _ => hearly rfl⟩
    rw [ends_bind, ends_early]
    refine ⟨fun unchanged hunchanged => ?_, fun _ => hearly rfl⟩
    have hgen : (readStoreDocument p (some text) >>= generationOf p) = .ok generation :=
      bind_eq_ok.2 ⟨current, hcurrent, hgeneration⟩
    have hread := (read_of_readStoreDocument hcurrent).1
    have hcanonical := (normalized_of_normalizeSecrets hnormalized).1
    have hwritable' := writable_of_normalizeSecrets hwritable hnormalized
    cases unchanged with
    | true =>
      -- the same secrets, and the files are the ones that would be written
      have hsame : sameSecretSet stored normalized = true := by
        by_contra hdiffer
        rw [if_neg hdiffer] at hunchanged
        cases hunchanged
      rw [if_pos hsame] at hunchanged
      have hequal := eq_of_sameSecretSet (normalized_of_documentUserSecrets hstored) hcanonical hsame
      obtain ⟨hsecrets, henv⟩ := runtimeFilesCurrent_eq_true hunchanged
      rw [hequal] at hruntime
      obtain ⟨⟨items, hstored', hdump⟩, hlines⟩ :=
        renders_of_storeDocument hread (short_generationOf hgeneration) htoken hwritable' hcanonical hruntime
      have hrenders : Renders p normalized generation text := ⟨items, hstored', by rw [hsecrets, ← hdump, hlines]⟩
      exact ⟨⟨⟨text, normalized, rfl, hnormalized, hrenders⟩, ⟨envText, rfl, henv⟩⟩, generation, hgen, .inl ⟨rfl, rfl⟩⟩
    | false =>
      rw [if_neg Bool.false_ne_true, ends_bind, ends_early]
      refine ⟨fun document hdocument => ?_, fun _ => hearly rfl⟩
      cases answers.backupFails with
      | true => exact hearly rfl
      | false =>
        have hwritten : Short (generation + 1) → Renders p normalized (generation + 1) (jsonDump document) :=
          fun hshort => (renders_of_storeDocument hread hshort htoken' hwritable' hcanonical hdocument).1
        show Ends (do
          replaceOrRestore a rollback answers (generation + 1) document text envText
          return (true, generation + 1)) _ _ _
        rw [ends_bind]
        refine ends_replaceOrRestore.mono ?_ ?_
        · rintro _ s' ⟨hshort, content, hcontent, rfl⟩
          refine ⟨⟨⟨_, normalized, rfl, hnormalized, hwritten hshort⟩, ⟨content, rfl, ?_⟩⟩, generation, hgen, .inr rfl⟩
          rw [universalNewlines_envContent hcontent, hcontent]
        · rintro e s' ⟨hne, hrestored, hleft⟩
          exact ⟨fun h => hrestored (h.resolve_left hne),
            .inr ⟨normalized, generation + 1, document, hnormalized, hwritten, hleft⟩⟩

theorem ends_initManagedRuntimeBaseline (htoken : answers.token ≠ []) :
    Ends (initManagedRuntimeBaseline p a answers) (fun g s' => Holds p a [] g s') (fun _ _ => True) s := by
  unfold initManagedRuntimeBaseline
  cases answers.ready with
  | false => trivial
  | true =>
    rw [if_neg (by simp), ends_bind, ends_get, ends_bind, ends_early]
    refine ⟨fun current hcurrent => ?_, fun _ => trivial⟩
    rw [ends_bind, ends_early]
    refine ⟨fun generation hgeneration => ?_, fun _ => trivial⟩
    rw [ends_bind, ends_early]
    refine ⟨fun document hdocument => ?_, fun _ => trivial⟩
    have hrenders := (renders_of_storeDocument (read_of_readStoreDocument hcurrent).1 (short_generationOf hgeneration)
      htoken (fun _ h => by cases h) normalized_nil hdocument).1
    rw [ends_bind]
    refine ends_replaceFiles.mono ?_ fun _ _ _ => trivial
    rintro _ s' ⟨-, content, hcontent, rfl⟩
    refine ⟨⟨_, [], rfl, rfl, hrenders⟩, content, rfl, ?_⟩
    rw [universalNewlines_envContent hcontent, hcontent]

/-- The drawn texts are not empty, and no copy of a backup breaks off in the middle. -/
structure Answers.Whole (answers : Answers) : Prop where
  token : answers.token ≠ []
  token' : answers.token' ≠ []
  restoreSecrets : ∀ n, answers.restoreSecrets ≠ some (.torn n)
  restoreEnv : ∀ n, answers.restoreEnv ≠ some (.torn n)

/-- **An apply that raises leaves the old secrets or the new ones**, unless a copy has broken off. -/
theorem ends_applyManagedSecrets_of_holds {old : List ManagedSecret} (h : Holds p a old generation s)
    (hwritable : Writable managed) (hwhole : answers.Whole) : Ends (applyManagedSecrets p a rollback answers managed)
      (fun r s' => Holds p a managed r.2 s')
      (fun _ s' => Holds p a old generation s' ∨ ∃ g, Holds p a managed g s') s := by
  obtain ⟨⟨text, normalized, hsecrets, hnormalized, hrenders⟩, envText, henv, hcontent⟩ := id h
  obtain rfl : s = ⟨some text, some envText⟩ := by
    cases s
    exact congrArg₂ Files.mk hsecrets henv
  refine (ends_applyManagedSecrets hwritable hwhole.token hwhole.token').mono (fun r s' hr => hr.1) ?_
  rintro e s' ⟨-, rfl | ⟨normalized', n, document, hnormalized', hwritten, hleft⟩⟩
  · exact .inl h
  have henv' : ∃ envText', s'.env = some envText' ∧ a.envContent = .ok (Warp.universalNewlines envText') := by
    rcases hleft.env with ⟨content, hcontent', hs'⟩ | hs' | ⟨n, htorn, -⟩
    · exact ⟨content, hs', by rw [universalNewlines_envContent hcontent', hcontent']⟩
    · exact ⟨envText, hs', hcontent⟩
    · exact absurd htorn (hwhole.restoreEnv n)
  rcases hleft.secrets with ⟨hshort, hs'⟩ | hs' | ⟨n, htorn, -⟩
  · exact .inr ⟨n, ⟨_, normalized', hs', hnormalized', hwritten hshort⟩, henv'⟩
  · exact .inl ⟨⟨text, normalized, hs', hnormalized, hrenders⟩, henv'⟩
  · exact absurd htorn (hwhole.restoreSecrets n)

/-- **An apply of the secrets that the files hold changes nothing**, whatever the calls would answer. -/
theorem ends_applyManagedSecrets_again (h : Holds p a managed generation s) (hready : answers.ready = true) :
    Ends (applyManagedSecrets p a rollback answers managed) (fun r s' => r = (false, generation) ∧ s' = s)
      (fun _ _ => False) s := by
  obtain ⟨⟨text, normalized, hsecrets, hnormalized, runtime, hstored, htext⟩, envText, henv, hcontent⟩ := h
  obtain rfl : s = ⟨some text, some envText⟩ := by
    cases s
    exact congrArg₂ Files.mk hsecrets henv
  have hread : readStoreDocument p (some text) =
      .ok (documentOf generation (normalized.map secretDict) runtime).sorted := by
    rw [← readStoreDocument_universalNewlines, htext, readStoreDocument_of_stored hstored]
  obtain ⟨again, hagain, hdump⟩ := hstored.again answers.token (g := some generation)
    fun n hn => (Option.some.inj hn).symm
  have hsame : sameSecretSet normalized normalized = true := by
    rw [sameSecretSet, Bool.and_self, List.all_eq_true]
    exact fun item hitem => decide_eq_true hitem
  have hcurrent : runtimeFilesCurrent a again text envText = .ok true := by
    rw [runtimeFilesCurrent, if_neg (by rw [htext, hdump]; simp), hcontent]
    exact congrArg Except.ok (decide_eq_true rfl)
  unfold applyManagedSecrets
  rw [ends_bind, ends_get]
  dsimp only
  rw [hready, if_neg (by simp)]
  simp only [ends_bind, ends_early, hread, hnormalized, hstored.documentUserSecrets, hstored.generationOf, hagain,
    hsame, if_true, hcurrent, Except.ok.injEq, forall_eq', reduceCtorEq, exists_false, false_imp_iff, and_true]
  exact ⟨rfl, rfl⟩

/-! ### Runs -/

/-- A call of `apply_managed_secrets`. -/
structure ApplyCall where
  managed : List ManagedSecret
  rollback : Bool
  answers : Answers

/-- What a call returns or raises. -/
abbrev ApplyResult : Type := Except ApplyError (Bool × ℤ)

/-- A call, and the files that it leaves. -/
def ApplyCall.run (p : Interpreter) (a : Adapter) (call : ApplyCall) (s : Files) : ApplyResult × Files :=
  match applyManagedSecrets p a call.rollback call.answers call.managed s with
  | .ok r s' => (.ok r, s')
  | .error e s' => (.error e, s')

/-- The call has left the files as they were. -/
def ApplyError.harmless : ApplyError → Prop
  | .failed => False
  | .rollbackFailed => False
  | _ => True

/-- The generations that a call adds. -/
def ApplyCall.gain (r : Bool × ℤ) : ℤ := if r.1 then 1 else 0

/-- The secrets can be written, and the drawn texts are not empty. -/
structure ApplyCall.Fits (call : ApplyCall) : Prop where
  writable : Writable call.managed
  token : call.answers.token ≠ []
  token' : call.answers.token' ≠ []

/-! ### The files along a run -/

variable {g : ℤ} {call : ApplyCall} {calls : List ApplyCall}

/-- Both files are there, and the generation can be read. -/
def Reads (p : Interpreter) (g : ℤ) (s : Files) : Prop :=
  ∃ text envText, s = ⟨some text, some envText⟩ ∧ (readStoreDocument p (some text) >>= generationOf p) = .ok g

theorem Holds.reads (h : Holds p a managed g s) : Reads p g s := by
  obtain ⟨⟨text, normalized, hsecrets, -, hrenders⟩, envText, henv, -⟩ := h
  refine ⟨text, envText, ?_, hrenders.readsBack.generation⟩
  cases s
  exact congrArg₂ Files.mk hsecrets henv

theorem holds_of_run {r : Bool × ℤ} (hfits : call.Fits) (hreads : Reads p g s) (hr : (call.run p a s).1 = .ok r) :
    Holds p a call.managed (g + ApplyCall.gain r) (call.run p a s).2 := by
  obtain ⟨text, envText, rfl, hg⟩ := hreads
  have hends := @ends_applyManagedSecrets p a call.rollback call.answers call.managed text envText hfits.writable
    hfits.token hfits.token'
  unfold ApplyCall.run at hr ⊢
  unfold Ends at hends
  cases happly : applyManagedSecrets p a call.rollback call.answers call.managed ⟨some text, some envText⟩ with
  | ok r' s' =>
    rw [happly] at hends hr
    obtain rfl := Except.ok.inj hr
    obtain ⟨hholds, n, hn, hcases⟩ := hends
    obtain rfl := Except.ok.inj (hg.symm.trans hn)
    rcases hcases with ⟨rfl, -⟩ | rfl
    · rw [ApplyCall.gain, if_neg Bool.false_ne_true, add_zero]
      exact hholds
    · exact hholds
  | error e s' =>
    rw [happly] at hr
    cases hr

theorem run_of_error {e : ApplyError} (hfits : call.Fits) (hreads : Reads p g s) (he : e.harmless)
    (hr : (call.run p a s).1 = .error e) : (call.run p a s).2 = s := by
  obtain ⟨text, envText, rfl, -⟩ := hreads
  have hends := @ends_applyManagedSecrets p a call.rollback call.answers call.managed text envText hfits.writable
    hfits.token hfits.token'
  unfold ApplyCall.run at hr ⊢
  unfold Ends at hends
  cases happly : applyManagedSecrets p a call.rollback call.answers call.managed ⟨some text, some envText⟩ with
  | ok r s' =>
    rw [happly] at hr
    cases hr
  | error e' s' =>
    rw [happly] at hends hr
    obtain rfl := Except.error.inj hr
    refine hends.1 ?_
    cases e' with
    | early => exact .inl rfl
    | restored => exact .inr rfl
    | failed => exact he.elim
    | rollbackFailed => exact he.elim

theorem holds_of_applies (hreads : Reads p g s) (hfits : ∀ call ∈ calls, call.Fits)
    (hharmless : ∀ entry ∈ (attempts (ApplyCall.run p a) calls s).1, ∀ e, entry.2 = .error e → e.harmless) :
    Reads p (g + total ApplyCall.gain (attempts (ApplyCall.run p a) calls s).1)
        (attempts (ApplyCall.run p a) calls s).2 ∧
      (lastSuccess (attempts (ApplyCall.run p a) calls s).1 = none → (attempts (ApplyCall.run p a) calls s).2 = s) ∧
      ∀ call, lastSuccess (attempts (ApplyCall.run p a) calls s).1 = some call →
        Holds p a call.managed (g + total ApplyCall.gain (attempts (ApplyCall.run p a) calls s).1)
          (attempts (ApplyCall.run p a) calls s).2 := by
  have hsuccess : ∀ (call : ApplyCall) (n : ℤ) (s : Files) (r : Bool × ℤ), call.Fits → Reads p n s →
      (call.run p a s).1 = .ok r → Reads p (n + ApplyCall.gain r) (call.run p a s).2 ∧
        Holds p a call.managed (n + ApplyCall.gain r) (call.run p a s).2 := by
    intro call n s r hcall hinv hr
    have hholds := holds_of_run hcall hinv hr
    exact ⟨hholds.reads, hholds⟩
  exact holds_of_attempts hsuccess (fun call n s e hcall hinv he hr => run_of_error hcall hinv he hr) hreads hfits
    hharmless

theorem run_of_holds (h : Holds p a call.managed g s) (hready : call.answers.ready = true) :
    call.run p a s = (.ok (false, g), s) := by
  have hends : Ends (applyManagedSecrets p a call.rollback call.answers call.managed) _ _ s :=
    ends_applyManagedSecrets_again h hready
  unfold Ends at hends
  unfold ApplyCall.run
  cases happly : applyManagedSecrets p a call.rollback call.answers call.managed s with
  | ok r s' =>
    rw [happly] at hends
    obtain ⟨rfl, rfl⟩ := hends
    rfl
  | error e s' =>
    rw [happly] at hends
    exact hends.elim

/-- **An apply again.**  After any applies, the apply of the secrets of the last one that has returned changes nothing
and says so, whatever the other calls would answer. -/
theorem run_again_of_applies {call' : ApplyCall} (hreads : Reads p g s) (hfits : ∀ call ∈ calls, call.Fits)
    (hharmless : ∀ entry ∈ (attempts (ApplyCall.run p a) calls s).1, ∀ e, entry.2 = .error e → e.harmless)
    (hlast : lastSuccess (attempts (ApplyCall.run p a) calls s).1 = some call) (hmanaged : call'.managed = call.managed)
    (hready : call'.answers.ready = true) :
    call'.run p a (attempts (ApplyCall.run p a) calls s).2 =
      (.ok (false, g + total ApplyCall.gain (attempts (ApplyCall.run p a) calls s).1),
        (attempts (ApplyCall.run p a) calls s).2) := by
  refine run_of_holds ?_ hready
  rw [hmanaged]
  exact (holds_of_applies hreads hfits hharmless).2.2 call hlast

/-! ### The launch -/

theorem launch_universalNewlines (env : Text) (files : Text → Option Text) :
    launch p (some (Warp.universalNewlines env)) (fun path => (files path).map Warp.universalNewlines) =
      launch p (some env) files := by
  have hload : ∀ file : Option Text, loadDocument p (file.map Warp.universalNewlines) = loadDocument p file := by
    intro file
    cases file with
    | none => rfl
    | some text =>
      show loadDocument p (some (Warp.universalNewlines text)) = _
      rw [loadDocument, loadDocument, universalNewlines_universalNewlines]
  have henv : readEnv (Warp.universalNewlines env) = readEnv env := by
    rw [readEnv, readEnv, universalNewlines_universalNewlines]
  unfold launch launchWith
  dsimp only
  rw [henv, hload]

/-- The texts of the files for the wrapper: the managed secrets stand where the adapter writes them. -/
def Files.at (s : Files) (a : Adapter) (path : Text) : Option Text :=
  if path = a.managedSecretsPath then s.secrets else none

/-- The conditions of the wrapper when it reads the file of the adapter: it strips the path. -/
structure Adapter.Starts (a : Adapter) : Prop extends a.Launches where
  path : rstrip a.managedSecretsPath = a.managedSecretsPath

/-- What the proxy gets from the files. -/
theorem launch_of_holds (h : Holds p a managed g s) :
    ∃ normalized launched, normalizeSecrets managed = .ok normalized ∧
      (normalized ≠ [] → launched = normalized.map ManagedSecret.secret) ∧
      (normalized = [] → ∃ placeholder, keepsPlaceholder placeholder = true ∧
        launched = [p.strOr (placeholder.field "secret".toList)]) ∧
      ∀ argv, launch p s.env (s.at a) = .ok argv ↔ a.Starts ∧ argv = a.arguments launched := by
  obtain ⟨⟨text, normalized, hsecrets, hnormalized, runtime, hstored, htext⟩, envText, henv, hcontent⟩ := h
  obtain ⟨husers, hplaceholder⟩ := hstored.launched
  refine ⟨normalized, launchedSecrets p normalized runtime, hnormalized, husers, hplaceholder, fun argv => ?_⟩
  rw [henv, ← launch_universalNewlines]
  -- the wrapper strips the path, and then there may be no file
  by_cases hpath : rstrip a.managedSecretsPath = a.managedSecretsPath
  · have hfile : (s.at a (rstrip a.managedSecretsPath)).map Warp.universalNewlines =
        some (jsonDump (documentOf g (normalized.map secretDict) runtime)) := by
      rw [Files.at, if_pos hpath, hsecrets, ← htext]
      rfl
    rw [launch_of_stored_iff hstored hcontent hfile]
    exact and_congr_left fun _ => ⟨fun h => ⟨h, hpath⟩, fun h => h.toLaunches⟩
  · refine iff_of_false (fun hlaunch => ?_) fun h => hpath h.1.path
    obtain ⟨text, hfile⟩ := exists_file_of_launch hlaunch
    rw [(envAt_readEnv hcontent).2.2.2.2.1, Files.at, if_neg hpath] at hfile
    cases hfile

/-- **The proxy runs with the secrets of the last apply that has returned**, in order and one for each fingerprint,
whichever of the applies have failed; and the generation has counted the changes. -/
theorem launch_of_applies (hreads : Reads p g s) (hfits : ∀ call ∈ calls, call.Fits)
    (hharmless : ∀ entry ∈ (attempts (ApplyCall.run p a) calls s).1, ∀ e, entry.2 = .error e → e.harmless)
    (hlast : lastSuccess (attempts (ApplyCall.run p a) calls s).1 = some call) :
    Reads p (g + total ApplyCall.gain (attempts (ApplyCall.run p a) calls s).1)
        (attempts (ApplyCall.run p a) calls s).2 ∧
      ∃ normalized launched, normalizeSecrets call.managed = .ok normalized ∧
        (normalized ≠ [] → launched = normalized.map ManagedSecret.secret) ∧
        (normalized = [] → ∃ placeholder, keepsPlaceholder placeholder = true ∧
          launched = [p.strOr (placeholder.field "secret".toList)]) ∧
        ∀ argv, launch p (attempts (ApplyCall.run p a) calls s).2.env
            ((attempts (ApplyCall.run p a) calls s).2.at a) = .ok argv ↔
          a.Starts ∧ argv = a.arguments launched := by
  obtain ⟨hend, -, hholds⟩ := holds_of_applies hreads hfits hharmless
  exact ⟨hend, launch_of_holds (hholds call hlast)⟩

/-- The files of a runtime without secrets. -/
def bare : Files := ⟨some "\x7b\x7d".toList, some []⟩

/-- The apply of the first secret, and every call is well. -/
def applySeven : ApplyCall where
  managed := [secretOfSeven]
  rollback := true
  answers :=
    { ready := true
      token := ['b']
      token' := ['b']
      backupFails := false
      writeSecrets := none
      writeEnv := none
      verified := true
      manifest := true
      restoreSecrets := none
      restoreEnv := none
      verifiedAgain := true }

theorem applySeven_fits : applySeven.Fits := ⟨writable_secretOfSeven, List.cons_ne_nil _ _, List.cons_ne_nil _ _⟩

theorem reads_bare : Reads plain 0 bare := ⟨_, _, rfl, rfl⟩

theorem applySeven_harmless : ∀ entry ∈ (attempts (ApplyCall.run plain usual) [applySeven] bare).1,
    ∀ e, entry.2 = .error e → e.harmless := by
  intro entry hentry e he
  rw [List.mem_singleton.1 hentry] at he
  cases he

theorem fits_of_mem_applySeven : ∀ call ∈ [applySeven], call.Fits := by
  intro call hcall
  rw [List.mem_singleton.1 hcall]
  exact applySeven_fits

/-- The same apply once more. -/
theorem run_again_of_applies_seven :
    applySeven.run plain usual (attempts (ApplyCall.run plain usual) [applySeven] bare).2 =
    (.ok (false, 0 + total ApplyCall.gain (attempts (ApplyCall.run plain usual) [applySeven] bare).1),
      (attempts (ApplyCall.run plain usual) [applySeven] bare).2) :=
  run_again_of_applies reads_bare fits_of_mem_applySeven applySeven_harmless rfl rfl rfl

/-- The launch after the first apply. -/
theorem launch_of_applies_seven :
    Reads plain (0 + total ApplyCall.gain (attempts (ApplyCall.run plain usual) [applySeven] bare).1)
        (attempts (ApplyCall.run plain usual) [applySeven] bare).2 ∧
      ∃ normalized launched, normalizeSecrets applySeven.managed = .ok normalized ∧
        (normalized ≠ [] → launched = normalized.map ManagedSecret.secret) ∧
        (normalized = [] → ∃ placeholder, keepsPlaceholder placeholder = true ∧
          launched = [plain.strOr (placeholder.field "secret".toList)]) ∧
        ∀ argv, launch plain (attempts (ApplyCall.run plain usual) [applySeven] bare).2.env
            ((attempts (ApplyCall.run plain usual) [applySeven] bare).2.at usual) = .ok argv ↔
          usual.Starts ∧ argv = usual.arguments launched :=
  @launch_of_applies plain usual bare 0 applySeven [applySeven] reads_bare fits_of_mem_applySeven applySeven_harmless
    rfl

end VpnBot.MtProxy
