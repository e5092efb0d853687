import VpnBot.Warp.ListValidators

/-!
# What a failed apply leaves

`_apply_locked` as far as the list file goes, with what becomes of the two runs of the helper.  The text of the
old file goes through the helper again, and that helper may refuse it, or write it in another form: without
carriage returns and NUL bytes, and with one newline at the end (`written_eq_iff`).  `restores_iff` is the exact
condition under which a failed apply leaves the file as it was, given that the second run meets no failure.

The text of a file is what its bytes decode to; `read_text` changes its line ends.
-/

namespace VpnBot.Warp

open Py

/-! ### The apply and the restore -/

/-- `read_list_text`. -/
def readListText (file : Option Text) : Option Text := file.map universalNewlines

/-- The list file after `_restore_previous`. -/
def restoreFile (previous : Option Text) (second : ScriptEnd) (file : Option Text) : Option Text :=
  match previous with
  | none => file
  | some text => if (strip text).isEmpty then file else (applyScript [] second text file).file

/-- `_apply_locked`: whether it fails, and the list file that it leaves. -/
def applyFile (manager : SplitManager) (guards : List Guard) (cidrList : List Text) (force : Bool)
    (first second : ScriptEnd) (file : Option Text) : Bool × Option Text :=
  if cidrList.isEmpty then (true, file)
  else
    match checkList manager guards cidrList with
    | .error _ => (true, file)
    | .ok () =>
      if !force && readListText file = some (renderList cidrList) then (false, file)
      else
        match applyScript [] first (renderList cidrList) file with
        | .raised file' => (true, file')
        | .exited code _ file' =>
          if code = 0 then (false, file') else (true, restoreFile (readListText file) second file')

/-! ### One run of the helper -/

/-- What the helper writes for an input that it takes. -/
def written (stdin : Text) : Text := printfLine (commandSubstitution stdin)

/-- The run takes its input and gets past the rename. -/
def renames (stdin : Text) : ScriptEnd → Bool
  | .raised moved | .stopped _ moved => helperTakes stdin && moved
  | .ran commands => helperTakes stdin &&
      (firstFailure [commands.mktemp, commands.write, commands.chown, commands.chmod, commands.mv]).isNone

/-- The runner returns the code of the run. -/
def returns : ScriptEnd → Bool
  | .raised _ => false
  | .stopped _ _ | .ran _ => true

variable {stdin t : Text} {file : Option Text}

theorem file_applyScript (detail : Text) (scriptEnd : ScriptEnd) :
    (applyScript detail scriptEnd stdin file).file =
      if renames stdin scriptEnd then some (written stdin) else file := by
  have hvalid : (!(commandSubstitution stdin).isEmpty && scriptValidates (commandSubstitution stdin)) =
      helperTakes stdin := rfl
  cases scriptEnd with
  | raised moved => rfl
  | stopped returncode moved => rfl
  | ran commands =>
    have hrenames : renames stdin (.ran commands) = (helperTakes stdin &&
      (firstFailure [commands.mktemp, commands.write, commands.chown, commands.chmod, commands.mv]).isNone) := rfl
    rw [hrenames]
    unfold applyScript written
    dsimp only
    rw [hvalid]
    cases helperTakes stdin with
    | false => rfl
    | true =>
      cases firstFailure [commands.mktemp, commands.write, commands.chown, commands.chmod, commands.mv] with
      | none => rfl
      | some code => rfl

theorem file_everyCommand :
    (applyScript [] everyCommand stdin file).file = if helperTakes stdin then some (written stdin) else file := by
  have hrenames : renames stdin everyCommand = helperTakes stdin := by
    change (helperTakes stdin && true) = helperTakes stdin
    rw [Bool.and_true]
  rw [file_applyScript, hrenames]

theorem helperTakes_of_strip (h : strip t = []) : helperTakes t = false := by
  obtain ⟨v, w, hv, hw, ht⟩ := exists_strip t
  rw [h, List.append_nil] at ht
  have hspace : ∀ c ∈ t.filter (· ≠ '\x00'), isSpace c = true := by
    intro c hc
    have hmem := (List.mem_filter.mp hc).1
    rw [ht] at hmem
    exact (List.mem_append.mp hmem).elim (hv c) (hw c)
  rw [← Bool.not_eq_true, helperTakes_iff]
  rintro ⟨hne, -⟩
  exact hne (entriesBy_of_forall hspace)

theorem restoreFile_everyCommand (file' : Option Text) :
    restoreFile (some t) everyCommand file' = if helperTakes t then some (written t) else file' := by
  unfold restoreFile
  dsimp only
  by_cases hblank : strip t = []
  · rw [hblank, if_pos (by rfl), helperTakes_of_strip hblank, if_neg Bool.false_ne_true]
  · rw [if_neg (by simpa using hblank), file_everyCommand]

/-! ### Texts that are written as they are -/

/-- The text has no carriage return and no NUL byte, and ends with one newline. -/
structure Plain (t : Text) : Prop where
  noReturn : '\r' ∉ t
  noNul : '\x00' ∉ t
  ends : ∃ u, t = u ++ ['\n'] ∧ u.getLast? ≠ some '\n'

theorem not_mem_universalNewlines (t : Text) : '\r' ∉ universalNewlines t := by
  fun_induction universalNewlines t with
  | case1 => exact List.not_mem_nil
  | case2 t ih => simpa using ih
  | case3 t hne ih => simpa using ih
  | case4 c t hpair hcr ih =>
    rw [List.mem_cons, not_or]
    exact ⟨fun h => hcr h.symm, ih⟩

theorem universalNewlines_eq_self (h : '\r' ∉ t) : universalNewlines t = t := by
  fun_induction universalNewlines t with
  | case1 => rfl
  | case2 t ih => exact absurd List.mem_cons_self h
  | case3 t hne ih => exact absurd List.mem_cons_self h
  | case4 c t hpair hcr ih => rw [ih fun hmem => h (List.mem_cons_of_mem _ hmem)]

/-- **When the helper writes back what was read.** -/
theorem written_eq_iff : written (universalNewlines t) = t ↔ Plain t := by
  have hcontent : commandSubstitution (universalNewlines t) =
      ((universalNewlines t).filter (· ≠ '\x00')).rdropWhile (· = '\n') := rfl
  have hmem : ∀ c ∈ commandSubstitution (universalNewlines t), c ∈ universalNewlines t ∧ c ≠ '\x00' := by
    intro c hc
    rw [hcontent] at hc
    have h := List.mem_filter.mp ((List.rdropWhile_prefix _ _).subset hc)
    exact ⟨h.1, by simpa using h.2⟩
  constructor
  · intro h
    refine ⟨fun hr => ?_, fun hnul => ?_, ⟨commandSubstitution (universalNewlines t), h.symm, fun hlast => ?_⟩⟩
    · rw [← h, written, printfLine] at hr
      rcases List.mem_append.mp hr with hr | hr
      · exact not_mem_universalNewlines t (hmem _ hr).1
      · exact absurd (List.mem_singleton.mp hr) (by decide)
    · rw [← h, written, printfLine] at hnul
      rcases List.mem_append.mp hnul with hnul | hnul
      · exact (hmem _ hnul).2 rfl
      · exact absurd (List.mem_singleton.mp hnul) (by decide)
    · rw [hcontent] at hlast
      have hne : ((universalNewlines t).filter (· ≠ '\x00')).rdropWhile (· = '\n') ≠ [] := by
        intro hnil
        rw [hnil] at hlast
        cases hlast
      have hnot := List.rdropWhile_last_not (· = '\n') _ hne
      rw [List.getLast?_eq_some_getLast hne, Option.some.injEq] at hlast
      rw [hlast] at hnot
      exact hnot (by decide)
  · rintro ⟨hr, hnul, u, rfl, hlast⟩
    have hfilter : (u ++ ['\n']).filter (· ≠ '\x00') = u ++ ['\n'] := by
      rw [List.filter_eq_self]
      intro c hc
      rw [decide_eq_true_eq]
      rintro rfl
      exact hnul hc
    have hdrop : u.rdropWhile (· = '\n') = u := by
      rw [List.rdropWhile_eq_self_iff]
      intro hne hnewline
      rw [List.getLast?_eq_some_getLast hne] at hlast
      exact hlast (congrArg some (of_decide_eq_true hnewline))
    rw [written, printfLine, hcontent, universalNewlines_eq_self hr, hfilter,
      List.rdropWhile_concat_pos _ _ _ (by decide), hdrop]

/-! ### When the file is what it was -/

/-- The first run has changed nothing: it has not come to the rename, or has written what was there. -/
def Kept (content : Text) (first : ScriptEnd) (file : Option Text) : Prop :=
  renames content first = true → some (written content) = file

/-- The first run returned and the helper takes the old text, which has the form in which the helper writes; or
else the first run has changed nothing. -/
def Restores (content : Text) (first : ScriptEnd) : Option Text → Prop
  | none => Kept content first none
  | some t =>
    if returns first = true ∧ helperTakes (universalNewlines t) = true then Plain t
    else Kept content first (some t)

theorem kept_iff {content : Text} {first : ScriptEnd} :
    (applyScript [] first content file).file = file ↔ Kept content first file := by
  rw [file_applyScript, Kept]
  split_ifs with h
  · exact ⟨fun heq _ => heq, fun heq => heq h⟩
  · exact ⟨fun _ hrenames => absurd hrenames h, fun _ => rfl⟩

theorem returns_of_exited {content detail : Text} {first : ScriptEnd} {code : ℤ} {file' : Option Text}
    (h : applyScript [] first content file = .exited code detail file') : returns first = true := by
  cases first with
  | raised moved => cases h
  | stopped returncode moved => rfl
  | ran commands => rfl

theorem not_returns_of_raised {content : Text} {first : ScriptEnd} {file' : Option Text}
    (h : applyScript [] first content file = .raised file') : returns first = false := by
  cases first with
  | raised moved => rfl
  | stopped returncode moved => cases h
  | ran commands =>
    unfold applyScript at h
    dsimp only at h
    split_ifs at h
    cases hfail : firstFailure [commands.mktemp, commands.write, commands.chown, commands.chmod, commands.mv] with
    | none =>
      rw [hfail] at h
      cases h
    | some code =>
      rw [hfail] at h
      cases h

section Apply

variable {manager : SplitManager} {guards : List Guard} {cidrList : List Text} {force : Bool} {first : ScriptEnd}

/-- **What a failed apply leaves**, when the second run of the helper meets no failure. -/
theorem restores_iff (hfails : (applyFile manager guards cidrList force first everyCommand file).1 = true) :
    (applyFile manager guards cidrList force first everyCommand file).2 = file ↔
      cidrList = [] ∨ checkList manager guards cidrList ≠ .ok () ∨ Restores (renderList cidrList) first file := by
  unfold applyFile at hfails ⊢
  by_cases hempty : cidrList = []
  · subst hempty
    exact ⟨fun _ => Or.inl rfl, fun _ => rfl⟩
  rw [if_neg (by simpa using hempty)] at hfails ⊢
  cases hcheck : checkList manager guards cidrList with
  | error e => exact ⟨fun _ => Or.inr (Or.inl nofun), fun _ => rfl⟩
  | ok u =>
    rw [hcheck] at hfails
    dsimp only at hfails ⊢
    split_ifs at hfails ⊢ with hsame
    have honly : (cidrList = [] ∨ (Except.ok u : Except SplitError Unit) ≠ .ok () ∨
        Restores (renderList cidrList) first file) ↔ Restores (renderList cidrList) first file :=
      ⟨fun h => (h.resolve_left hempty).resolve_left fun hne => hne rfl, fun h => Or.inr (Or.inr h)⟩
    rw [honly]
    have hkept : (applyScript [] first (renderList cidrList) file).file = file ↔
        Kept (renderList cidrList) first file := kept_iff
    cases hrun : applyScript [] first (renderList cidrList) file with
    | raised file' =>
      have hreturns := not_returns_of_raised hrun
      rw [hrun] at hkept
      dsimp only
      cases file with
      | none => exact hkept
      | some t =>
        rw [Restores, if_neg (by rw [hreturns]; rintro ⟨h, -⟩; cases h)]
        exact hkept
    | exited code detail file' =>
      have hreturns := returns_of_exited hrun
      rw [hrun] at hkept hfails
      dsimp only at hfails ⊢
      split_ifs at hfails ⊢ with hcode
      dsimp only
      cases file with
      | none => exact hkept
      | some t =>
        rw [readListText, Option.map_some, restoreFile_everyCommand, Restores]
        by_cases htakes : helperTakes (universalNewlines t) = true
        · rw [if_pos htakes, if_pos ⟨hreturns, htakes⟩, Option.some.injEq, written_eq_iff]
        · rw [if_neg htakes, if_neg fun h => htakes h.2]
          exact hkept

end Apply

/-! ### Both sides agree -/

/-- What the bot accepts the helper accepts, and a failed apply leaves the file as it was. -/
structure ListsAgree : Prop where
  candidates : ∀ manager guards cidrList, checkList manager guards cidrList = .ok () →
    helperTakes (renderList cidrList) = true
  files : ∀ t, ReadsAll t → helperTakes t = true
  restored : ∀ manager guards cidrList force first file,
    (applyFile manager guards cidrList force first everyCommand file).1 = true →
      (applyFile manager guards cidrList force first everyCommand file).2 = file

/-- **When the bot and the helper agree**, for each candidate, each file and each failed apply. -/
theorem lists_agree_iff (manager : SplitManager) (guards : List Guard) (cidrList : List Text) (t : Text)
    (force : Bool) (first : ScriptEnd) (file : Option Text) :
    (checkList manager guards cidrList = .ok () →
      (helperTakes (renderList cidrList) = true ↔
        candidateEntries cidrList ≠ [] ∧ ∀ e ∈ candidateEntries cidrList, Explicit e)) ∧
    (ReadsAll t → (helperTakes t = true ↔
      helperEntries t ≠ [] ∧ ∀ e ∈ helperEntries t, Explicit e ∧ OneLined e)) ∧
    ((applyFile manager guards cidrList force first everyCommand file).1 = true →
      ((applyFile manager guards cidrList force first everyCommand file).2 = file ↔
        cidrList = [] ∨ checkList manager guards cidrList ≠ .ok () ∨
          Restores (renderList cidrList) first file)) :=
  ⟨helperTakes_renderList, helperTakes_iff_of_readsAll, restores_iff⟩

/-- The service does not come up again after the rename. -/
def restartFails : ScriptEnd := .ran ⟨0, 0, 0, 0, 0, 1⟩

/-- A file with a bare address is read, but it is not restored. -/
theorem bare_address_lost : ¬ ListsAgree := by
  intro h
  have hrestored := h.restored defaultManager [] ["9.9.9.0/24".toList] false restartFails
    (some "8.8.8.8\n".toList) (by decide +kernel)
  revert hrestored
  decide +kernel

end VpnBot.Warp
