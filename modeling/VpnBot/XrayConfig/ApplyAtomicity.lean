import VpnBot.Python.JsonLoads
import VpnBot.XrayConfig.DirectApply

/-!
# What a failed apply leaves

Up to the replacement nothing touches the config (`prepare_keeps`).  From there on the file is right at the
end exactly when what goes wrong is caught, and when the backup is still there to be restored
(`atomic_iff`): the cleanup that follows each backup keeps the newest files by their times, and the new one
need not be among them.
-/

namespace VpnBot.XrayConfig

open Py Sys Program

variable {a : Answers} {c : DirectCall} {s s' : Disk} {path : Path} {backup : BackupFile}
  {candidate : Text} {site : Site} {command : Command}

/-! ### The steps -/

@[simp] theorem ends_guardSite {P : Unit → Disk → Prop} {Q : Unit → Disk → Prop} :
    Ends (guardSite a site) P Q s ↔ (a.raises site = true → Q () s) ∧ (a.raises site = false → P () s) := by
  unfold guardSite
  cases a.raises site <;> simp

/-- What follows from both answers of a call. -/
@[simp] theorem raises_or_not_iff {p : Prop} :
    (a.raises site = true → p) ∧ (a.raises site = false → p) ↔ p := by
  cases a.raises site <;> simp

@[simp] theorem ends_require {P : Unit → Disk → Prop} {Q : Unit → Disk → Prop} :
    Ends (require a command) P Q s ↔
      (a.command command ≠ .ok → Q () s) ∧ (a.command command = .ok → P () s) := by
  unfold require
  by_cases h : a.command command = .ok <;> simp [h]

/-- The commands of the path end with an exception. -/
def Uncaught (a : Answers) : Path → Prop
  | .reload => a.command .reload = .raised ∨ a.command .reload = .ok ∧ a.command .active = .raised
  | .restart => a.command .restart = .raised ∨ a.command .restart = .ok ∧ a.command .active = .raised
  | .api => False

/-- The service takes the file. -/
def Taken (a : Answers) : Path → Prop
  | .reload => a.command .reload = .ok ∧ a.command .active = .ok
  | .restart => a.command .restart = .ok ∧ a.command .active = .ok
  | .api => a.raises .apiReload = false

theorem ends_applied {P : Bool → Disk → Prop} {Q : Unit → Disk → Prop} :
    Ends (applied a path) P Q s ↔ (Uncaught a path → Q () s) ∧ (Taken a path → P true s) ∧
      (¬Uncaught a path → ¬Taken a path → P false s) := by
  cases path with
  | api =>
    simp only [applied, Uncaught, Taken]
    cases a.raises .apiReload <;> simp
  | reload =>
    simp only [applied, Uncaught, Taken, ends_bind]
    unfold attemptCommand
    cases a.command .reload <;> cases a.command .active <;> simp
  | restart =>
    simp only [applied, Uncaught, Taken, ends_bind]
    unfold attemptCommand
    cases a.command .restart <;> cases a.command .active <;> simp

theorem ends_withFinally {α : Type} {body : Program Disk Unit α} {final : Program Disk Unit Unit}
    {P : α → Disk → Prop} {Q : Unit → Disk → Prop} :
    Ends (withFinally body final) P Q s ↔
      Ends body (fun r s' => Ends final (fun _ s'' => P r s'') Q s')
        (fun _ s' => Ends final (fun _ s'' => Q () s'') Q s') s := by
  unfold withFinally
  rw [ends_bind, ends_tryCatch, ends_map]
  have hreturned (r : α) (s' : Disk) :
      Ends (do final; pure r) P Q s' ↔ Ends final (fun _ s'' => P r s'') Q s' := ends_bind
  have hraised (s' : Disk) : Ends (do final; (throw () : Program Disk Unit α)) P Q s' ↔
      Ends final (fun _ s'' => Q () s'') Q s' := ends_bind
  constructor
  · intro hs
    exact hs.mono (fun r s' h => (hreturned r s').mp h) fun _ s' h => (hraised s').mp h
  · intro hs
    exact hs.mono (fun r s' h => (hreturned r s').mpr h) fun _ s' h => (hraised s').mpr h

/-! ### The backups -/

/-- The backups after the cleanup. -/
def keptBackups (c : DirectCall) (a : Answers) (s : Disk) : List BackupFile :=
  cleaned a c.keepLast (listingWith a (backupOf a s) s.backups)

/-- The cleanup keeps the new backup: it keeps all, or the new one is among the newest. -/
def Survives (c : DirectCall) (a : Answers) (s : Disk) : Prop :=
  c.keepLast = 0 ∨
    backupOf a s ∈ (newestFirst (listingWith a (backupOf a s) s.backups)).take c.keepLast

@[simp] theorem backupOf_content : (backupOf a s).content = s.config := rfl

theorem name_lt_freshName {backups : List BackupFile} {f : BackupFile} (hf : f ∈ backups) :
    f.name < freshName backups := by
  unfold freshName
  induction backups with
  | nil => exact absurd hf List.not_mem_nil
  | cons g backups ih =>
    rw [List.map_cons, List.foldr_cons]
    rcases List.mem_cons.mp hf with rfl | hf
    · omega
    · have := ih hf
      omega

theorem mem_listingWith {backups : List BackupFile} {f : BackupFile}
    (hf : f ∈ listingWith a backup backups) : f = backup ∨ f ∈ backups := by
  unfold listingWith at hf
  rcases List.mem_append.mp hf with hf | hf
  · exact .inr (List.mem_of_mem_take hf)
  · rcases List.mem_cons.mp hf with rfl | hf
    · exact .inl rfl
    · exact .inr (List.mem_of_mem_drop hf)

theorem mem_of_mem_cleaned {k : ℕ} {listing : List BackupFile} {f : BackupFile}
    (hf : f ∈ cleaned a k listing) : f ∈ listing := by
  have hperm : (newestFirst listing).Perm listing := List.perm_insertionSort _ listing
  unfold cleaned at hf
  split at hf
  · exact hf
  · rcases List.mem_append.mp hf with hf | hf
    · exact hperm.mem_iff.mp (List.mem_of_mem_take hf)
    · cases hn : a.cleanup with
      | none => simp [hn] at hf
      | some n =>
        rw [hn] at hf
        exact hperm.mem_iff.mp (List.mem_of_mem_drop (List.mem_of_mem_drop hf))

theorem mem_keptBackups_iff (hcleanup : c.keepLast ≠ 0 → a.cleanup = none) :
    backupOf a s ∈ keptBackups c a s ↔ Survives c a s := by
  unfold keptBackups cleaned Survives
  by_cases hk : c.keepLast = 0
  · simp [hk, listingWith]
  · simp [hk, hcleanup hk]

theorem find?_keptBackups_eq_some {f : BackupFile}
    (hf : (keptBackups c a s).find? (fun f => f.name = (backupOf a s).name) = some f) :
    f = backupOf a s := by
  have hname := List.find?_some hf
  simp only [decide_eq_true_eq] at hname
  rcases mem_listingWith (mem_of_mem_cleaned (List.mem_of_find?_eq_some hf)) with h | h
  · exact h
  · exact absurd hname (Nat.ne_of_lt (name_lt_freshName h))

theorem ends_restore {P : Unit → Disk → Prop} {Q : Unit → Disk → Prop}
    (hcleanup : c.keepLast ≠ 0 → a.cleanup = none) (hs' : s'.backups = keptBackups c a s) :
    Ends (do restore a (backupOf a s); (throw () : Program Disk Unit Unit)) P Q s' ↔
      (Survives c a s ∧ a.restore ≠ some .before → Q () { s' with config := s.config }) ∧
      (¬(Survives c a s ∧ a.restore ≠ some .before) → Q () s') := by
  rw [← mem_keptBackups_iff hcleanup]
  simp only [restore, ends_bind, ends_get, hs']
  cases hfind : (keptBackups c a s).find? fun f => f.name = (backupOf a s).name with
  | none =>
    have hlost : backupOf a s ∉ keptBackups c a s := by
      intro hmem
      simpa using List.find?_eq_none.mp hfind _ hmem
    simp [hlost]
  | some f =>
    obtain rfl := find?_keptBackups_eq_some hfind
    have hkept := List.mem_of_find?_eq_some hfind
    rw [ends_call]
    rcases hrestore : a.restore with _ | (_ | _)
    · simp [hkept, hs']
    · simp
    · simp [hkept, hs']

/-! ### Up to the replacement -/

/-- All that comes before the replacement goes well. -/
structure Prepares (a : Answers) (keepLast : ℕ) : Prop where
  raises : ∀ site, site ≠ .apiReload → site ≠ .finish → a.raises site = false
  currentTest : a.command .currentTest = .ok
  cleanup : keepLast ≠ 0 → a.cleanup = none
  candidateTest : a.command .candidateTest = .ok

/-- The method gets to the replacement, with this candidate and this path. -/
structure Replaces (c : DirectCall) (a : Answers) (s : Disk) (candidate : Text) (path : Path) : Prop where
  reads : c.adapter.returnsAtOnce c.op = false
  labels : c.op.labelsSafe = true
  prepares : Prepares a c.keepLast
  plan : c.plan s.config = some (some (candidate, path))

/-- The files when a method comes to the replacement. -/
def readyDisk (c : DirectCall) (a : Answers) (s : Disk) (candidate : Text) : Disk :=
  ⟨s.config, keptBackups c a s, candidate :: s.tested⟩

theorem ends_createBackup {k : ℕ} {P : BackupFile → Disk → Prop} {Q : Unit → Disk → Prop} :
    Ends (createBackup a k) P Q s ↔
      let s' := { s with backups := cleaned a k (listingWith a (backupOf a s) s.backups) }
      (a.raises .copy = true → Q () s) ∧ (a.raises .copy = false →
        (k ≠ 0 ∧ a.cleanup.isSome → Q () s') ∧ (¬(k ≠ 0 ∧ a.cleanup.isSome) → P (backupOf a s) s')) := by
  simp only [createBackup, ends_bind, ends_guardSite, ends_get, ends_modify]
  split_ifs with h <;> simp [h]

theorem prepare_keeps (hreads : c.adapter.returnsAtOnce c.op = false) (hlabels : c.op.labelsSafe = true) :
    Ends (prepare c a)
      (fun r s' => s'.config = s.config ∧ (r = none → s'.tested = s.tested) ∧
        ∀ candidate path backup, r = some (candidate, path, backup) → Replaces c a s candidate path)
      (fun _ s' => s'.config = s.config) s := by
  simp only [prepare, ends_bind, ends_guardSite, ends_require, ends_createBackup, ends_get,
    implies_true, true_and]
  intro hlock hcurrent hsnapshot hcopy hcleanup hread
  cases hplan : c.plan s.config with
  | none => exact rfl
  | some edit =>
    cases edit with
    | none => exact ⟨rfl, fun _ => rfl, fun _ _ _ h => by cases h⟩
    | some edit =>
      simp only [ends_bind, ends_guardSite, ends_require, ends_modify, ends_pure, implies_true,
        true_and]
      intro hwrite hcandidate hunchanged hstat
      constructor
      · intro h
        cases h
      intro candidate path backup h
      obtain ⟨rfl, rfl, -⟩ : edit.1 = candidate ∧ edit.2 = path ∧ backupOf a s = backup := by
        simpa using h
      refine ⟨hreads, hlabels, ⟨fun site hapi hfinish => ?_, hcurrent, fun hk => ?_, hcandidate⟩, hplan⟩
      · cases site <;> first | assumption | contradiction
      · by_contra hsome
        exact hcleanup ⟨hk, Option.isSome_iff_ne_none.mpr hsome⟩

theorem prepare_of_replaces (h : Replaces c a s candidate path) :
    Ends (prepare c a)
      (fun r s' => r = some (candidate, path, backupOf a s) ∧ s' = readyDisk c a s candidate)
      (fun _ _ => False) s := by
  have hraises (site : Site) (hapi : site ≠ .apiReload) (hfinish : site ≠ .finish) :
      ¬a.raises site = true := by
    rw [h.prepares.raises site hapi hfinish]
    exact Bool.false_ne_true
  have hcleanup : ¬(c.keepLast ≠ 0 ∧ a.cleanup.isSome) := by
    rintro ⟨hk, hsome⟩
    rw [h.prepares.cleanup hk] at hsome
    exact Bool.false_ne_true hsome
  simp [prepare, ends_createBackup, h.prepares.raises, h.prepares.currentTest, h.prepares.candidateTest,
    h.plan, hcleanup, readyDisk, keptBackups]

/-! ### From the replacement on -/

/-- A method leaves the config as it was when it raises, and the candidate that it has tested when it
returns. -/
def Atomic (c : DirectCall) (a : Answers) (s : Disk) : Prop :=
  Ends (operation c a)
    (fun r s' => s'.config = r.getD s.config ∧ s'.tested = r.toList ++ s.tested)
    (fun _ s' => s'.config = s.config) s

/-- Nothing goes wrong from the replacement on, or it is put right. -/
def PutRight (c : DirectCall) (a : Answers) (s : Disk) (path : Path) : Prop :=
  a.replace = some .before ∨ a.replace = none ∧ ¬Uncaught a path ∧
    (Taken a path → a.raises .finish = false) ∧
    (¬Taken a path → Survives c a s ∧ a.restore ≠ some .before)

theorem ends_applyOrRestore {P Q : Unit → Disk → Prop} (hcleanup : c.keepLast ≠ 0 → a.cleanup = none)
    (hs' : s'.backups = keptBackups c a s) :
    Ends (applyOrRestore a path (backupOf a s)) P Q s' ↔
      (Uncaught a path → Q () s') ∧ (Taken a path → P () s') ∧ (¬Uncaught a path → ¬Taken a path →
        (Survives c a s ∧ a.restore ≠ some .before → Q () { s' with config := s.config }) ∧
        (¬(Survives c a s ∧ a.restore ≠ some .before) → Q () s')) := by
  unfold applyOrRestore
  rw [ends_bind, ends_applied, ← ends_restore hcleanup hs']
  exact Iff.rfl

/-- Every failure from the replacement on raises, so that the method is atomic exactly when the config is the
old one then. -/
theorem ends_installCandidate_iff (h : Replaces c a s candidate path) :
    Ends (withFinally (installCandidate a candidate path (backupOf a s)) (guardSite a .finish))
      (fun r s' => s'.config = r.getD s.config ∧ s'.tested = r.toList ++ s.tested)
      (fun _ s' => s'.config = s.config) (readyDisk c a s candidate) ↔
    candidate = s.config ∨ PutRight c a s path := by
  have hexclusive : Taken a path → ¬Uncaught a path := by
    cases path <;> simp +contextual [Taken, Uncaught]
  rw [ends_withFinally]
  simp only [installCandidate, ends_bind, ends_guardSite, ends_call, PutRight]
  rcases a.replace with _ | (_ | _)
  · rw [ends_applyOrRestore (s := s) h.prepares.cleanup rfl]
    by_cases hu : Uncaught a path
    · have ht : ¬Taken a path := fun ht => hexclusive ht hu
      simp [hu, ht]
    · by_cases ht : Taken a path
      · simp [ht, hu, readyDisk]
        cases a.raises .finish <;> simp
      · simp [ht, hu, readyDisk]
        grind
  · simp [readyDisk]
  · simp

/-! ### The whole call -/

theorem ends_iff_of_returns {α : Type} {p : Program Disk Unit α} {r : α} {P : α → Disk → Prop}
    {Q : Unit → Disk → Prop} (h : Ends p (fun r' t => r' = r ∧ t = s') (fun _ _ => False) s) :
    Ends p P Q s ↔ P r s' := by
  unfold Ends at *
  cases hp : p s with
  | ok r' t =>
    rw [hp] at h
    obtain ⟨rfl, rfl⟩ := h
    exact Iff.rfl
  | error e t =>
    rw [hp] at h
    exact h.elim

theorem ends_withFinally_of_not_replaces (hreads : c.adapter.returnsAtOnce c.op = false)
    (hlabels : c.op.labelsSafe = true) (hnone : ∀ candidate path, ¬Replaces c a s candidate path) :
    Ends
      (withFinally
        (do
          match ← prepare c a with
          | none => return none
          | some (candidate, path, backup) => installCandidate a candidate path backup)
        (guardSite a .finish))
      (fun r s' => s'.config = r.getD s.config ∧ s'.tested = r.toList ++ s.tested)
      (fun _ s' => s'.config = s.config) s := by
  rw [ends_withFinally, ends_bind]
  refine (prepare_keeps hreads hlabels).mono ?_ ?_
  · rintro (_ | ⟨candidate, path, backup⟩) s' ⟨hconfig, htested, hreplaces⟩
    · simpa [hconfig] using fun _ => htested rfl
    · exact absurd (hreplaces candidate path backup rfl) (hnone candidate path)
  · intro _ s' hconfig
    simpa using hconfig

/-- A direct apply is atomic exactly when, if it comes to a replacement that changes the file, nothing goes
wrong from there on or the backup puts it right. -/
theorem atomic_iff (c : DirectCall) (a : Answers) (s : Disk) :
    Atomic c a s ↔
      ∀ candidate path, Replaces c a s candidate path → candidate = s.config ∨ PutRight c a s path := by
  unfold Atomic operation
  by_cases hreads : c.adapter.returnsAtOnce c.op = true
  · rw [if_pos hreads]
    refine ⟨fun _ candidate path h => ?_, fun _ => ⟨rfl, rfl⟩⟩
    rw [h.reads] at hreads
    cases hreads
  rw [if_neg hreads]
  by_cases hlabels : c.op.labelsSafe = true
  swap
  · rw [if_pos (by simpa using hlabels)]
    exact ⟨fun _ candidate path h => absurd h.labels hlabels, fun _ => rfl⟩
  rw [if_neg (by simpa using hlabels)]
  by_cases h : ∃ candidate path, Replaces c a s candidate path
  · obtain ⟨candidate, path, h⟩ := h
    have hinstall := ends_installCandidate_iff h
    rw [ends_withFinally] at hinstall ⊢
    rw [ends_bind, ends_iff_of_returns (prepare_of_replaces h)]
    refine hinstall.trans ⟨fun hright candidate' path' h' => ?_, fun hright => hright candidate path h⟩
    obtain ⟨rfl, rfl⟩ : candidate = candidate' ∧ path = path' := by
      simpa using h.plan.symm.trans h'.plan
    exact hright
  · have hnone (candidate : Text) (path : Path) : ¬Replaces c a s candidate path := fun hreplaces =>
      h ⟨candidate, path, hreplaces⟩
    exact ⟨fun _ candidate path hreplaces => absurd hreplaces (hnone candidate path), fun _ =>
      ends_withFinally_of_not_replaces (by simpa using hreads) hlabels hnone⟩

/-! ### An old backup with a later time -/

def oneClientText : Text :=
  ("\x7b\"inbounds\": [\x7b\"tag\": \"vless-in\", \"protocol\": \"vless\", \"settings\": " ++
    "\x7b\"clients\": [\x7b\"id\": \"a\", \"email\": \"x\"\x7d]\x7d\x7d]\x7d").toList

/-- `json.dumps` of the config without its client. -/
def noClientText : Text :=
  ("\x7b\n  \"inbounds\": [\n    \x7b\n      \"tag\": \"vless-in\",\n      \"protocol\": \"vless\",\n" ++
    "      \"settings\": \x7b\n        \"clients\": []\n      \x7d\n    \x7d\n  ]\n\x7d\n").toList

/-- The client is removed in reload mode, with one backup to be kept. -/
def removeClientCall : DirectCall :=
  ⟨⟨fun t => (Json.loads 100 t).toOption, fun _ => noClientText⟩, ⟨"vless-in".toList, false⟩, .reload, 1,
    .removeClient (some "a".toList) none none false, .unset⟩

/-- The reload of the service fails, and all else goes well. -/
def reloadFails : Answers where
  raises _ := false
  command command := if command = .reload then .failed else .ok
  cleanup := none
  position := 0
  mtime := 1
  replace := none
  restore := none

/-- The one older backup is the newer of the two by its time, so that the new one is removed. -/
def laterBackup : Disk := ⟨oneClientText, [⟨1, 2, []⟩], []⟩

theorem not_atomic_of_raised (hraised : (result (operation c a) s).1 = none)
    (hnew : (result (operation c a) s).2.config ≠ s.config) : ¬Atomic c a s := by
  intro h
  have hold := Ends.result (R := fun r s' => r = none → s'.config = s.config)
    (h.mono (fun _ _ _ => nofun) fun _ _ hconfig _ => hconfig)
  exact hnew (hold hraised)

/-- The reload fails, there is nothing to restore from, and the new config stays. -/
theorem laterBackup_not_restored : ¬ ∀ (c : DirectCall) (a : Answers) (s : Disk), Atomic c a s := by
  refine not_forall.mpr ⟨removeClientCall, not_forall.mpr ⟨reloadFails, not_forall.mpr ⟨laterBackup, ?_⟩⟩⟩
  exact not_atomic_of_raised (by decide +kernel) (by decide +kernel)

end VpnBot.XrayConfig
