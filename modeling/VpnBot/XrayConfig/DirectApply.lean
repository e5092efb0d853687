import Mathlib.Data.List.Sort
import VpnBot.System.Calls
import VpnBot.XrayConfig.Outside

/-!
# The direct apply of a config

The public methods of `src/adapters/xray_config.py` without a privileged helper, from the lock to the reload
of the service, with `create_backup` and `restore` of `src/adapters/backup.py`.  `Answers` says of
every call whether it raises and of every command how it ends, so that a statement for all answers is one for
every pattern of failures.

The file is a text, and `json.loads` and `json.dumps` with the line feed at the end are the parameter
`Codec`.  What the commands after a restore answer is left out: they do not touch the file, and the method
raises in every case.
-/

namespace VpnBot.XrayConfig

open Py Sys Program

/-! ### Files -/

/-- A file that the pattern of the backups matches. -/
structure BackupFile where
  name : ℕ
  mtime : ℕ
  content : Text
  deriving DecidableEq

/-- The directory of the config; `tested` are the texts that `xray -test` has accepted. -/
structure Disk where
  config : Text
  backups : List BackupFile
  tested : List Text

/-- How a command ends. -/
inductive CommandRun
  | ok
  | failed
  | raised
  deriving DecidableEq

/-- The calls that do not change the config file. -/
inductive Site
  | lock | snapshot | copy | read | writeTemp | unchanged | copyStat | apiReload | finish
  deriving DecidableEq

/-- The commands; `active` is ok when the service is active. -/
inductive Command
  | currentTest | candidateTest | reload | restart | active
  deriving DecidableEq

/-- What the calls and the commands answer: which calls raise, how the commands end, after how many removals the
cleanup raises, where the new backup stands in the listing and what its time is, and how the replacement and
the restore of the file fail. -/
structure Answers where
  raises : Site → Bool
  command : Command → CommandRun
  cleanup : Option ℕ
  position : ℕ
  mtime : ℕ
  replace : Option CallFault
  restore : Option CallFault

/-- `json.loads` and `json.dumps`. -/
structure Codec where
  loads : Text → Option Json
  dumps : Json → Text

/-- `apply_mode`. -/
inductive ApplyMode
  | reload
  | restart
  | api

/-- The way of the new file into Xray, by the mode and by what the method asks for. -/
def ApplyMode.path : ApplyMode → Path → Path
  | .restart, _ => .restart
  | .reload, .restart => .restart
  | .reload, _ => .reload
  | .api, path => path

structure DirectCall where
  codec : Codec
  adapter : Adapter
  mode : ApplyMode
  keepLast : ℕ
  op : Op
  provider : SendThrough

/-- What the method makes of the text of the config: it raises, it changes nothing, or there is a candidate
with its path. -/
def DirectCall.plan (c : DirectCall) (config : Text) : Option (Option (Text × Path)) := do
  let data ← c.codec.loads config
  if !data.isObj then none
  let inbound ← c.adapter.findTarget data
  let edit ← c.op.edit inbound
  return edit.map fun (edited, path) =>
    (c.codec.dumps (writeTempConfig c.provider (c.adapter.mapTarget (fun _ => edited) data)),
      c.mode.path path)

/-! ### Steps -/

/-- A call that may raise. -/
def guardSite (a : Answers) (site : Site) : Program Disk Unit Unit :=
  if a.raises site then throw () else pure ()

/-- A command that the method insists on. -/
def require (a : Answers) (command : Command) : Program Disk Unit Unit :=
  if a.command command = .ok then pure () else throw ()

/-- A command whose failure is looked at. -/
def attemptCommand (a : Answers) (command : Command) : Program Disk Unit Bool :=
  match a.command command with
  | .ok => pure true
  | .failed => pure false
  | .raised => throw ()

def freshName (backups : List BackupFile) : ℕ := (backups.map BackupFile.name).foldr max 0 + 1

/-- The listing of `cleanup_old_backups`, newest first; the sort is stable. -/
def newestFirst (listing : List BackupFile) : List BackupFile :=
  listing.insertionSort fun f g => g.mtime ≤ f.mtime

/-- The listing with the new backup at its place. -/
def listingWith (a : Answers) (backup : BackupFile) (backups : List BackupFile) : List BackupFile :=
  backups.take a.position ++ backup :: backups.drop a.position

/-- What the cleanup leaves, when it raises after some removals too. -/
def cleaned (a : Answers) (keepLast : ℕ) (listing : List BackupFile) : List BackupFile :=
  if keepLast = 0 then listing
  else (newestFirst listing).take keepLast ++
    (a.cleanup.map fun n => ((newestFirst listing).drop keepLast).drop n).getD []

/-- The backup that a call makes of the config. -/
def backupOf (a : Answers) (s : Disk) : BackupFile := ⟨freshName s.backups, a.mtime, s.config⟩

/-- `create_backup`. -/
def createBackup (a : Answers) (keepLast : ℕ) : Program Disk Unit BackupFile := do
  guardSite a .copy
  let s ← get
  let backup := backupOf a s
  modify fun s => { s with backups := cleaned a keepLast (listingWith a backup s.backups) }
  if keepLast ≠ 0 ∧ a.cleanup.isSome then throw ()
  return backup

/-- `restore`. -/
def restore (a : Answers) (backup : BackupFile) : Program Disk Unit Unit := do
  let s ← get
  match s.backups.find? fun f => f.name = backup.name with
  | none => throw ()
  | some f => call a.restore () fun s => { s with config := f.content }

/-- The part of a method up to the replacement of the file: a candidate that has passed the test, or
nothing to do. -/
def prepare (c : DirectCall) (a : Answers) : Program Disk Unit (Option (Text × Path × BackupFile)) := do
  guardSite a .lock
  require a .currentTest
  guardSite a .snapshot
  let backup ← createBackup a c.keepLast
  guardSite a .read
  let s ← get
  match c.plan s.config with
  | none => throw ()
  | some none => return none
  | some (some (candidate, path)) =>
    guardSite a .writeTemp
    require a .candidateTest
    modify fun s => { s with tested := candidate :: s.tested }
    guardSite a .unchanged
    guardSite a .copyStat
    return some (candidate, path, backup)

/-- Whether the service has taken the file. -/
def applied (a : Answers) : Path → Program Disk Unit Bool
  | .reload => do
    if ← attemptCommand a .reload then attemptCommand a .active else return false
  | .restart => do
    if ← attemptCommand a .restart then attemptCommand a .active else return false
  | .api => return !a.raises .apiReload

/-- `_apply_or_restore` and the end of `_install_candidate_api`. -/
def applyOrRestore (a : Answers) (path : Path) (backup : BackupFile) : Program Disk Unit Unit := do
  if ← applied a path then return
  restore a backup
  throw ()

/-- The part of a method from the replacement of the file on. -/
def installCandidate (a : Answers) (candidate : Text) (path : Path) (backup : BackupFile) :
    Program Disk Unit (Option Text) := do
  call a.replace () fun s => { s with config := candidate }
  applyOrRestore a path backup
  return some candidate

/-- `try: … finally: …`. -/
def withFinally {α : Type} (body : Program Disk Unit α) (final : Program Disk Unit Unit) :
    Program Disk Unit α := do
  let r ← tryCatch (some <$> body) fun _ => return none
  final
  match r with
  | some value => return value
  | none => throw ()

/-- A public method; it returns the candidate that it has installed, if it has installed one. -/
def operation (c : DirectCall) (a : Answers) : Program Disk Unit (Option Text) := do
  if c.adapter.returnsAtOnce c.op then return none
  else if !c.op.labelsSafe then throw ()
  else
    withFinally
      (do
        match ← prepare c a with
        | none => return none
        | some (candidate, path, backup) => installCandidate a candidate path backup)
      (guardSite a .finish)

end VpnBot.XrayConfig
