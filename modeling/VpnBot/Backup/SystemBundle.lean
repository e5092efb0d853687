import VpnBot.Python.Fnmatch
import VpnBot.Python.Sha256
import VpnBot.System.Run

/-!
# The system bundle of the offsite backup

`_build_system_tar` of `src/services/offsite_backup.py`: the sources are walked, every path that is found
gets one entry in the manifest, and the bytes of the regular files go into the archive.

What the script finds on the disk is a parameter (`Host`): the host may change at any time, but each path is
visited once only.  `is_symlink` raises for other errors than those of a missing path, and that ends the
whole build.

Not modelled: the JSON text of the manifest, its `created_at`, and the compression.
-/

namespace VpnBot.Backup

open Py Sys

/-! ### Paths -/

/-- A name in a directory, and a component of a path. -/
abbrev Name := { t : Text // t ≠ [] ∧ '/' ∉ t ∧ t ≠ ['.'] }

/-- An absolute path; two leading slashes have a meaning of their own. -/
structure Path where
  doubled : Bool
  parts : List Name
  deriving DecidableEq

namespace Path

/-- `str(path)`. -/
def str (path : Path) : Text :=
  (if path.doubled then ['/', '/'] else ['/']) ++ join '/' (path.parts.map Subtype.val)

/-- `path.name`. -/
def name (path : Path) : Text := (path.parts.getLast?.map Subtype.val).getD []

/-- `base / name`. -/
def child (base : Path) (name : Name) : Path := { base with parts := base.parts ++ [name] }

end Path

/-! ### The walk -/

/-- What the walk finds at a path; a missing path is like a file. -/
inductive Node
  | file
  | symlink (toDir : Bool)
  | dir (entries : List (Name × Node))

/-- `_SKIP_DIR_NAMES`. -/
def SKIP_DIR_NAMES : List Text :=
  ["__pycache__", ".git", ".mypy_cache", ".pytest_cache", ".ruff_cache", "node_modules", "lost+found"].map
    String.toList

/-- The entry is listed among the directories by `os.walk`. -/
def Node.isDir : Node → Bool
  | .file => false
  | .symlink toDir => toDir
  | .dir _ => true

/-- The entry is a symbolic link. -/
def Node.isSymlink : Node → Bool
  | .symlink _ => true
  | _ => false

/-- An entry of a directory, with the paths below it. -/
structure Listed where
  name : Name
  isDir : Bool
  isSymlink : Bool
  below : List Path

/-- What one directory adds: its files, its links to directories, and then what is below its directories. -/
def foundIn (base : Path) (listed : List Listed) : List Path :=
  let sorted := listed.insertionSort fun a b => textLe a.name.val b.name.val = true
  let dirs := sorted.filter fun entry => entry.isDir && decide (entry.name.val ∉ SKIP_DIR_NAMES)
  (sorted.filter fun entry => !entry.isDir).map (fun entry => base.child entry.name) ++
    (dirs.filter Listed.isSymlink).map (fun entry => base.child entry.name) ++
      (dirs.filter fun entry => !entry.isSymlink).flatMap Listed.below

mutual

/-- `os.walk` without following links. -/
def walkBelow (base : Path) : Node → List Path
  | .dir entries => foundIn base (listedOf base entries)
  | _ => []

/-- The entries of a directory, each with what is below it. -/
def listedOf (base : Path) : List (Name × Node) → List Listed
  | [] => []
  | (name, node) :: entries =>
    ⟨name, node.isDir, node.isSymlink, walkBelow (base.child name) node⟩ :: listedOf base entries

end

/-- `_walk_source`. -/
def walkSource (source : Path) : Node → List Path
  | .dir entries => walkBelow source (.dir entries)
  | _ => [source]

/-! ### The bundle -/

/-- What the script finds on the disk; an error is the name of its class. -/
structure Host where
  tree : Path → Except Text Node
  isSymlink : Path → Except Text Bool
  readlink : Path → Except Text Text
  size : Path → Except Text ℕ
  readBytes : Path → Except Text (List UInt8)

inductive EntryKind
  | file
  | symlink
  deriving DecidableEq

/-- What has become of a path. -/
inductive Outcome
  | skipped (reason : Text) (size : Option ℕ)
  | link (target : Text)
  | stored (member : Text) (size : ℕ) (sha256 : Text)
  deriving DecidableEq

structure Entry where
  path : Text
  kind : EntryKind
  outcome : Outcome
  deriving DecidableEq

/-- `entry["included"]`. -/
def Outcome.included : Outcome → Bool
  | .skipped _ _ => false
  | _ => true

/-- The reason why the path was left out. -/
def Outcome.reason? : Outcome → Option Text
  | .skipped reason _ => some reason
  | _ => none

/-- `_SYSTEM_EXCLUDE_GLOBS`. -/
def SYSTEM_EXCLUDE_GLOBS : List Text := ["ssh_host_*_key".toList]

/-- `_SYSTEM_MAX_FILE_BYTES`. -/
def SYSTEM_MAX_FILE_BYTES : ℕ := 8 * 1024 * 1024

/-- `_SYSTEM_MAX_TOTAL_BYTES`. -/
def SYSTEM_MAX_TOTAL_BYTES : ℕ := 32 * 1024 * 1024

/-- `_system_excluded`. -/
def systemExcluded (systemExclude : List Text) (path : Path) : Bool :=
  SYSTEM_EXCLUDE_GLOBS.any (Fnmatch.fnmatchcase path.name) ||
    systemExclude.any (Fnmatch.fnmatchcase path.str)

/-- `_safe_arcname`. -/
def safeArcname (source : Path) : Text :=
  let parts := (splitAt '/' source.str).filter fun part => part ∉ [[], ['.'], ['.', '.']]
  if (join '/' parts).isEmpty then source.name else join '/' parts

def memberName (path : Path) : Text := "files/".toList ++ safeArcname path

/-- The variables of the loop. -/
structure Progress where
  seen : List Path
  files : List Entry
  blobs : List (Text × List UInt8)
  totalBytes : ℕ
  truncated : Bool

namespace Progress

/-- An entry is appended to the manifest. -/
def note (path : Path) (kind : EntryKind) (outcome : Outcome) (s : Progress) : Progress :=
  { s with files := s.files ++ [⟨path.str, kind, outcome⟩] }

/-- The bytes of a file go into the archive. -/
def store (path : Path) (data : List UInt8) (s : Progress) : Progress :=
  { s.note path .file (.stored (memberName path) data.length (Sha256.hexdigestBytes data)) with
    blobs := s.blobs ++ [(memberName path, data)]
    totalBytes := s.totalBytes + data.length }

/-- A file that a limit keeps out. -/
def leaveOut (path : Path) (reason : String) (size : ℕ) (s : Progress) : Progress :=
  { s.note path .file (.skipped reason.toList (some size)) with truncated := true }

def visitLink (host : Host) (path : Path) (s : Progress) : Progress :=
  match host.readlink path with
  | .error reason => s.note path .symlink (.skipped reason none)
  | .ok target => s.note path .symlink (.link target)

def visitFile (host : Host) (path : Path) (s : Progress) : Progress :=
  match host.size path with
  | .error reason => s.note path .file (.skipped reason none)
  | .ok size =>
    if SYSTEM_MAX_FILE_BYTES < size then s.leaveOut path "too_large" size
    else if SYSTEM_MAX_TOTAL_BYTES < s.totalBytes + size then s.leaveOut path "bundle_size_limit" size
    else
      match host.readBytes path with
      | .error reason => s.note path .file (.skipped reason none)
      | .ok data => s.store path data

end Progress

/-- The loop over the paths, for one path. -/
def visit (host : Host) (systemExclude : List Text) (s : Progress) (path : Path) : Except Text Progress :=
  if path ∈ s.seen then .ok s
  else (host.isSymlink path).map fun isLink =>
    let s := { s with seen := s.seen ++ [path] }
    if systemExcluded systemExclude path then
      s.note path (if isLink then .symlink else .file) (.skipped "excluded_by_policy".toList none)
    else if isLink then s.visitLink host path
    else s.visitFile host path

/-- The `summary` of the manifest. -/
structure Summary where
  sources : List Text
  filesIncluded : ℕ
  filesSkipped : ℕ
  symlinks : ℕ
  skippedByReason : List (Text × ℕ)
  bytesIncluded : ℕ
  truncated : Bool

/-- The archive: the manifest and the members. -/
structure Bundle where
  summary : Summary
  files : List Entry
  blobs : List (Text × List UInt8)

/-- `Counter(…)` of the reasons, sorted. -/
def countReasons (files : List Entry) : List (Text × ℕ) :=
  let reasons := files.filterMap fun e => e.outcome.reason?
  (sortTexts reasons.dedup).map fun reason => (reason, reasons.count reason)

/-- The summary over the entries. -/
def summarise (sources : List Path) (s : Progress) : Summary where
  sources := sources.map Path.str
  filesIncluded := s.files.countP fun e => e.kind = .file && e.outcome.included
  filesSkipped := s.files.countP fun e => e.kind = .file && !e.outcome.included
  symlinks := s.files.countP fun e => e.kind = .symlink && e.outcome.included
  skippedByReason := countReasons s.files
  bytesIncluded := s.totalBytes
  truncated := s.truncated

/-- The paths that the walk of the sources produces. -/
def walkSources (host : Host) : List Path → Except Text (List Path)
  | [] => .ok []
  | source :: sources => do
    let node ← host.tree source
    let rest ← walkSources host sources
    return walkSource source node ++ rest

/-- Before the loop. -/
def Progress.start : Progress := ⟨[], [], [], 0, false⟩

/-- `_build_system_tar`; nothing without a stored file. -/
def buildSystemTar (host : Host) (sources : List Path) (systemExclude : List Text) :
    Except Text (Option Bundle) := do
  let paths ← walkSources host sources
  let s ← paths.foldlM (visit host systemExclude) .start
  return if s.blobs.isEmpty then none else some ⟨summarise sources s, s.files, s.blobs⟩

end VpnBot.Backup
