import VpnBot.Backup.SystemBundle
import VpnBot.Python.Basic

/-!
# What the system bundle accounts for

Each visit of a path leaves one entry, and the entries, the members and the counters stay in step
(`InStep`).  Two things depend on the disk: whether the member of a file has the name of an earlier one, and
whether the file has outgrown the limit since its size was taken (`SafeToStore`).
-/

namespace VpnBot.Backup

open Py Sys

variable {host : Host} {systemExclude : List Text} {s s' : Progress} {path : Path} {data : List UInt8}
  {paths sources : List Path} {bundle : Bundle}

/-! ### The text of a path -/

theorem head_join_names (parts : List Name) : (join '/' (parts.map Subtype.val)).head? ≠ some '/' := by
  cases parts with
  | nil => exact nofun
  | cons part parts =>
    obtain ⟨t, hne, hslash, hdot⟩ := part
    cases t with
    | nil => exact absurd rfl hne
    | cons c t =>
      have hc : c ≠ '/' := fun h => hslash (h ▸ List.mem_cons_self)
      cases parts <;> simpa [join, List.intercalate, List.intersperse] using hc

theorem join_names_injective {ps qs : List Name}
    (h : join '/' (ps.map Subtype.val) = join '/' (qs.map Subtype.val)) : ps = qs := by
  have hnames : ∀ l : List Name, ∀ t ∈ l.map Subtype.val, '/' ∉ t := by
    intro l t ht
    obtain ⟨name, _, rfl⟩ := List.mem_map.1 ht
    exact name.2.2.1
  have hempty : ∀ l : List Name, [] ∉ l.map Subtype.val := by
    intro l hl
    obtain ⟨name, _, hname⟩ := List.mem_map.1 hl
    exact name.2.1 hname
  have hsplit : ∀ l : List Name, splitAt '/' (join '/' (l.map Subtype.val)) =
      if l = [] then [[]] else l.map Subtype.val := by
    intro l
    split_ifs with hl
    · subst hl
      rfl
    · exact splitAt_join (fun h => hl (List.map_eq_nil_iff.1 h)) (hnames l)
  have heq := (hsplit ps).symm.trans ((congrArg (splitAt '/') h).trans (hsplit qs))
  split_ifs at heq with hp hq hq
  · rw [hp, hq]
  · exact absurd (heq ▸ List.mem_cons_self) (hempty qs)
  · exact absurd (heq ▸ List.mem_cons_self) (hempty ps)
  · exact List.map_injective_iff.2 Subtype.val_injective heq

theorem str_injective : Function.Injective Path.str := by
  rintro ⟨dp, ps⟩ ⟨dq, qs⟩ h
  have hp := head_join_names ps
  have hq := head_join_names qs
  cases dp <;> cases dq
  · have hjoin : join '/' (ps.map Subtype.val) = join '/' (qs.map Subtype.val) :=
      List.append_cancel_left h
    rw [join_names_injective hjoin]
  · have hjoin : join '/' (ps.map Subtype.val) = '/' :: join '/' (qs.map Subtype.val) := List.tail_eq_of_cons_eq h
    exact absurd (congrArg List.head? hjoin) hp
  · have hjoin : '/' :: join '/' (ps.map Subtype.val) = join '/' (qs.map Subtype.val) := List.tail_eq_of_cons_eq h
    exact absurd (congrArg List.head? hjoin).symm hq
  · have hjoin : join '/' (ps.map Subtype.val) = join '/' (qs.map Subtype.val) :=
      List.append_cancel_left h
    rw [join_names_injective hjoin]

/-! ### A visit -/

/-- The visit of the path reads the file, and finds these bytes. -/
structure Reads (host : Host) (systemExclude : List Text) (s : Progress) (path : Path)
    (data : List UInt8) : Prop where
  new : path ∉ s.seen
  regular : host.isSymlink path = .ok false
  wanted : systemExcluded systemExclude path = false
  fits : ∃ size, host.size path = .ok size ∧ size ≤ SYSTEM_MAX_FILE_BYTES ∧
    s.totalBytes + size ≤ SYSTEM_MAX_TOTAL_BYTES
  read : host.readBytes path = .ok data

inductive Visited (host : Host) (systemExclude : List Text) (s : Progress) (path : Path) :
    Progress → Prop
  | known (hseen : path ∈ s.seen) : Visited host systemExclude s path s
  | noted (s' : Progress) (kind : EntryKind) (outcome : Outcome) (hnew : path ∉ s.seen)
      (hseen : s'.seen = s.seen ++ [path]) (hfiles : s'.files = s.files ++ [⟨path.str, kind, outcome⟩])
      (hblobs : s'.blobs = s.blobs) (htotal : s'.totalBytes = s.totalBytes)
      (hkind : kind = .file → outcome.included = false)
      (houtcome : ∀ member size sha256, outcome ≠ .stored member size sha256)
      (hreads : ∀ data, ¬Reads host systemExclude s path data) : Visited host systemExclude s path s'
  | stored (data : List UInt8) (hreads : Reads host systemExclude s path data) :
      Visited host systemExclude s path ({ s with seen := s.seen ++ [path] }.store path data)

theorem visited_of_visitFile (hnew : path ∉ s.seen) (hregular : host.isSymlink path = .ok false)
    (hwanted : systemExcluded systemExclude path = false) :
    Visited host systemExclude s path ({ s with seen := s.seen ++ [path] }.visitFile host path) := by
  unfold Progress.visitFile
  cases hsize : host.size path with
  | error reason =>
    refine .noted _ _ _ hnew rfl rfl rfl rfl (fun _ => rfl) nofun fun data h => ?_
    obtain ⟨size, hok, _⟩ := h.fits
    exact nomatch hsize.symm.trans hok
  | ok size =>
    dsimp only
    split_ifs with hfile htotal
    · refine .noted _ _ _ hnew rfl rfl rfl rfl (fun _ => rfl) nofun fun data h => ?_
      obtain ⟨size', hok, hle, _⟩ := h.fits
      cases hsize.symm.trans hok
      exact absurd hle (not_le.2 hfile)
    · refine .noted _ _ _ hnew rfl rfl rfl rfl (fun _ => rfl) nofun fun data h => ?_
      obtain ⟨size', hok, _, hle⟩ := h.fits
      cases hsize.symm.trans hok
      exact absurd hle (not_le.2 htotal)
    · cases hread : host.readBytes path with
      | error reason =>
        refine .noted _ _ _ hnew rfl rfl rfl rfl (fun _ => rfl) nofun fun data h => ?_
        exact nomatch hread.symm.trans h.read
      | ok data =>
        exact .stored data ⟨hnew, hregular, hwanted, ⟨size, hsize, not_lt.1 hfile, not_lt.1 htotal⟩, hread⟩

theorem visited_of_visit (h : visit host systemExclude s path = .ok s') :
    Visited host systemExclude s path s' := by
  unfold visit at h
  by_cases hseen : path ∈ s.seen
  · rw [if_pos hseen] at h
    cases h
    exact .known hseen
  · rw [if_neg hseen] at h
    cases hlink : host.isSymlink path with
    | error reason => simp [hlink, Except.map] at h
    | ok isLink =>
      rw [hlink] at h
      cases h
      dsimp only
      by_cases hexcluded : systemExcluded systemExclude path = true
      · rw [if_pos hexcluded]
        refine .noted _ _ _ hseen rfl rfl rfl rfl (fun _ => rfl) nofun fun data h => ?_
        exact Bool.false_ne_true (h.wanted.symm.trans hexcluded)
      · rw [if_neg hexcluded]
        cases isLink with
        | false => exact visited_of_visitFile hseen hlink (Bool.eq_false_iff.2 hexcluded)
        | true =>
          have hreads : ∀ data, ¬Reads host systemExclude s path data :=
            fun data h => nomatch hlink.symm.trans h.regular
          rw [if_pos rfl]
          unfold Progress.visitLink
          cases host.readlink path with
          | error reason => exact .noted _ _ _ hseen rfl rfl rfl rfl (fun _ => rfl) nofun hreads
          | ok target => exact .noted _ _ _ hseen rfl rfl rfl rfl nofun nofun hreads

/-! ### The entries and the members -/

/-- A stored entry: its member, the size and the digest. -/
def Entry.stored? (e : Entry) : Option (Text × ℕ × Text) :=
  match e.outcome with
  | .stored member size sha256 => some (member, size, sha256)
  | _ => none

/-- What the manifest says of a member. -/
def describe (blob : Text × List UInt8) : Text × ℕ × Text :=
  (blob.1, blob.2.length, Sha256.hexdigestBytes blob.2)

def storedBytes (blobs : List (Text × List UInt8)) : ℕ := (blobs.map fun blob => blob.2.length).sum

/-- The entries, the members and the counter are in step with the visited paths. -/
structure InStep (systemExclude : List Text) (s : Progress) : Prop where
  nodup : s.seen.Nodup
  entries : s.files.map Entry.path = s.seen.map Path.str
  members : s.files.filterMap Entry.stored? = s.blobs.map describe
  total : s.totalBytes = storedBytes s.blobs
  regular : ∀ e ∈ s.files, (e.kind = .file ∧ e.outcome.included = true) ↔ e.stored?.isSome = true
  wanted : ∀ e ∈ s.files, e.stored?.isSome = true →
    ∃ path, e.path = path.str ∧ systemExcluded systemExclude path = false

theorem inStep_start : InStep systemExclude .start :=
  ⟨List.nodup_nil, rfl, rfl, rfl, fun _ h => absurd h List.not_mem_nil,
    fun _ h => absurd h List.not_mem_nil⟩

theorem InStep.visited (h : InStep systemExclude s) (hvisit : Visited host systemExclude s path s') :
    InStep systemExclude s' := by
  cases hvisit with
  | known hseen => exact h
  | noted _ kind outcome hnew hseen hfiles hblobs htotal hkind houtcome hreads =>
    have hstored : Entry.stored? ⟨path.str, kind, outcome⟩ = none := by
      cases outcome with
      | stored member size sha256 => exact absurd rfl (houtcome member size sha256)
      | _ => rfl
    refine ⟨?_, ?_, ?_, ?_, ?_, ?_⟩
    · rw [hseen]
      exact List.nodup_append.2 ⟨h.nodup, List.nodup_singleton path, by
        rintro a ha b hb rfl
        exact hnew (List.mem_singleton.1 hb ▸ ha)⟩
    · rw [hfiles, hseen, List.map_append, List.map_append, h.entries]
      rfl
    · rw [hfiles, hblobs, List.filterMap_append, h.members, List.filterMap_cons_none hstored,
        List.filterMap_nil, List.append_nil]
    · rw [htotal, hblobs, h.total]
    · intro e he
      rw [hfiles, List.mem_append, List.mem_singleton] at he
      rcases he with he | rfl
      · exact h.regular e he
      · rw [hstored]
        refine iff_of_false (fun hfile => ?_) Bool.false_ne_true
        exact Bool.false_ne_true ((hkind hfile.1).symm.trans hfile.2)
    · intro e he hsome
      rw [hfiles, List.mem_append, List.mem_singleton] at he
      rcases he with he | rfl
      · exact h.wanted e he hsome
      · rw [hstored] at hsome
        exact absurd hsome Bool.false_ne_true
  | stored data hreads =>
    refine ⟨?_, ?_, ?_, ?_, ?_, ?_⟩
    · exact List.nodup_append.2 ⟨h.nodup, List.nodup_singleton path, by
        rintro a ha b hb rfl
        exact hreads.new (List.mem_singleton.1 hb ▸ ha)⟩
    · change (s.files ++ [_]).map Entry.path = (s.seen ++ [path]).map Path.str
      rw [List.map_append, List.map_append, h.entries]
      rfl
    · change (s.files ++ [_]).filterMap Entry.stored? = (s.blobs ++ [_]).map describe
      rw [List.filterMap_append, List.map_append, h.members]
      rfl
    · change s.totalBytes + data.length = storedBytes (s.blobs ++ [_])
      rw [h.total, storedBytes, storedBytes, List.map_append, List.sum_append]
      rfl
    · intro e he
      rcases List.mem_append.1 he with he | he
      · exact h.regular e he
      · rw [List.mem_singleton.1 he]
        exact iff_of_true ⟨rfl, rfl⟩ rfl
    · intro e he hsome
      rcases List.mem_append.1 he with he | he
      · exact h.wanted e he hsome
      · rw [List.mem_singleton.1 he]
        exact ⟨path, rfl, hreads.wanted⟩

theorem mem_seen_of_visited (hvisit : Visited host systemExclude s path s') (p : Path) :
    p ∈ s'.seen ↔ p ∈ s.seen ∨ p = path := by
  cases hvisit with
  | known hseen =>
    refine ⟨Or.inl, ?_⟩
    rintro (h | rfl)
    · exact h
    · exact hseen
  | noted _ kind outcome hnew hseen => rw [hseen, List.mem_append, List.mem_singleton]
  | stored data hreads =>
    change p ∈ s.seen ++ [path] ↔ _
    rw [List.mem_append, List.mem_singleton]

/-! ### The loop -/

def visitStep (host : Host) (systemExclude : List Text) (s : Progress) (path : Path) : Option Progress :=
  (visit host systemExclude s path).toOption

theorem visited_of_visitStep (h : visitStep host systemExclude s path = some s') :
    Visited host systemExclude s path s' := by
  unfold visitStep at h
  cases hvisit : visit host systemExclude s path with
  | error reason => simp [hvisit, Except.toOption] at h
  | ok s₁ =>
    rw [hvisit] at h
    cases h
    exact visited_of_visit hvisit

theorem runFrom_of_foldlM (h : paths.foldlM (visit host systemExclude) s = .ok s') :
    runFrom (visitStep host systemExclude) s paths = some s' := by
  induction paths generalizing s with
  | nil =>
    cases h
    rfl
  | cons path paths ih =>
    rw [List.foldlM_cons] at h
    obtain ⟨m, hm, hrest⟩ := bind_eq_ok.1 h
    refine runFrom_cons.2 ⟨m, ?_, ih hrest⟩
    rw [visitStep, hm]
    rfl

theorem inStep_of_run (hrun : runFrom (visitStep host systemExclude) .start paths = some s) :
    InStep systemExclude s :=
  invariant_of_allowed (fun _ _ _ hinv _ hstep => hinv.visited (visited_of_visitStep hstep)) inStep_start
    (allowed_of_forall (fun _ _ _ => trivial) _) hrun

theorem mem_seen_of_run (hrun : runFrom (visitStep host systemExclude) s paths = some s') (p : Path) :
    p ∈ s'.seen ↔ p ∈ s.seen ∨ p ∈ paths := by
  induction paths generalizing s with
  | nil =>
    cases hrun
    simp
  | cons path paths ih =>
    obtain ⟨m, hm, hrest⟩ := runFrom_cons.1 hrun
    rw [ih hrest, mem_seen_of_visited (visited_of_visitStep hm), List.mem_cons, or_assoc]

/-! ### What depends on the disk -/

/-- The bytes that the visit reads may be stored: no earlier member has the name, and they fit. -/
def SafeToStore (host : Host) (systemExclude : List Text) (s : Progress) (path : Path) : Prop :=
  ∀ data, Reads host systemExclude s path data →
    memberName path ∉ s.blobs.map Prod.fst ∧ s.totalBytes + data.length ≤ SYSTEM_MAX_TOTAL_BYTES

/-- The members have different names, and the bytes are within the limit. -/
structure Extractable (s : Progress) : Prop where
  names : (s.blobs.map Prod.fst).Nodup
  bytes : s.totalBytes ≤ SYSTEM_MAX_TOTAL_BYTES

/-- **The members stay apart and within the limit exactly when what is read may be stored.** -/
theorem extractable_visited_iff (hvisit : Visited host systemExclude s path s') :
    Extractable s' ↔ Extractable s ∧ SafeToStore host systemExclude s path := by
  cases hvisit with
  | known hseen => exact (and_iff_left fun data hreads => absurd hseen hreads.new).symm
  | noted _ kind outcome hnew hseen hfiles hblobs htotal hkind houtcome hreads =>
    have hsafe : SafeToStore host systemExclude s path := fun data h => absurd h (hreads data)
    have hsame : Extractable s' ↔ Extractable s := by
      constructor
      · rintro ⟨hnames, hbytes⟩
        exact ⟨hblobs ▸ hnames, htotal ▸ hbytes⟩
      · rintro ⟨hnames, hbytes⟩
        exact ⟨hblobs.symm ▸ hnames, htotal.symm ▸ hbytes⟩
    rw [hsame, and_iff_left hsafe]
  | stored data hreads =>
    have hnames : ((s.blobs ++ [(memberName path, data)]).map Prod.fst).Nodup ↔
        (s.blobs.map Prod.fst).Nodup ∧ memberName path ∉ s.blobs.map Prod.fst := by
      rw [List.map_append, List.map_singleton, List.nodup_append]
      constructor
      · rintro ⟨h, _, hdisjoint⟩
        exact ⟨h, fun hmem => hdisjoint _ hmem _ List.mem_cons_self rfl⟩
      · rintro ⟨h, hmem⟩
        refine ⟨h, List.nodup_singleton _, ?_⟩
        rintro a ha b hb rfl
        rw [List.mem_singleton.1 hb] at ha
        exact hmem ha
    constructor
    · rintro ⟨h, hbytes⟩
      obtain ⟨hold, hnew⟩ := hnames.1 h
      change s.totalBytes + data.length ≤ _ at hbytes
      refine ⟨⟨hold, (Nat.le_add_right _ _).trans hbytes⟩, fun data' hreads' => ?_⟩
      cases hreads.read.symm.trans hreads'.read
      exact ⟨hnew, hbytes⟩
    · rintro ⟨h, hsafe⟩
      obtain ⟨hnew, hbytes⟩ := hsafe data hreads
      exact ⟨hnames.2 ⟨h.names, hnew⟩, hbytes⟩

theorem extractable_start : Extractable .start := ⟨List.nodup_nil, Nat.zero_le _⟩

/-! ### The summary -/

/-- The counters of the summary are the numbers of entries of each kind and reason, and of the bytes. -/
structure Counted (bundle : Bundle) : Prop where
  filesIncluded : bundle.summary.filesIncluded =
    bundle.files.countP fun e => e.kind = .file && e.outcome.included
  filesSkipped : bundle.summary.filesSkipped =
    bundle.files.countP fun e => e.kind = .file && !e.outcome.included
  symlinks : bundle.summary.symlinks = bundle.files.countP fun e => e.kind = .symlink && e.outcome.included
  reasons : (bundle.summary.skippedByReason.map Prod.fst).Nodup ∧
    ∀ reason n, (reason, n) ∈ bundle.summary.skippedByReason ↔
      0 < n ∧ n = bundle.files.countP fun e => e.outcome.reason? = some reason
  bytes : bundle.summary.bytesIncluded = storedBytes bundle.blobs

theorem keys_countReasons (files : List Entry) :
    (countReasons files).map Prod.fst = sortTexts (files.filterMap fun e => e.outcome.reason?).dedup := by
  simp [countReasons, Function.comp_def]

theorem nodup_countReasons (files : List Entry) : ((countReasons files).map Prod.fst).Nodup := by
  rw [keys_countReasons, sortTexts, (List.perm_insertionSort _ _).nodup_iff]
  exact List.nodup_dedup _

theorem mem_countReasons {files : List Entry} {reason : Text} {n : ℕ} :
    (reason, n) ∈ countReasons files ↔
      0 < n ∧ n = files.countP fun e => e.outcome.reason? = some reason := by
  have hcount : (files.filterMap fun e => e.outcome.reason?).count reason =
      files.countP fun e => e.outcome.reason? = some reason := by
    rw [List.count_filterMap]
    exact List.countP_congr fun e _ => by simp
  have hmem : reason ∈ sortTexts (files.filterMap fun e => e.outcome.reason?).dedup ↔
      0 < files.countP fun e => e.outcome.reason? = some reason := by
    rw [sortTexts, (List.perm_insertionSort _ _).mem_iff, List.mem_dedup, ← hcount, List.count_pos_iff]
  simp only [countReasons, List.mem_map, Prod.mk.injEq]
  constructor
  · rintro ⟨_, hreason, rfl, rfl⟩
    exact ⟨hcount ▸ hmem.1 hreason, hcount⟩
  · rintro ⟨hpos, rfl⟩
    exact ⟨reason, hmem.2 hpos, rfl, hcount⟩

/-! ### The result -/

/-- The bundle accounts for the paths. -/
structure Accounts (systemExclude : List Text) (paths : List Path) (bundle : Bundle) : Prop where
  /-- Each path has exactly one entry, and there are no others. -/
  entries : (bundle.files.map Entry.path).Nodup ∧
    ∀ t, t ∈ bundle.files.map Entry.path ↔ ∃ path ∈ paths, path.str = t
  /-- The included files are those that are stored, -/
  regular : ∀ e ∈ bundle.files, (e.kind = .file ∧ e.outcome.included = true) ↔ e.stored?.isSome = true
  /-- and one to one the members, each with its size and its digest. -/
  members : bundle.files.filterMap Entry.stored? = bundle.blobs.map describe
  names : (bundle.blobs.map Prod.fst).Nodup
  excluded : ∀ path, systemExcluded systemExclude path = true →
    ∀ e ∈ bundle.files, e.path = path.str → e.stored? = none
  counted : Counted bundle
  bytes : storedBytes bundle.blobs ≤ SYSTEM_MAX_TOTAL_BYTES

theorem run_of_buildSystemTar (hpaths : walkSources host sources = .ok paths)
    (h : buildSystemTar host sources systemExclude = .ok (some bundle)) :
    ∃ s, runFrom (visitStep host systemExclude) .start paths = some s ∧
      bundle = ⟨summarise sources s, s.files, s.blobs⟩ := by
  obtain ⟨paths', hpaths', h⟩ := bind_eq_ok.1 h
  cases hpaths.symm.trans hpaths'
  obtain ⟨s, hfold, h⟩ := bind_eq_ok.1 h
  refine ⟨s, runFrom_of_foldlM hfold, ?_⟩
  by_cases hempty : s.blobs.isEmpty = true
  · rw [if_pos hempty] at h
    exact nomatch h
  · rw [if_neg hempty] at h
    cases h
    rfl

/-- **The bundle accounts for everything exactly when each file that is read may be stored.** -/
theorem accounts_iff (hpaths : walkSources host sources = .ok paths)
    (h : buildSystemTar host sources systemExclude = .ok (some bundle)) :
    Accounts systemExclude paths bundle ↔
      Allowed (visitStep host systemExclude) (SafeToStore host systemExclude) .start paths := by
  obtain ⟨s, hrun, rfl⟩ := run_of_buildSystemTar hpaths h
  have hinv := inStep_of_run hrun
  have hextract := (reached_iff_allowed (fun _ _ _ hstep =>
    extractable_visited_iff (visited_of_visitStep hstep)) hrun).trans (and_iff_right extractable_start)
  rw [← hextract]
  constructor
  · exact fun haccounts => ⟨haccounts.names, hinv.total ▸ haccounts.bytes⟩
  · rintro ⟨hnames, hbytes⟩
    refine ⟨⟨?_, fun t => ?_⟩, hinv.regular, hinv.members, hnames, ?_, ?_, hinv.total ▸ hbytes⟩
    · rw [hinv.entries]
      exact hinv.nodup.map str_injective
    · simp only [hinv.entries, List.mem_map, mem_seen_of_run hrun, Progress.start, List.not_mem_nil,
        false_or]
    · intro path hexcluded e he hpath
      by_contra hstored
      obtain ⟨path', hpath', hwanted⟩ := hinv.wanted e he (Option.isSome_iff_ne_none.2 hstored)
      rw [str_injective (hpath.symm.trans hpath')] at hexcluded
      exact Bool.false_ne_true (hwanted.symm.trans hexcluded)
    · exact ⟨rfl, rfl, rfl, ⟨nodup_countReasons _, fun _ _ => mem_countReasons⟩, hinv.total⟩

/-- A path below `/srv`. -/
def srv (parts : List Name) : Path := ⟨false, ⟨"srv".toList, by decide⟩ :: parts⟩

/-- `/srv/a/x`. -/
def nested : Path := srv [⟨"a".toList, by decide⟩, ⟨"x".toList, by decide⟩]

/-- `/srv/a/../x`. -/
def climbing : Path := srv [⟨"a".toList, by decide⟩, ⟨"..".toList, by decide⟩, ⟨"x".toList, by decide⟩]

/-- A disk where each path is a file of one byte. -/
def oneByteDisk : Host where
  tree _ := .ok .file
  isSymlink _ := .ok false
  readlink _ := .error "OSError".toList
  size _ := .ok 1
  readBytes _ := .ok ([0])

theorem accounts_iff_nested : ∃ bundle, buildSystemTar oneByteDisk [nested, climbing] [] = .ok (some bundle) ∧
    (Accounts [] [nested, climbing] bundle ↔
      Allowed (visitStep oneByteDisk []) (SafeToStore oneByteDisk []) .start [nested, climbing]) := by
  have hbuilt : buildSystemTar oneByteDisk [nested, climbing] [] = .ok (some _) := rfl
  exact ⟨_, hbuilt, accounts_iff rfl hbuilt⟩

/-- `/srv/a/x` and `/srv/a/../x` are different files with one member name. -/
theorem not_accounts_climbing : ¬ ∀ (host : Host) (sources paths : List Path) (systemExclude : List Text)
    (bundle : Bundle), walkSources host sources = .ok paths →
    buildSystemTar host sources systemExclude = .ok (some bundle) → Accounts systemExclude paths bundle := by
  intro h
  have hbuilt : buildSystemTar oneByteDisk [nested, climbing] [] = .ok (some _) := rfl
  have hnames := (h _ _ _ _ _ rfl hbuilt).names
  exact absurd hnames (by decide)

end VpnBot.Backup
