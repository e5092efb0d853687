import VpnBot.MtProto.Service

/-!
# What the MTProto accesses promise

In every run, whatever writes and applies fail, as long as no copy of a backup breaks off in the middle: an active
access has its secret among those that the proxy is started with, and each of these is the secret of an access that
may exist, so that no secret of a revoked or deleted access is there (`promises_of_run`).  After an operation that has
applied and returned they are the secrets of the active accesses and no others (`exact_of_completes`).
-/

namespace VpnBot.MtProto

open Py Sys MtProxy Program

open Socks5 (ProxyAccessStatus)

variable {b : Backend} {s s' : State} {access row : ProxyAccess} {items : List ManagedSecret} {files : Files}
  {status : ProxyAccessStatus} {P : Unit → State → Prop} {Q : Error → State → Prop}

/-! ### Fingerprints -/

theorem length_mtprotoSecretFingerprint (secret : Text) : (mtprotoSecretFingerprint secret).length = 16 := by
  have hlength : (Sha256.hexdigest secret).length = 64 := by
    simp [Sha256.hexdigest, Sha256.hexWord]
  rw [mtprotoSecretFingerprint, List.length_take, hlength]
  rfl

theorem mtprotoSecretFingerprint_ne_nil (secret : Text) : mtprotoSecretFingerprint secret ≠ [] := by
  intro h
  have hlength := length_mtprotoSecretFingerprint secret
  rw [h] at hlength
  cases hlength

theorem mtprotoSecretFingerprint_ne_placeholder (secret : Text) :
    mtprotoSecretFingerprint secret ≠ emptyPlaceholder := by
  intro h
  have hlength := length_mtprotoSecretFingerprint secret
  rw [h] at hlength
  revert hlength
  decide

/-! ### The secrets of accesses -/

variable {new : ProxyAccessStatus} {fails : Bool} {extra : Option ProxyAccess}
  {desired : List ManagedSecret}

theorem managedSecretsFromAccesses_eq_ok {accesses : List ProxyAccess}
    (hmanaged : ∀ access ∈ accesses, access.mode = .managed)
    (h : managedSecretsFromAccesses accesses = .ok desired) :
    desired = accesses.map ProxyAccess.item := by
  induction accesses generalizing desired with
  | nil => exact (Except.ok.inj h).symm
  | cons access accesses ih =>
    rw [managedSecretsFromAccesses, if_neg (not_not_intro (hmanaged access List.mem_cons_self))] at h
    obtain ⟨secret, hsecret, h⟩ := bind_eq_ok.1 h
    have heq : access.secret = secret := by
      unfold accessSecret at hsecret
      split_ifs at hsecret
      exact Except.ok.inj hsecret
    split_ifs at h
    obtain ⟨rest, hrest, h⟩ := bind_eq_ok.1 h
    obtain rfl := ih (fun a ha => hmanaged a (List.mem_cons_of_mem _ ha)) hrest
    rw [← Except.ok.inj h, ← heq]
    rfl

theorem mem_of_normalizeSecrets
    (hnodup : (desired.map ManagedSecret.fingerprint).Nodup)
    (h : normalizeSecrets desired = .ok items)
    (item : ManagedSecret) : item ∈ items ↔ item ∈ desired := by
  have hsorted : ((sortedBy ManagedSecret.key desired).map ManagedSecret.fingerprint).Nodup :=
    ((perm_sortedBy ManagedSecret.key desired).map _).nodup_iff.2 hnodup
  rw [(normalizeSecrets_eq_ok.1 h).2, distinctBy_eq_self hsorted fun _ _ => List.not_mem_nil, mem_sortedBy]

theorem distinctBy_append {α κ : Type} [DecidableEq κ] {key : α → κ} {seen : List κ} {l l' : List α}
    (h : ∀ a ∈ l', key a ∈ seen ∨ key a ∈ l.map key) : distinctBy key seen (l ++ l') = distinctBy key seen l := by
  induction l generalizing seen with
  | nil =>
    have hseen : ∀ a ∈ l', key a ∈ seen := fun a ha => (h a ha).resolve_right List.not_mem_nil
    clear h
    rw [List.nil_append]
    induction l' with
    | nil => rfl
    | cons a l' ih =>
      rw [distinctBy.eq_2, if_pos (hseen a List.mem_cons_self)]
      exact ih fun c hc => hseen c (List.mem_cons_of_mem _ hc)
  | cons a l ih =>
    have hcases : ∀ c ∈ l', key c ∈ seen ∨ key c = key a ∨ key c ∈ l.map key := by
      intro c hc
      rw [← List.mem_cons, ← List.map_cons]
      exact h c hc
    rw [List.cons_append, distinctBy.eq_2, distinctBy.eq_2]
    split_ifs with hseen
    · refine ih fun c hc => ?_
      rcases hcases c hc with hmem | heq | hmem
      · exact .inl hmem
      · exact .inl (heq ▸ hseen)
      · exact .inr hmem
    · refine congrArg (List.cons a) (ih fun c hc => ?_)
      rcases hcases c hc with hmem | heq | hmem
      · exact .inl (List.mem_cons_of_mem _ hmem)
      · exact .inl (heq ▸ List.mem_cons_self)
      · exact .inr hmem

/-! ### The invariant -/

/-- An access whose secret may be in the files. -/
structure MayExist (access : ProxyAccess) : Prop where
  managed : access.mode = .managed
  status : access.status ∈ mtprotoAccessMayExistStatuses

/-- The files hold the secrets, which are in order. -/
structure Stores (b : Backend) (files : Files) (items : List ManagedSecret) : Prop where
  canonical : Normalized items
  holds : ∃ g, Holds b.interpreter b.adapter items g files

structure Inv (b : Backend) (s : State) : Prop where
  next : 0 < s.accesses.next
  bounds : ∀ row ∈ s.accesses.rows, 0 < row.id ∧ row.id ≤ maxInteger ∧ row.ownerUserId ≤ maxInteger
  fingerprint : ∀ row ∈ s.accesses.rows, row.mode = .managed →
    row.secretFingerprint = mtprotoSecretFingerprint row.secret
  distinct : ∀ row ∈ s.accesses.rows, ∀ row' ∈ s.accesses.rows, MayExist row → MayExist row' →
    row.secretFingerprint = row'.secretFingerprint → row = row'
  deleting : ∀ id ∈ s.deleting, ∃ row ∈ s.accesses.rows, row.id = id ∧ row.status ∈ ended
  store : ∃ items, Stores b s.files items ∧ Promises s items

/-- The secrets in the files are the ones of the active accesses. -/
def Exact (b : Backend) (s : State) : Prop :=
  ∃ items, Stores b s.files items ∧
    ∀ item, item ∈ items ↔ ∃ row ∈ s.accesses.rows, row.mode = .managed ∧ row.status = .active ∧ row.item = item

theorem mayExist_iff : status ∈ mtprotoAccessMayExistStatuses ↔ status ∉ ended := by
  cases status <;> decide

/-! ### Reading the files -/

theorem Stores.readsBack (h : Stores b files items) :
    ∃ text env g, files = ⟨some text, some env⟩ ∧ ReadsBack b.interpreter text items g := by
  obtain ⟨g, ⟨text, normalized, hsecrets, hnormalized, hrenders⟩, env, henv, -⟩ := h.holds
  rw [h.canonical.normalize] at hnormalized
  obtain rfl := Except.ok.inj hnormalized
  refine ⟨text, env, g, ?_, hrenders.readsBack⟩
  cases files
  exact congrArg₂ Files.mk hsecrets henv

theorem Stores.unique {items' : List ManagedSecret} (h : Stores b files items) (h' : Stores b files items') :
    items = items' := by
  obtain ⟨text, env, g, rfl, hread⟩ := h.readsBack
  obtain ⟨text', env', g', heq, hread'⟩ := h'.readsBack
  obtain rfl := Option.some.inj (congrArg Files.secrets heq)
  exact Except.ok.inj (hread.current.symm.trans hread'.current)

theorem Stores.of_holds {g : ℤ} (h : Holds b.interpreter b.adapter desired g files) :
    ∃ items, normalizeSecrets desired = .ok items ∧ Stores b files items := by
  obtain ⟨⟨text, normalized, hsecrets, hnormalized, hrenders⟩, henv⟩ := h
  have hcanonical := (normalized_of_normalizeSecrets hnormalized).1
  exact ⟨normalized, hnormalized, hcanonical, g, ⟨text, normalized, hsecrets, hcanonical.normalize, hrenders⟩, henv⟩

theorem Inv.ne_placeholder (hinv : Inv b s) (h : Promises s items) :
    ∀ item ∈ items, item.fingerprint ≠ emptyPlaceholder := by
  intro item hitem
  obtain ⟨access, haccess, hmanaged, -, rfl⟩ := h.known item hitem
  show access.secretFingerprint ≠ _
  rw [hinv.fingerprint access haccess hmanaged]
  exact mtprotoSecretFingerprint_ne_placeholder _

theorem ends_readAllRuntimeManagedSecrets (hinv : Inv b s) {P : List ManagedSecret → State → Prop}
    (hP : ∀ items, Stores b s.files items → Promises s items → P items s) :
    Ends (readAllRuntimeManagedSecrets b) P Q s := by
  obtain ⟨items, hstores, hpromises⟩ := hinv.store
  obtain ⟨text, env, g, hfiles, hread⟩ := hstores.readsBack
  have hplaceholder := hinv.ne_placeholder hpromises
  have hfilter : items.filter (fun item => item.fingerprint ≠ emptyPlaceholder) = items :=
    List.filter_eq_self.2 fun item hitem => decide_eq_true (hplaceholder item hitem)
  have hall : allManagedSecrets items items = items := by
    rw [allManagedSecrets, List.filter_append, hfilter,
      distinctBy_append fun item hitem => .inr (List.mem_map_of_mem hitem),
      distinctBy_eq_self hstores.canonical.nodup fun _ _ => List.not_mem_nil]
  unfold readAllRuntimeManagedSecrets
  rw [ends_ofExcept, hfiles, hread.current, hread.runtime, hfilter]
  constructor
  · intro found hfound
    obtain rfl := Except.ok.inj hfound
    rw [hall]
    exact hP items hstores hpromises
  · intro e he
    cases he

theorem ends_ensureManagedRuntimeReady {ready : Bool} (hP : P () s) (hQ : ∀ e, Q e s) :
    Ends (ensureManagedRuntimeReady b ready) P Q s := by
  unfold ensureManagedRuntimeReady
  rw [ends_ofExcept]
  exact ⟨fun _ _ => hP, fun e _ => hQ e⟩

/-! ### The active accesses -/

theorem managedAccessesByStatuses_eq (hinv : Inv b s) (statuses : List ProxyAccessStatus) :
    managedAccessesByStatuses statuses s = s.accesses.rows.filter fun row => statuses.contains row.status := by
  rw [managedAccessesByStatuses, Rows.pages_eq (by decide) (Nat.zero_add _).ge]
  refine List.filter_congr fun row hrow => ?_
  rw [decide_eq_true (hinv.bounds row hrow).1, Bool.and_true]

theorem activeManagedAccesses_eq (hinv : Inv b s) : activeManagedAccesses s =
    s.accesses.rows.filter fun row => decide (row.mode = .managed) && decide (row.status = .active) := by
  rw [activeManagedAccesses, managedAccessesByStatuses_eq hinv, List.filter_filter]
  refine List.filter_congr fun row _ => ?_
  simp

theorem mem_activeManagedAccesses (hinv : Inv b s) :
    access ∈ activeManagedAccesses s ↔ access ∈ s.accesses.rows ∧ access.mode = .managed ∧ access.status = .active := by
  rw [activeManagedAccesses_eq hinv, List.mem_filter, Bool.and_eq_true, decide_eq_true_eq, decide_eq_true_eq]

theorem mayExist_of_active (hmanaged : row.mode = .managed) (hactive : row.status = .active) : MayExist row :=
  ⟨hmanaged, by rw [hactive]; decide⟩

/-! ### The apply -/

theorem Inv.withFiles (hinv : Inv b s) (hstores : Stores b files items) (hpromises : Promises s items) :
    Inv b { s with files := files } where
  next := hinv.next
  bounds := hinv.bounds
  fingerprint := hinv.fingerprint
  distinct := hinv.distinct
  deleting := hinv.deleting
  store := ⟨items, hstores, hpromises.served, hpromises.known⟩

theorem Inv.withHealth (hinv : Inv b s) (degraded : Bool) : Inv b { s with degraded := degraded } where
  next := hinv.next
  bounds := hinv.bounds
  fingerprint := hinv.fingerprint
  distinct := hinv.distinct
  deleting := hinv.deleting
  store := by
    obtain ⟨items, hstores, hpromises⟩ := hinv.store
    exact ⟨items, hstores, hpromises.served, hpromises.known⟩

theorem short_of_le {n : ℕ} (h : n ≤ maxInteger) : Short n := by
  have hsmall : n < 10 ^ 20 := lt_of_le_of_lt h (by decide)
  exact lt_of_lt_of_le hsmall (Nat.pow_le_pow_right (by decide) (by decide))

theorem Inv.writable {accesses : List ProxyAccess} (hinv : Inv b s)
    (h : ∀ row ∈ accesses, row ∈ s.accesses.rows ∧ row.mode = .managed) : Writable (accesses.map ProxyAccess.item) := by
  intro item hitem
  obtain ⟨row, hrow, rfl⟩ := List.mem_map.1 hitem
  obtain ⟨hmem, hmanaged⟩ := h row hrow
  obtain ⟨-, hid, howner⟩ := hinv.bounds row hmem
  refine ⟨⟨fun n hn => ?_, fun n hn => ?_⟩, ?_⟩
  · rw [← Option.some.inj hn]
    exact short_of_le howner
  · rw [← Option.some.inj hn]
    exact short_of_le hid
  · show row.secretFingerprint ≠ []
    rw [hinv.fingerprint row hmem hmanaged]
    exact mtprotoSecretFingerprint_ne_nil _

theorem Inv.nodup_applied (hinv : Inv b s)
    (hextra : ∀ e ∈ extra, e ∈ s.accesses.rows ∧ MayExist e ∧ e.status ≠ .active) :
    (((activeManagedAccesses s ++ extra.toList).map ProxyAccess.item).map ManagedSecret.fingerprint).Nodup := by
  have hcounts : ∀ row ∈ activeManagedAccesses s ++ extra.toList, row ∈ s.accesses.rows ∧ MayExist row := by
    intro row hrow
    rcases List.mem_append.1 hrow with hrow | hrow
    · obtain ⟨hmem, hmanaged, hactive⟩ := (mem_activeManagedAccesses hinv).1 hrow
      exact ⟨hmem, mayExist_of_active hmanaged hactive⟩
    · obtain ⟨hmem, hmay, -⟩ := hextra row (Option.mem_toList.1 hrow)
      exact ⟨hmem, hmay⟩
  have hrows : s.accesses.rows.Nodup := List.Pairwise.imp
    (fun {x y} (hlt : x.id < y.id) heq => Nat.lt_irrefl _ (heq ▸ hlt)) s.accesses.sorted
  have hnodup : (activeManagedAccesses s ++ extra.toList).Nodup := by
    refine List.nodup_append'.2 ⟨?_, ?_, ?_⟩
    · rw [activeManagedAccesses_eq hinv]
      exact hrows.filter _
    · cases extra with
      | none => exact List.nodup_nil
      | some e => exact List.nodup_singleton e
    · intro row hrow hextra'
      exact (hextra row (Option.mem_toList.1 hextra')).2.2 ((mem_activeManagedAccesses hinv).1 hrow).2.2
  rw [List.map_map]
  refine hnodup.map_on fun row hrow row' hrow' heq => ?_
  exact hinv.distinct row (hcounts row hrow).1 row' (hcounts row' hrow').1 (hcounts row hrow).2 (hcounts row' hrow').2
    heq

theorem mem_applied (hinv : Inv b s)
    (hextra : ∀ e ∈ extra, e ∈ s.accesses.rows ∧ MayExist e ∧ e.status ≠ .active) :
    row ∈ activeManagedAccesses s ++ extra.toList ↔
      row ∈ s.accesses.rows ∧ row.mode = .managed ∧ (row.status = .active ∨ row ∈ extra) := by
  rw [List.mem_append, mem_activeManagedAccesses hinv, Option.mem_toList]
  constructor
  · rintro (⟨hrow, hmanaged, hactive⟩ | hrow)
    · exact ⟨hrow, hmanaged, .inl hactive⟩
    · exact ⟨(hextra row hrow).1, (hextra row hrow).2.1.managed, .inr hrow⟩
  · rintro ⟨hrow, hmanaged, hactive | hrow'⟩
    · exact .inl ⟨hrow, hmanaged, hactive⟩
    · exact .inr hrow'

theorem ends_desiredManagedSecrets {exclude : Option ℕ} (hinv : Inv b s)
    (hextra : ∀ e ∈ extra, e ∈ s.accesses.rows ∧ MayExist e ∧ e.status ≠ .active)
    (hexclude : ∀ id ∈ exclude, ∀ row ∈ activeManagedAccesses s ++ extra.toList, row.id ≠ id)
    {P : List ManagedSecret → State → Prop}
    (hP : P ((activeManagedAccesses s ++ extra.toList).map ProxyAccess.item) s) (hQ : ∀ e, Q e s) :
    Ends (desiredManagedSecrets extra exclude) P Q s := by
  have hfilter : (activeManagedAccesses s ++ extra.toList).filter (fun access => !exclude.any (· = access.id)) =
      activeManagedAccesses s ++ extra.toList := by
    refine List.filter_eq_self.2 fun row hrow => ?_
    cases exclude with
    | none => rfl
    | some id => simpa using (hexclude id rfl row hrow).symm
  unfold desiredManagedSecrets
  rw [ends_ofExcept, hfilter]
  refine ⟨fun desired hdesired => ?_, fun e _ => hQ e⟩
  have hmanaged : ∀ row ∈ activeManagedAccesses s ++ extra.toList, row.mode = .managed :=
    fun row hrow => ((mem_applied hinv hextra).1 hrow).2.1
  rw [managedSecretsFromAccesses_eq_ok hmanaged hdesired]
  exact hP

/-- **An apply keeps the invariant, whether it returns or raises**; when it returns the files hold the secrets of the
active accesses and of the one that is new. -/
theorem ends_applySecrets {answers : Answers} (hinv : Inv b s)
    (hextra : ∀ e ∈ extra, e ∈ s.accesses.rows ∧ MayExist e ∧ e.status ≠ .active)
    (hwhole : answers.Whole)
    (hP : ∀ files items, Inv b { s with files := files } → Stores b files items →
      (∀ item, item ∈ items ↔ ∃ row ∈ s.accesses.rows, row.mode = .managed ∧ (row.status = .active ∨ row ∈ extra) ∧
        row.item = item) → P () { s with files := files })
    (hQ : ∀ e files, Inv b { s with files := files } → Q e { s with files := files }) :
    Ends (applySecrets b answers ((activeManagedAccesses s ++ extra.toList).map ProxyAccess.item)) P Q s := by
  obtain ⟨old, hold, hpromises⟩ := hinv.store
  -- the old secrets and the new ones both keep the promises
  have hnew : ∀ files g, Holds b.interpreter b.adapter
      ((activeManagedAccesses s ++ extra.toList).map ProxyAccess.item) g files →
      ∃ items, Stores b files items ∧ Promises s items ∧ ∀ item, item ∈ items ↔ ∃ row ∈ s.accesses.rows,
        row.mode = .managed ∧ (row.status = .active ∨ row ∈ extra) ∧ row.item = item := by
    intro files g hholds
    obtain ⟨items, hitems, hstores⟩ := Stores.of_holds hholds
    have hiff : ∀ item, item ∈ items ↔ ∃ row ∈ s.accesses.rows,
        row.mode = .managed ∧ (row.status = .active ∨ row ∈ extra) ∧ row.item = item := by
      intro item
      rw [mem_of_normalizeSecrets (hinv.nodup_applied hextra) hitems, List.mem_map]
      refine exists_congr fun row => ?_
      rw [mem_applied hinv hextra]
      exact ⟨fun h => ⟨h.1.1, h.1.2.1, h.1.2.2, h.2⟩, fun h => ⟨⟨h.1, h.2.1, h.2.2.1⟩, h.2.2.2⟩⟩
    refine ⟨items, hstores, ⟨fun row hrow hmanaged hactive => ?_, fun item hitem => ?_⟩, hiff⟩
    · exact (hiff _).2 ⟨row, hrow, hmanaged, .inl hactive, rfl⟩
    · obtain ⟨row, hrow, hmanaged, hactive | hrow', heq⟩ := (hiff item).1 hitem
      · exact ⟨row, hrow, hmanaged, (mayExist_of_active hmanaged hactive).status, heq⟩
      · exact ⟨row, hrow, hmanaged, (hextra row hrow').2.1.status, heq⟩
  have hwritable : Writable ((activeManagedAccesses s ++ extra.toList).map ProxyAccess.item) := by
    refine hinv.writable fun row hrow => ?_
    obtain ⟨hmem, hmanaged, -⟩ := (mem_applied hinv hextra).1 hrow
    exact ⟨hmem, hmanaged⟩
  obtain ⟨g, hholds⟩ := hold.holds
  unfold applySecrets
  rw [ends_bind, ends_zoom]
  refine (ends_applyManagedSecrets_of_holds hholds hwritable hwhole).mono ?_ ?_
  · intro r files hfiles
    obtain ⟨items, hstores, hpromises', hiff⟩ := hnew files r.2 hfiles
    exact hP files items (hinv.withFiles hstores hpromises') hstores hiff
  · rintro e files (hfiles | ⟨g', hfiles⟩)
    · exact hQ _ files (hinv.withFiles ⟨hold.canonical, g, hfiles⟩ hpromises)
    · obtain ⟨items, hstores, hpromises', -⟩ := hnew files g' hfiles
      exact hQ _ files (hinv.withFiles hstores hpromises')

theorem ends_applyDesired {exclude : Option ℕ} {answers : Answers} (hinv : Inv b s)
    (hextra : ∀ e ∈ extra, e ∈ s.accesses.rows ∧ MayExist e ∧ e.status ≠ .active)
    (hexclude : ∀ id ∈ exclude, ∀ row ∈ activeManagedAccesses s ++ extra.toList, row.id ≠ id)
    (hwhole : answers.Whole)
    (hP : ∀ files items, Inv b { s with files := files } → Stores b files items →
      (∀ item, item ∈ items ↔ ∃ row ∈ s.accesses.rows, row.mode = .managed ∧ (row.status = .active ∨ row ∈ extra) ∧
        row.item = item) → P () { s with files := files })
    (hQ : ∀ e files, Inv b { s with files := files } → Q e { s with files := files }) :
    Ends (applyDesired b extra exclude answers) P Q s := by
  unfold applyDesired
  rw [ends_bind]
  exact ends_desiredManagedSecrets hinv hextra hexclude (ends_applySecrets hinv hextra hwhole hP hQ)
    fun e => hQ e s.files hinv

/-! ### The rows -/

theorem mem_setStatus (h : row ∈ s.accesses.rows) {r : ProxyAccess} :
    r ∈ (s.setRow row.id (fun row => { row with status := new }) fun _ => rfl).accesses.rows ↔
      (r ∈ s.accesses.rows ∧ r.id ≠ row.id) ∨ r = { row with status := new } := by
  show r ∈ (s.accesses.update row.id (fun row => { row with status := new }) fun _ => rfl).rows ↔ _
  rw [Rows.mem_update]
  refine or_congr_right ⟨?_, ?_⟩
  · rintro ⟨old, hold, hid, rfl⟩
    rw [Rows.eq_of_key_eq hold h hid]
  · rintro rfl
    exact ⟨row, h, rfl, rfl⟩

/-- **A new status keeps the invariant** when an active access has its secret in the files, and one that has ended has
not. -/
theorem Inv.setStatus (hinv : Inv b s) (h : row ∈ s.accesses.rows)
    (hstores : Stores b s.files items) (hlive : new ∉ ended → row.status ∉ ended)
    (hactive : row.mode = .managed → new = .active → row.item ∈ items)
    (hgone : row.mode = .managed → new ∈ ended → row.item ∉ items) :
    Inv b (s.setRow row.id (fun row => { row with status := new }) fun _ => rfl) where
  next := hinv.next
  bounds r hr := by
    rcases (mem_setStatus h).1 hr with ⟨hr, -⟩ | rfl
    · exact hinv.bounds r hr
    · exact hinv.bounds row h
  fingerprint r hr hmanaged := by
    rcases (mem_setStatus h).1 hr with ⟨hr, -⟩ | rfl
    · exact hinv.fingerprint r hr hmanaged
    · exact hinv.fingerprint row h hmanaged
  distinct r hr r' hr' hmay hmay' heq := by
    have hold : MayExist { row with status := new } → MayExist row := fun hmay =>
      ⟨hmay.managed, mayExist_iff.2 (hlive (mayExist_iff.1 hmay.status))⟩
    rcases (mem_setStatus h).1 hr with ⟨hr, hid⟩ | rfl <;> rcases (mem_setStatus h).1 hr' with ⟨hr', hid'⟩ | rfl
    · exact hinv.distinct r hr r' hr' hmay hmay' heq
    · exact absurd (congrArg ProxyAccess.id (hinv.distinct r hr row h hmay (hold hmay') heq)) hid
    · exact absurd (congrArg ProxyAccess.id (hinv.distinct row h r' hr' (hold hmay) hmay' heq)).symm hid'
    · rfl
  deleting id hid := by
    obtain ⟨r, hr, rfl, hended⟩ := hinv.deleting id hid
    by_cases heq : r.id = row.id
    · obtain rfl := Rows.eq_of_key_eq hr h heq
      refine ⟨_, (mem_setStatus h).2 (.inr rfl), rfl, ?_⟩
      by_contra hnew
      exact hlive hnew hended
    · exact ⟨r, (mem_setStatus h).2 (.inl ⟨hr, heq⟩), rfl, hended⟩
  store := by
    obtain ⟨items', hstores', hpromises⟩ := hinv.store
    obtain rfl := hstores.unique hstores'
    refine ⟨items, hstores, fun r hr hmanaged hr' => ?_, fun item hitem => ?_⟩
    · rcases (mem_setStatus h).1 hr with ⟨hr, -⟩ | rfl
      · exact hpromises.served r hr hmanaged hr'
      · exact hactive hmanaged hr'
    · obtain ⟨r, hr, hmanaged, hmay, rfl⟩ := hpromises.known item hitem
      by_cases heq : r.id = row.id
      · obtain rfl := Rows.eq_of_key_eq hr h heq
        refine ⟨_, (mem_setStatus h).2 (.inr rfl), hmanaged, ?_, rfl⟩
        rw [mayExist_iff]
        exact fun hnew => hgone hmanaged hnew hitem
      · exact ⟨r, (mem_setStatus h).2 (.inl ⟨hr, heq⟩), hmanaged, hmay, rfl⟩

theorem ends_write {effect : State → State} : Ends (write fails effect) P Q s ↔
    if fails = true then Q .database s else P () (effect s) := by
  unfold write
  split_ifs <;> exact Iff.rfl

/-- A status in front of the active one or behind it. -/
def IsPending (status : ProxyAccessStatus) : Prop := status ∉ ended ∧ status ≠ .active

/-- The row has another status, and the other rows are as they were. -/
structure Moved (s : State) (row : ProxyAccess) (new : ProxyAccessStatus) (s' : State) : Prop where
  files : s'.files = s.files
  mem : ∀ r, r ∈ s'.accesses.rows ↔ (r ∈ s.accesses.rows ∧ r.id ≠ row.id) ∨ r = { row with status := new }

theorem Moved.exists (h : Moved s row new s') :
    ∃ r ∈ s'.accesses.rows, r.id = row.id ∧ r.status = new := ⟨_, (h.mem _).2 (.inr rfl), rfl, rfl⟩

theorem moved_setRow (h : row ∈ s.accesses.rows) (new : ProxyAccessStatus) :
    Moved s row new (s.setRow row.id (fun row => { row with status := new }) fun _ => rfl) where
  files := rfl
  mem _ := mem_setStatus h

theorem ends_setStatus (hinv : Inv b s) (h : row ∈ s.accesses.rows)
    (hrow : row.status ∉ ended) (hnew : IsPending new)
    (hP : ∀ s', Inv b s' → Moved s row new s' → P () s') (hQ : Q .database s) :
    Ends (setStatus row.id new fails) P Q s := by
  unfold setStatus
  rw [ends_write]
  split_ifs
  · exact hQ
  · obtain ⟨items, hstores, -⟩ := hinv.store
    refine hP _ ?_ (moved_setRow h new)
    exact hinv.setStatus h hstores (fun _ => hrow) (fun _ hactive => absurd hactive hnew.2)
      fun _ hended => absurd hended hnew.1

theorem ends_markActive (hinv : Inv b s) (h : row ∈ s.accesses.rows)
    (hrow : row.status = .pendingApply ∨ row.status = .applyFailed)
    (hstores : Stores b s.files items)
    (hitem : row.item ∈ items) (hP : ∀ s', Inv b s' → Moved s row .active s' → P () s')
    (hQ : Q .database s) :
    Ends (markActive row.id row.secret fails) P Q s := by
  have heq : s.setRow row.id (activated row.secret) (activated_id row.secret) =
      s.setRow row.id (fun row => { row with status := .active }) fun _ => rfl := by
    refine congrArg (fun accesses => ({ s with accesses := accesses } : State)) (Rows.ext_rows ?_ rfl)
    refine List.map_congr_left fun r hr => ?_
    by_cases hid : r.id = row.id
    · obtain rfl := Rows.eq_of_key_eq hr h hid
      rw [if_pos rfl, if_pos rfl, activated, if_pos hrow]
    · rw [if_neg hid, if_neg hid]
  have hlive : row.status ∉ ended := by
    rcases hrow with hrow | hrow <;> rw [hrow] <;> decide
  unfold markActive
  rw [ends_write, heq]
  split_ifs
  · exact hQ
  · refine hP _ ?_ (moved_setRow h .active)
    exact hinv.setStatus h hstores (fun _ => hlive) (fun _ _ => hitem) fun _ hended => absurd hended (by decide)

theorem ends_markEnded {stays : List ProxyAccessStatus} (hinv : Inv b s)
    (h : row ∈ s.accesses.rows) (hnew : new ∈ ended) (hstores : Stores b s.files items)
    (hgone : row.mode = .managed → row.item ∉ items)
    (hP : ∀ s', Inv b s' → Moved s row new s' → P () s')
    (hQ : Q .database s) : Ends (markEnded row.id new stays fails) P Q s := by
  have hfind : s.accesses.find? row.id = some row := Rows.find?_eq_some_iff.2 ⟨h, rfl⟩
  unfold markEnded
  rw [ends_bind, ends_get, hfind]
  dsimp only
  split_ifs
  · exact hQ
  · unfold setStatus
    rw [ends_write]
    split_ifs
    · exact hQ
    · refine hP _ ?_ (moved_setRow h new)
      refine hinv.setStatus h hstores (fun hlive => absurd hnew hlive) (fun _ hactive => ?_)
        fun hmanaged _ => hgone hmanaged
      rw [hactive] at hnew
      exact absurd hnew (by decide)

/-! ### Issuing -/

theorem Inv.insert (hinv : Inv b s) (hid : access.id = s.accesses.next)
    (hbounds : access.id ≤ maxInteger ∧ access.ownerUserId ≤ maxInteger)
    (hfingerprint : access.secretFingerprint = mtprotoSecretFingerprint access.secret)
    (hactive : access.mode = .managed → access.status ≠ .active)
    (hfresh : access.mode = .managed → ∀ row ∈ s.accesses.rows, MayExist row →
      row.secretFingerprint ≠ access.secretFingerprint) :
    Inv b { s with accesses := s.accesses.insert access hid } where
  next := Nat.succ_pos _
  bounds row hrow := by
    rcases (Rows.mem_insert hid).1 hrow with hrow | rfl
    · exact hinv.bounds row hrow
    · exact ⟨hid ▸ hinv.next, hbounds⟩
  fingerprint row hrow hmanaged := by
    rcases (Rows.mem_insert hid).1 hrow with hrow | rfl
    · exact hinv.fingerprint row hrow hmanaged
    · exact hfingerprint
  distinct row hrow row' hrow' hmay hmay' heq := by
    rcases (Rows.mem_insert hid).1 hrow with hold | hnew <;> rcases (Rows.mem_insert hid).1 hrow' with hold' | hnew'
    · exact hinv.distinct row hold row' hold' hmay hmay' heq
    · exact absurd (hnew' ▸ heq) (hfresh (hnew' ▸ hmay'.managed) row hold hmay)
    · exact absurd (hnew ▸ heq.symm) (hfresh (hnew ▸ hmay.managed) row' hold' hmay')
    · rw [hnew, hnew']
  deleting id hmem := by
    obtain ⟨row, hrow, hkey, hended⟩ := hinv.deleting id hmem
    exact ⟨row, (Rows.mem_insert hid).2 (.inl hrow), hkey, hended⟩
  store := by
    obtain ⟨items, hstores, hpromises⟩ := hinv.store
    refine ⟨items, hstores, fun row hrow hmanaged hstatus => ?_, fun item hitem => ?_⟩
    · rcases (Rows.mem_insert hid).1 hrow with hrow | rfl
      · exact hpromises.served row hrow hmanaged hstatus
      · exact absurd hstatus (hactive hmanaged)
    · obtain ⟨row, hrow, hrest⟩ := hpromises.known item hitem
      exact ⟨row, (Rows.mem_insert hid).2 (.inl hrow), hrest⟩

theorem ends_createAccess {owner : ℕ} {mode : Mode} {secret : Text} (hinv : Inv b s)
    (hactive : mode = .managed → status ≠ .active)
    (hfresh : mode = .managed → ∀ row ∈ s.accesses.rows, MayExist row →
      row.secretFingerprint ≠ mtprotoSecretFingerprint secret)
    {P : ProxyAccess → State → Prop}
    (hP : ∀ access s', Inv b s' → access ∈ s'.accesses.rows → access.mode = mode → access.status = status →
      P access s') (hQ : Q .database s) : Ends (createAccess owner status mode secret fails) P Q s := by
  unfold createAccess
  rw [ends_bind, ends_get]
  split_ifs with hlarge
  · exact hQ
  · rw [ends_bind, ends_write]
    rw [not_or, not_lt, not_lt] at hlarge
    split_ifs
    · exact hQ
    · refine hP _ _ ?_ ((Rows.mem_insert rfl).2 (.inr rfl)) rfl rfl
      exact hinv.insert rfl ⟨hlarge.2, hlarge.1⟩ rfl hactive hfresh

theorem ends_drawSecret {storeFingerprints draws : List Text} :
    Ends (drawSecret storeFingerprints draws)
      (fun secret s' => s' = s ∧ ∀ row ∈ s.accesses.rows, MayExist row →
        row.secretFingerprint ≠ mtprotoSecretFingerprint secret) (fun _ s' => s' = s) s := by
  induction draws with
  | nil => exact rfl
  | cons secret draws ih =>
    unfold drawSecret
    rw [ends_bind, ends_get]
    split_ifs with hstore htaken
    · exact ih
    · exact ih
    · refine ⟨rfl, fun row hrow hmay heq => ?_⟩
      have hfree := List.any_eq_false.1 (Bool.eq_false_iff.2 htaken) row hrow
      rw [heq, decide_eq_true rfl, Bool.true_and] at hfree
      have hlive := mayExist_iff.1 hmay.status
      have hstatus : row.status = .deleted ∨ row.status = .inactive := by
        by_contra hcon
        rw [not_or] at hcon
        exact hfree (by simp [hcon.1, hcon.2])
      rcases hstatus with hstatus | hstatus <;> rw [hstatus] at hlive <;> exact hlive (by decide)

theorem ends_uniqueManagedSecret {draws : List Text} (hinv : Inv b s) :
    Ends (uniqueManagedSecret b draws)
      (fun secret s' => s' = s ∧ ∀ row ∈ s.accesses.rows, MayExist row →
        row.secretFingerprint ≠ mtprotoSecretFingerprint secret) (fun _ s' => s' = s) s := by
  unfold uniqueManagedSecret
  rw [ends_bind]
  exact ends_readAllRuntimeManagedSecrets hinv fun _ _ _ => ends_drawSecret

theorem ne_of_mem_active (hinv : Inv b s) (h : access ∈ s.accesses.rows) (hne : access.status ≠ .active) :
    ∀ id ∈ some access.id, ∀ row ∈ activeManagedAccesses s ++ (none : Option ProxyAccess).toList, row.id ≠ id := by
  intro id hid row hrow heq
  rw [← Option.some.inj hid] at heq
  obtain ⟨hmem, -, hactive⟩ := (mem_activeManagedAccesses hinv).1 (by simpa using hrow)
  rw [Rows.eq_of_key_eq hmem h heq] at hactive
  exact hne hactive

theorem extra_none : ∀ e ∈ (none : Option ProxyAccess), e ∈ s.accesses.rows ∧ MayExist e ∧ e.status ≠ .active :=
  fun _ he => by cases he

/-- The other accesses are as they were. -/
def Kept (s : State) (access : ProxyAccess) (s' : State) : Prop :=
  ∀ row ∈ s.accesses.rows, row.id ≠ access.id → row ∈ s'.accesses.rows

theorem Moved.kept (h : Moved s access new s') : Kept s access s' :=
  fun row hrow hid => (h.mem row).2 (.inl ⟨hrow, hid⟩)

/-- The compensations keep the invariant and the other accesses. -/
theorem ends_compensate {answers : Answers} {rest : Bool → Program State Error Unit}
    (hinv : Inv b s) (h : access ∈ s.accesses.rows) (hstatus : access.status = .pendingApply)
    (hwhole : answers.Whole) (hP : ∀ s', Inv b s' → Kept s access s' → P () s')
    (hrest : ∀ marked s', (∀ degraded, P () { s' with degraded := degraded }) → P () s' → Ends (rest marked) P Q s') :
    Ends (do
      let removed ← Program.attempt (applyDesired b none (some access.id) answers)
      if removed then do
        let marked ← Program.attempt (setStatus access.id .applyFailed fails)
        rest marked
      else markDegraded) P Q s := by
  have hkept : ∀ s', Inv b s' → Kept s access s' → ∀ degraded, P () { s' with degraded := degraded } :=
    fun s' hinv' hkept degraded => hP _ (hinv'.withHealth degraded) hkept
  have hlive : access.status ∉ ended := by
    rw [hstatus]
    decide
  rw [ends_bind, ends_attempt]
  refine ends_applyDesired hinv extra_none (ne_of_mem_active hinv h (by rw [hstatus]; decide)) hwhole ?_ ?_
  · intro files items hinv' hstores hiff
    show Ends (do
      let marked ← Program.attempt (setStatus access.id .applyFailed fails)
      rest marked) P Q _
    rw [ends_bind, ends_attempt]
    refine ends_setStatus hinv' h hlive ⟨by decide, by decide⟩ (fun s' hinv'' hmoved => ?_) ?_
    · have hkept' : Kept s access s' := hmoved.kept
      exact hrest true s' (hkept s' hinv'' hkept') (hP s' hinv'' hkept')
    · exact hrest false _ (hkept _ hinv' fun _ hrow _ => hrow) (hP _ hinv' fun _ hrow _ => hrow)
  · intro e files hinv'
    exact hkept _ hinv' (fun _ hrow _ => hrow) true

theorem exact_of_moved (hmoved : Moved s row new s')
    (h : row ∈ s.accesses.rows) (hstores : Stores b s.files items)
    (hiff : ∀ item, item ∈ items ↔ ∃ row ∈ s.accesses.rows, row.mode = .managed ∧
      (row.status = .active ∨ row ∈ extra) ∧ row.item = item)
    (hextra : ∀ e ∈ extra, e = row) (hnew : new = .active ↔ row.status = .active ∨ row ∈ extra) : Exact b s' := by
  refine ⟨items, hmoved.files ▸ hstores, fun item => (hiff item).trans ⟨?_, ?_⟩⟩
  · rintro ⟨r, hr, hmanaged, hactive, heq⟩
    by_cases hid : r.id = row.id
    · obtain rfl := Rows.eq_of_key_eq hr h hid
      exact ⟨_, (hmoved.mem _).2 (.inr rfl), hmanaged, hnew.2 hactive, heq⟩
    · refine ⟨r, (hmoved.mem r).2 (.inl ⟨hr, hid⟩), hmanaged, hactive.resolve_right fun he => ?_, heq⟩
      exact hid (congrArg ProxyAccess.id (hextra r he))
  · rintro ⟨r, hr, hmanaged, hactive, heq⟩
    rcases (hmoved.mem r).1 hr with ⟨hr, -⟩ | rfl
    · exact ⟨r, hr, hmanaged, .inl hactive, heq⟩
    · exact ⟨row, h, hmanaged, hnew.1 hactive, heq⟩

/-- **A new access gets active with its secret in the files, or the invariant stays.** -/
theorem ends_applyNewAccess {input : IssueInput} (hinv : Inv b s) (h : access ∈ s.accesses.rows)
    (hmanaged : access.mode = .managed) (hstatus : access.status = .pendingApply) (happly : input.apply.Whole)
    (hcompensate : input.compensate.Whole) :
    Ends (applyNewAccess b access input) (fun _ s' => Inv b s' ∧ Exact b s') (fun _ s' => Inv b s') s := by
  have hlive : access.status ∉ ended := by
    rw [hstatus]
    decide
  have hne : access.status ≠ .active := by
    rw [hstatus]
    decide
  have hextra : ∀ e ∈ some access, e ∈ s.accesses.rows ∧ MayExist e ∧ e.status ≠ .active := by
    intro e he
    obtain rfl := Option.some.inj he
    exact ⟨h, ⟨hmanaged, mayExist_iff.2 hlive⟩, hne⟩
  unfold applyNewAccess
  rw [ends_bind, ends_tryCatch]
  refine ends_applyDesired hinv hextra (fun id hid => by cases hid) happly ?_ ?_
  · intro files items hinv' hstores hiff
    have hitem : access.item ∈ items := (hiff _).2 ⟨access, h, hmanaged, .inr rfl, rfl⟩
    rw [ends_tryCatch]
    refine ends_markActive hinv' h (.inl hstatus) hstores hitem (fun s' hinv'' hmoved => ⟨hinv'', ?_⟩) ?_
    · exact exact_of_moved hmoved h hstores hiff (fun e he => (Option.some.inj he).symm) (iff_of_true rfl (.inr rfl))
    · rw [ends_bind]
      unfold compensateFailedManagedCreateAfterApply
      exact ends_compensate hinv' h hstatus hcompensate (fun s' hinv'' _ => hinv'') fun _ _ _ hinv'' => hinv''
  · intro e files hinv'
    rw [ends_bind]
    exact ends_setStatus hinv' h hlive ⟨by decide, by decide⟩ (fun s' hinv'' _ => hinv'') hinv'

theorem ends_issueManaged {input : IssueInput} (hinv : Inv b s) (happly : input.apply.Whole)
    (hcompensate : input.compensate.Whole) : Ends (issueManaged b input)
      (fun _ s' => Inv b s' ∧ (hasActiveAccess s input.owner = false → Exact b s')) (fun _ s' => Inv b s') s := by
  unfold issueManaged
  rw [ends_bind, ends_get]
  split_ifs with hdenied hfound
  · exact hinv
  · exact ⟨hinv, fun hnone => absurd hfound (by rw [hnone]; decide)⟩
  · unfold issueNew
    rw [ends_bind]
    refine ends_ensureManagedRuntimeReady ?_ fun _ => hinv
    rw [ends_bind]
    refine (ends_uniqueManagedSecret hinv).mono ?_ ?_
    · rintro secret s' ⟨rfl, hfresh⟩
      rw [ends_bind]
      refine ends_createAccess hinv (fun _ => by decide) (fun _ => hfresh) ?_ hinv
      intro access s' hinv' hmem hmanaged hstatus
      exact (ends_applyNewAccess hinv' hmem hmanaged hstatus happly hcompensate).mono
        (fun _ _ h => ⟨h.1, fun _ => h.2⟩) fun _ _ h => h
    · rintro _ s' rfl
      exact hinv

theorem ends_issueStatic {input : StaticInput} (hinv : Inv b s) :
    Ends (issueStatic input) (fun _ s' => Inv b s') (fun _ s' => Inv b s') s := by
  unfold issueStatic
  rw [ends_bind, ends_get]
  split_ifs
  · exact hinv
  · exact hinv
  · rw [ends_bind]
    exact ends_createAccess hinv (fun h => by cases h) (fun h => by cases h) (fun _ _ hinv' _ _ _ => hinv') hinv

/-! ### Revoking and deleting -/

theorem eq_of_item_eq {row' : ProxyAccess} (h : row ∈ s.accesses.rows) (h' : row' ∈ s.accesses.rows)
    (heq : row.item = row'.item) : row = row' := by
  have haccess := Option.some.inj (congrArg ManagedSecret.accessId heq)
  have hid : row.id = row'.id := by exact_mod_cast haccess
  exact Rows.eq_of_key_eq h h' hid

theorem not_mem_of_active (h : row ∈ s.accesses.rows) (hne : row.status ≠ .active)
    (hiff : ∀ item, item ∈ items ↔ ∃ row ∈ s.accesses.rows, row.mode = .managed ∧
      (row.status = .active ∨ row ∈ (none : Option ProxyAccess)) ∧ row.item = item) : row.item ∉ items := by
  intro hitem
  obtain ⟨r, hr, -, hactive | hnone, heq⟩ := (hiff row.item).1 hitem
  · rw [eq_of_item_eq hr h heq] at hactive
    exact hne hactive
  · cases hnone

/-- **A managed access is revoked when its secret is not in the files any more.** -/
theorem ends_revokeManaged {input : RevokeInput} (hinv : Inv b s) (h : access ∈ s.accesses.rows)
    (hlive : access.status ∉ ended) (hwhole : input.apply.Whole) :
    Ends (revokeManaged b access input)
      (fun _ s' => Inv b s' ∧ Exact b s' ∧ ∃ row ∈ s'.accesses.rows, row.id = access.id ∧ row.status ∈ ended)
      (fun _ s' => Inv b s') s := by
  unfold revokeManaged
  rw [ends_bind]
  refine ends_ensureManagedRuntimeReady ?_ fun _ => hinv
  rw [ends_bind]
  refine ends_setStatus hinv h hlive ⟨by decide, by decide⟩ (fun s₁ hinv₁ hmoved => ?_) hinv
  obtain ⟨pending, hpending, hid, hstatus⟩ := hmoved.exists
  have hne : pending.status ≠ .active := by
    rw [hstatus]
    decide
  rw [← hid, ends_bind, ends_tryCatch]
  refine ends_applyDesired hinv₁ extra_none (ne_of_mem_active hinv₁ hpending hne) hwhole ?_ ?_
  · intro files items hinv₂ hstores hiff
    refine ends_markEnded hinv₂ hpending (by decide) hstores (fun _ => not_mem_of_active hpending hne hiff)
      (fun s₃ hinv₃ hmoved₃ => ⟨hinv₃, ?_, ?_⟩) hinv₂
    · refine exact_of_moved hmoved₃ hpending hstores hiff (fun e he => by cases he) (iff_of_false (by decide) ?_)
      exact fun hcases => hcases.elim hne fun he => by cases he
    · obtain ⟨row, hrow, hkey, hrevoked⟩ := hmoved₃.exists
      exact ⟨row, hrow, hkey, by rw [hrevoked]; decide⟩
  · intro e files hinv₂
    rw [ends_bind]
    refine ends_setStatus hinv₂ hpending ?_ ⟨by decide, by decide⟩ (fun s₃ hinv₃ _ => hinv₃) hinv₂
    rw [hstatus]
    decide

/-- The access is managed and has not ended. -/
def IsLive (s : State) (id : ℕ) : Prop := ∃ access ∈ s.accesses.rows, access.id = id ∧ access.mode = .managed ∧
  access.status ∉ ended

theorem ends_revoke {input : RevokeInput} (hinv : Inv b s) (hwhole : input.apply.Whole) :
    Ends (revoke b input)
      (fun _ s' => Inv b s' ∧ (IsLive s input.accessId → Exact b s') ∧
        ∃ row ∈ s'.accesses.rows, row.id = input.accessId ∧ row.status ∈ ended)
      (fun _ s' => Inv b s') s := by
  unfold revoke
  rw [ends_bind, ends_get]
  cases hfind : s.accesses.find? input.accessId with
  | none =>
    dsimp only
    split_ifs <;> exact hinv
  | some access =>
    obtain ⟨h, hid⟩ := Rows.find?_eq_some_iff.1 hfind
    have hsame : IsLive s input.accessId → access.mode = .managed ∧ access.status ∉ ended := by
      rintro ⟨row, hrow, hkey, hlive⟩
      obtain rfl := Rows.eq_of_key_eq hrow h (hkey.trans hid.symm)
      exact hlive
    dsimp only
    split_ifs with hdenied hended hdegraded hstatic
    · exact hinv
    · exact ⟨hinv, fun hlive => absurd hended (hsame hlive).2, access, h, hid, hended⟩
    · exact hinv
    · obtain ⟨items, hstores, -⟩ := hinv.store
      refine ends_markEnded hinv h (by decide) hstores (fun hmanaged => ?_) (fun s' hinv' hmoved => ?_) hinv
      · rw [hstatic] at hmanaged
        cases hmanaged
      · obtain ⟨row, hrow, hkey, hinactive⟩ := hmoved.exists
        refine ⟨hinv', fun hlive => ?_, row, hrow, hkey.trans hid, by rw [hinactive]; decide⟩
        rw [(hsame hlive).1] at hstatic
        cases hstatic
    · rw [← hid]
      exact (ends_revokeManaged hinv h hended hwhole).mono (fun _ _ h => ⟨h.1, fun _ => h.2.1, h.2.2⟩) fun _ _ h => h

theorem ends_beginDelete {input : RevokeInput} (hinv : Inv b s) (hwhole : input.apply.Whole) :
    Ends (beginDelete b input) (fun _ s' => Inv b s') (fun _ s' => Inv b s') s := by
  unfold beginDelete
  rw [ends_bind]
  refine (ends_revoke hinv hwhole).mono ?_ fun _ _ h => h
  rintro _ s' ⟨hinv', -, row, hrow, hid, hended⟩
  rw [ends_bind, ends_get]
  cases s'.accesses.find? input.accessId with
  | none => exact hinv'
  | some access =>
    dsimp only
    split_ifs
    · exact hinv'
    · constructor
      · exact hinv'.next
      · exact hinv'.bounds
      · exact hinv'.fingerprint
      · exact hinv'.distinct
      · intro id hmem
        rcases List.mem_cons.1 hmem with rfl | hmem
        · exact ⟨row, hrow, hid, hended⟩
        · exact hinv'.deleting id hmem
      · obtain ⟨items, hstores, hpromises⟩ := hinv'.store
        exact ⟨items, hstores, hpromises.served, hpromises.known⟩

theorem not_mem_of_ended (h : row ∈ s.accesses.rows) (hended : row.status ∈ ended)
    (hpromises : Promises s items) : row.item ∉ items := by
  intro hitem
  obtain ⟨r, hr, -, hmay, heq⟩ := hpromises.known _ hitem
  rw [eq_of_item_eq hr h heq] at hmay
  exact mayExist_iff.1 hmay hended

theorem ends_finishDelete {accessId : ℕ} (hinv : Inv b s) (hbegun : accessId ∈ s.deleting) :
    Ends (finishDelete accessId fails) (fun _ s' => Inv b s') (fun _ s' => Inv b s') s := by
  obtain ⟨row, hrow, rfl, hended⟩ := hinv.deleting accessId hbegun
  obtain ⟨items, hstores, hpromises⟩ := hinv.store
  have hinv' : Inv b { s with deleting := s.deleting.erase row.id } :=
    { next := hinv.next
      bounds := hinv.bounds
      fingerprint := hinv.fingerprint
      distinct := hinv.distinct
      deleting := fun id hid => hinv.deleting id (List.mem_of_mem_erase hid)
      store := ⟨items, hstores, hpromises.served, hpromises.known⟩ }
  unfold finishDelete
  rw [ends_bind, ends_modify]
  exact ends_markEnded hinv' hrow (by decide) hstores (fun _ => not_mem_of_ended hrow hended hpromises)
    (fun _ h _ => h) hinv'

/-! ### Startup -/

/-- A new access of the startup: it gets active only with its own secret. -/
theorem ends_startupReconcilePendingApply {faults : ReconcileFaults} (hinv : Inv b s) (h : access ∈ s.accesses.rows)
    (hmanaged : access.mode = .managed) (hstatus : access.status = .pendingApply) (hstores : Stores b s.files items)
    (hwhole : faults.apply.Whole) : Ends (startupReconcilePendingApply b access items faults)
      (fun _ s' => Inv b s' ∧ Kept s access s') (fun _ s' => Inv b s') s := by
  have hlive : access.status ∉ ended := by
    rw [hstatus]
    decide
  unfold startupReconcilePendingApply
  cases hfind : items.reverse.find? fun item => item.fingerprint = access.secretFingerprint with
  | none => exact ends_setStatus hinv h hlive ⟨by decide, by decide⟩ (fun s' hinv' hmoved => ⟨hinv', hmoved.kept⟩) hinv
  | some item =>
    have hitem : item ∈ items := List.mem_reverse.1 (List.mem_of_find?_eq_some hfind)
    have hequal : item.fingerprint = access.secretFingerprint := by simpa using List.find?_some hfind
    obtain ⟨items', hstores', hpromises⟩ := hinv.store
    obtain rfl := hstores.unique hstores'
    obtain ⟨row, hrow, hmanaged', hmay, rfl⟩ := hpromises.known item hitem
    obtain rfl : row = access :=
      hinv.distinct row hrow access h ⟨hmanaged', hmay⟩ ⟨hmanaged, mayExist_iff.2 hlive⟩ hequal
    dsimp only
    split_ifs
    · exact hinv
    · rw [ends_bind, ends_attempt]
      refine ends_markActive hinv h (.inl hstatus) hstores hitem (fun s' hinv' hmoved => ⟨hinv', hmoved.kept⟩) ?_
      show Ends (compensateFailedStartupPendingApply b row faults) _ _ s
      unfold compensateFailedStartupPendingApply
      refine ends_compensate hinv h hstatus hwhole (fun s' hinv' hkept => ⟨hinv', hkept⟩) ?_
      intro marked s' hhealth hdone
      cases marked with
      | true => exact hdone
      | false => exact hhealth true

theorem ends_startupCompleteManagedRemoval {faults : ReconcileFaults} {delete : Bool} (hinv : Inv b s)
    (h : access ∈ s.accesses.rows) (hne : access.status ≠ .active) (hwhole : faults.apply.Whole) :
    Ends (startupCompleteManagedRemoval b access delete faults)
      (fun _ s' => Inv b s' ∧ Kept s access s') (fun _ s' => Inv b s') s := by
  unfold startupCompleteManagedRemoval
  rw [ends_bind]
  refine ends_applyDesired hinv extra_none (fun id hid => by cases hid) hwhole ?_ fun _ _ hinv' => hinv'
  intro files items hinv' hstores hiff
  have hgone := not_mem_of_active h hne hiff
  have hended : ∀ new stays, new ∈ ended → Ends (markEnded access.id new stays faults.writeFails)
      (fun _ s' => Inv b s' ∧ Kept s access s') (fun _ s' => Inv b s') { s with files := files } := by
    intro new stays hnew
    exact ends_markEnded hinv' h hnew hstores (fun _ => hgone)
      (fun s' hinv'' (hmoved : Moved { s with files := files } access new s') => ⟨hinv'', hmoved.kept⟩) hinv'
  split_ifs
  · exact hended .deleted _ (by decide)
  · exact hended .revoked _ (by decide)

/-- **One access of the startup.** -/
theorem ends_startupReconcileManagedAccess {faults : ReconcileFaults} (hinv : Inv b s) (h : access ∈ s.accesses.rows)
    (hmanaged : access.mode = .managed) (hstores : Stores b s.files items) (hwhole : faults.apply.Whole) :
    Ends (startupReconcileManagedAccess b access items faults)
      (fun changed s' => Inv b s' ∧ Kept s access s' ∧ (changed = false → s' = s)) (fun _ s' => Inv b s') s := by
  have hchanged : ∀ {p : Program State Error Unit}, Ends p (fun _ s' => Inv b s' ∧ Kept s access s')
      (fun _ s' => Inv b s') s → Ends (do
        p
        return true) (fun changed s' => Inv b s' ∧ Kept s access s' ∧ (changed = false → s' = s))
        (fun _ s' => Inv b s') s := by
    intro p hp
    rw [ends_bind]
    exact hp.mono (fun _ s' h => ⟨h.1, h.2, fun hfalse => by cases hfalse⟩) fun _ _ h => h
  have hkept : Kept s access s := fun row hrow _ => hrow
  unfold startupReconcileManagedAccess
  cases hstatus : access.status with
  | pendingApply => exact hchanged (ends_startupReconcilePendingApply hinv h hmanaged hstatus hstores hwhole)
  | pendingRevoke => exact hchanged (ends_startupCompleteManagedRemoval hinv h (by rw [hstatus]; decide) hwhole)
  | revokeFailed => exact hchanged (ends_startupCompleteManagedRemoval hinv h (by rw [hstatus]; decide) hwhole)
  | pendingDelete => exact hchanged (ends_startupCompleteManagedRemoval hinv h (by rw [hstatus]; decide) hwhole)
  | deleteFailed => exact hchanged (ends_startupCompleteManagedRemoval hinv h (by rw [hstatus]; decide) hwhole)
  | active => exact ⟨hinv, hkept, fun _ => rfl⟩
  | applyFailed => exact ⟨hinv, hkept, fun _ => rfl⟩
  | revoked => exact ⟨hinv, hkept, fun _ => rfl⟩
  | inactive => exact ⟨hinv, hkept, fun _ => rfl⟩
  | deleted => exact ⟨hinv, hkept, fun _ => rfl⟩

/-- The loop over the accesses, and the secrets that it has read last. -/
theorem ends_reconcileAccesses {faults : ℕ → ReconcileFaults} {accesses : List ProxyAccess} (hinv : Inv b s)
    (hmem : ∀ access ∈ accesses, access ∈ s.accesses.rows ∧ access.mode = .managed)
    (hsorted : accesses.Pairwise fun x y => x.id < y.id) (hstores : Stores b s.files items)
    (hwhole : ∀ id, (faults id).apply.Whole) : Ends (reconcileAccesses b faults accesses items)
      (fun store s' => Inv b s' ∧ Stores b s'.files store) (fun _ s' => Inv b s') s := by
  induction accesses generalizing s items with
  | nil => exact ⟨hinv, hstores⟩
  | cons access accesses ih =>
    obtain ⟨hfirst, hrest⟩ := List.pairwise_cons.1 hsorted
    obtain ⟨haccess, hmanaged⟩ := hmem access List.mem_cons_self
    unfold reconcileAccesses
    rw [ends_bind]
    refine (ends_startupReconcileManagedAccess hinv haccess hmanaged hstores (hwhole access.id)).mono ?_ fun _ _ h => h
    rintro changed s' ⟨hinv', hkept, hsame⟩
    have hmem' : ∀ a ∈ accesses, a ∈ s'.accesses.rows ∧ a.mode = .managed := by
      intro a ha
      obtain ⟨hold, hmanaged'⟩ := hmem a (List.mem_cons_of_mem _ ha)
      exact ⟨hkept a hold (Nat.ne_of_gt (hfirst a ha)), hmanaged'⟩
    cases changed with
    | false =>
      obtain rfl := hsame rfl
      exact ih hinv hmem' hrest hstores
    | true =>
      show Ends (do
        let store ← readAllRuntimeManagedSecrets b
        reconcileAccesses b faults accesses store) _ _ s'
      rw [ends_bind]
      exact ends_readAllRuntimeManagedSecrets hinv' fun store hstores' _ => ih hinv' hmem' hrest hstores'

theorem exact_of_sameFingerprints (hinv : Inv b s) (hstores : Stores b s.files items)
    (hsame : sameFingerprints items ((activeManagedAccesses s ++ (none : Option ProxyAccess).toList).map
      ProxyAccess.item) = true) : Exact b s := by
  obtain ⟨items', hstores', hpromises⟩ := hinv.store
  obtain rfl := hstores.unique hstores'
  refine ⟨items, hstores, fun item => ⟨fun hitem => ?_, ?_⟩⟩
  · obtain ⟨row, hrow, hmanaged, hmay, rfl⟩ := hpromises.known item hitem
    rw [sameFingerprints, Bool.and_eq_true, List.all_eq_true, List.all_eq_true] at hsame
    have hmem := of_decide_eq_true (hsame.2 row.item hitem)
    rw [List.map_map] at hmem
    obtain ⟨active, hactive, heq⟩ := List.mem_map.1 hmem
    obtain ⟨hrow', hmanaged', hstatus⟩ := (mem_activeManagedAccesses hinv).1 (by simpa using hactive)
    obtain rfl : active = row := hinv.distinct active hrow' row hrow (mayExist_of_active hmanaged' hstatus)
      ⟨hmanaged, hmay⟩ heq
    exact ⟨active, hrow', hmanaged', hstatus, rfl⟩
  · rintro ⟨row, hrow, hmanaged, hstatus, rfl⟩
    exact hpromises.served row hrow hmanaged hstatus

/-- **The startup leaves the secrets of the active accesses, or something was fatal.** -/
theorem ends_reconcileSecrets {input : ReconcileInput} (hinv : Inv b s) (hwhole : ∀ id, (input.faults id).apply.Whole)
    (hrepair : input.repair.Whole) :
    Ends (reconcileSecrets b input) (fun _ s' => Inv b s' ∧ Exact b s') (fun _ s' => Inv b s') s := by
  unfold reconcileSecrets
  rw [ends_bind]
  refine ends_ensureManagedRuntimeReady ?_ fun _ => hinv
  rw [ends_bind]
  refine ends_readAllRuntimeManagedSecrets hinv fun store hstores _ => ?_
  rw [ends_bind, ends_get, ends_bind, managedAccessesByStatuses_eq hinv, List.filter_filter]
  have hmem : ∀ access ∈ s.accesses.rows.filter fun row =>
      decide (row.mode = .managed) && mtprotoStartupReconcileStatuses.contains row.status,
      access ∈ s.accesses.rows ∧ access.mode = .managed := by
    intro access haccess
    obtain ⟨hrow, hfacts⟩ := List.mem_filter.1 haccess
    rw [Bool.and_eq_true, decide_eq_true_eq] at hfacts
    exact ⟨hrow, hfacts.1⟩
  refine (ends_reconcileAccesses hinv hmem (s.accesses.sorted.filter _) hstores hwhole).mono ?_ fun _ _ h => h
  rintro store' s' ⟨hinv', hstores'⟩
  rw [ends_bind]
  refine ends_desiredManagedSecrets hinv' extra_none (fun id hid => by cases hid) ?_ fun _ => hinv'
  split_ifs with hsame
  · exact ⟨hinv', exact_of_sameFingerprints hinv' hstores' hsame⟩
  · refine ends_applySecrets hinv' extra_none hrepair (fun files items hinv'' hstores'' hiff => ⟨hinv'', ?_⟩)
      fun _ _ hinv'' => hinv''
    refine ⟨items, hstores'', fun item => (hiff item).trans (exists_congr fun row => ?_)⟩
    simp only [Option.not_mem_none, or_false]

theorem ends_reconcile {input : ReconcileInput} (hinv : Inv b s) (hwhole : ∀ id, (input.faults id).apply.Whole)
    (hrepair : input.repair.Whole) : Ends (reconcile b input)
      (fun done s' => Inv b s' ∧ (done = true → Exact b s')) (fun _ s' => Inv b s') s := by
  unfold reconcile
  rw [ends_bind, ends_attempt]
  refine (ends_reconcileSecrets hinv hwhole hrepair).mono (fun _ s' h => ⟨h.1, fun _ => h.2⟩) fun _ s' hinv' => ?_
  exact ⟨hinv'.withHealth true, fun hfalse => by cases hfalse⟩

/-! ### Runs -/

/-- The applies of the operation draw texts that are not empty, and none of their copies breaks off. -/
def Action.Whole : Action → Prop
  | .issueManaged input => input.apply.Whole ∧ input.compensate.Whole
  | .revoke input => input.apply.Whole
  | .beginDelete input => input.apply.Whole
  | .reconcile input => (∀ id, (input.faults id).apply.Whole) ∧ input.repair.Whole
  | _ => True

/-- The operation has something to do, and it returns. -/
def Completes (b : Backend) (s : State) : Action → Prop
  | .issueManaged input => hasActiveAccess s input.owner = false ∧ (result (issueManaged b input) s).1 = some ()
  | .revoke input => IsLive s input.accessId ∧ (result (revoke b input) s).1 = some ()
  | .reconcile input => (result (reconcile b input) s).1 = some true
  | _ => False

/-- **One operation**, whatever fails. -/
theorem inv_step {action : Action} (hinv : Inv b s) (hwhole : action.Whole) (hstep : step b s action = some s') :
    Inv b s' ∧ (Completes b s action → Exact b s') := by
  have hoperation : ∀ {p : Program State Error Unit}, Ends p (fun _ s' => Inv b s') (fun _ s' => Inv b s') s →
      Inv b (result p s).2 := fun h => Ends.result (R := fun _ s' => Inv b s') h
  cases action with
  | issueManaged input =>
    cases hstep
    have hends := ends_issueManaged hinv hwhole.1 hwhole.2
    have hresult := Ends.result (R := fun r s' => Inv b s' ∧
      (hasActiveAccess s input.owner = false → r = some () → Exact b s'))
      (hends.mono (fun _ _ h => ⟨h.1, fun hnone _ => h.2 hnone⟩) fun _ _ h => ⟨h, fun _ hnone => by cases hnone⟩)
    exact ⟨hresult.1, fun hcompletes => hresult.2 hcompletes.1 hcompletes.2⟩
  | issueStatic input =>
    cases hstep
    exact ⟨hoperation (ends_issueStatic hinv), fun h => h.elim⟩
  | revoke input =>
    cases hstep
    have hends := ends_revoke hinv hwhole
    have hresult := Ends.result (R := fun r s' => Inv b s' ∧ (IsLive s input.accessId → r = some () → Exact b s'))
      (hends.mono (fun _ _ h => ⟨h.1, fun hlive _ => h.2.1 hlive⟩) fun _ _ h => ⟨h, fun _ hnone => by cases hnone⟩)
    exact ⟨hresult.1, fun hcompletes => hresult.2 hcompletes.1 hcompletes.2⟩
  | beginDelete input =>
    cases hstep
    exact ⟨hoperation (ends_beginDelete hinv hwhole), fun h => h.elim⟩
  | finishDelete accessId fails =>
    dsimp only [step] at hstep
    split_ifs at hstep with hbegun
    cases hstep
    exact ⟨hoperation (ends_finishDelete hinv hbegun), fun h => h.elim⟩
  | reconcile input =>
    cases hstep
    have hstate : Ends (operation b (.reconcile input)) (fun _ s' => s' = (result (reconcile b input) s).2)
        (fun _ s' => s' = (result (reconcile b input) s).2) s := by
      show Ends (do
        let _ ← reconcile b input
        pure ()) _ _ s
      rw [ends_bind]
      exact ends_result_state
    have hends := ends_reconcile hinv hwhole.1 hwhole.2
    have hresult := Ends.result (R := fun r s' => Inv b s' ∧ (r = some true → Exact b s'))
      (hends.mono (fun _ _ h => ⟨h.1, fun hdone => h.2 (Option.some.inj hdone)⟩)
        fun _ _ h => ⟨h, fun hnone => by cases hnone⟩)
    rw [Ends.result (R := fun _ s' => s' = (result (reconcile b input) s).2) hstate]
    exact hresult
  | setHealth degraded =>
    cases hstep
    exact ⟨hinv.withHealth degraded, fun h => h.elim⟩

theorem inv_start {g : ℤ} (h : Holds b.interpreter b.adapter [] g files) : Inv b (start files) where
  next := Nat.one_pos
  bounds := fun _ hrow => by cases hrow
  fingerprint := fun _ hrow => by cases hrow
  distinct := fun _ hrow => by cases hrow
  deleting := fun _ hid => by cases hid
  store := ⟨[], ⟨normalized_nil, g, h⟩, fun _ hrow => (by cases hrow), fun _ hitem => by cases hitem⟩

theorem inv_run {g : ℤ} {actions : List Action} (hfiles : Holds b.interpreter b.adapter [] g files)
    (hwhole : ∀ action ∈ actions, action.Whole) (hrun : runFrom (step b) (start files) actions = some s) : Inv b s :=
  @invariant_of_allowed State Action (step b) (fun _ action => action.Whole) (Inv b) (start files) s
    (fun _ _ _ hinv hwhole hstep => (inv_step hinv hwhole hstep).1) actions (inv_start hfiles)
    (allowed_of_forall (fun action haction _ => hwhole action haction) _) hrun

theorem Stores.launch (h : Stores b files items) :
    ∃ launched, (items ≠ [] → launched = items.map ManagedSecret.secret) ∧
      (items = [] → ∃ placeholder, keepsPlaceholder placeholder = true ∧
        launched = [b.interpreter.strOr (placeholder.field "secret".toList)]) ∧
      ∀ argv, launch b.interpreter files.env (files.at b.adapter) = .ok argv ↔
        b.adapter.Starts ∧ argv = b.adapter.arguments launched := by
  obtain ⟨g, hholds⟩ := h.holds
  obtain ⟨normalized, launched, hnormalized, hlaunched⟩ := launch_of_holds hholds
  rw [h.canonical.normalize] at hnormalized
  obtain rfl := Except.ok.inj hnormalized
  exact ⟨launched, hlaunched⟩

/-- **The accesses keep their promises.**  In every run, whatever writes and applies fail: the files can be read, every
active access has its secret there, every secret there is the one of an access that may exist, and the proxy is started
with these secrets and no others. -/
theorem promises_of_run {g : ℤ} {actions : List Action} (hfiles : Holds b.interpreter b.adapter [] g files)
    (hwhole : ∀ action ∈ actions, action.Whole) (hrun : runFrom (step b) (start files) actions = some s) :
    ∃ items, readCurrentManagedSecrets b.interpreter s.files.secrets = .ok items ∧ Promises s items ∧
      ∃ launched, (items ≠ [] → launched = items.map ManagedSecret.secret) ∧
        (items = [] → ∃ placeholder, keepsPlaceholder placeholder = true ∧
          launched = [b.interpreter.strOr (placeholder.field "secret".toList)]) ∧
        ∀ argv, launch b.interpreter s.files.env (s.files.at b.adapter) = .ok argv ↔
          b.adapter.Starts ∧ argv = b.adapter.arguments launched := by
  obtain ⟨items, hstores, hpromises⟩ := (inv_run hfiles hwhole hrun).store
  obtain ⟨text, env, n, heq, hread⟩ := hstores.readsBack
  refine ⟨items, ?_, hpromises, hstores.launch⟩
  rw [heq]
  exact hread.current

/-- The adapter with the usual paths. -/
def sampleBackend : Backend := ⟨plain, usual, true⟩

def sampleFiles : Files := (result (initManagedRuntimeBaseline plain usual applySeven.answers) ⟨none, none⟩).2

theorem holds_sampleFiles : Holds plain usual [] 0 sampleFiles := by
  have hends : Ends (initManagedRuntimeBaseline plain usual applySeven.answers) (fun g s' => Holds plain usual [] g s')
      (fun _ _ => True) ⟨none, none⟩ := ends_initManagedRuntimeBaseline (List.cons_ne_nil _ _)
  have hresult := Ends.result (R := fun r s' => ∀ g ∈ r, Holds plain usual [] g s')
    (hends.mono (fun g s' h n hn => Option.some.inj hn ▸ h) fun _ _ _ n hn => by cases hn)
  exact hresult 0 rfl

theorem whole_applySeven : applySeven.answers.Whole where
  token := List.cons_ne_nil _ _
  token' := List.cons_ne_nil _ _
  restoreSecrets := fun _ h => by cases h
  restoreEnv := fun _ h => by cases h

/-- The first user asks for an access; `markActiveFails` says whether the write behind the apply fails. -/
def sampleIssue (markActiveFails : Bool) : IssueInput where
  owner := 7
  allowed := true
  ready := true
  draws := ["0123456789abcdef0123456789abcdef".toList]
  createFails := false
  apply := applySeven.answers
  applyFailedFails := false
  markActiveFails := markActiveFails
  compensate := applySeven.answers
  compensateFails := false

theorem whole_sampleIssue (markActiveFails : Bool) : (Action.issueManaged (sampleIssue markActiveFails)).Whole :=
  ⟨whole_applySeven, whole_applySeven⟩

/-- The write behind the first apply fails; then the user gets an access. -/
theorem promises_of_run_twice : ∃ s, runFrom (step sampleBackend) (start sampleFiles)
      [.issueManaged (sampleIssue true), .issueManaged (sampleIssue false)] = some s ∧
    ∃ items, readCurrentManagedSecrets plain s.files.secrets = .ok items ∧ Promises s items ∧
      ∃ launched, (items ≠ [] → launched = items.map ManagedSecret.secret) ∧
        (items = [] → ∃ placeholder, keepsPlaceholder placeholder = true ∧
          launched = [plain.strOr (placeholder.field "secret".toList)]) ∧
        ∀ argv, launch plain s.files.env (s.files.at usual) = .ok argv ↔
          usual.Starts ∧ argv = usual.arguments launched := by
  obtain ⟨s, hs⟩ : ∃ s, runFrom (step sampleBackend) (start sampleFiles)
      [.issueManaged (sampleIssue true), .issueManaged (sampleIssue false)] = some s := ⟨_, rfl⟩
  refine ⟨s, hs, @promises_of_run sampleBackend s sampleFiles 0 _ holds_sampleFiles (fun action haction => ?_) hs⟩
  rcases List.mem_cons.1 haction with rfl | haction
  · exact whole_sampleIssue true
  · rw [List.mem_singleton.1 haction]
    exact whole_sampleIssue false

/-- **What an operation leaves that has something to do and returns**, in every run, whatever has failed before: the
proxy is started with the secrets of the active accesses and with no others. -/
theorem exact_of_completes {g : ℤ} {actions : List Action} {action : Action}
    (hfiles : Holds b.interpreter b.adapter [] g files) (hwhole : ∀ a ∈ actions, a.Whole) (hlast : action.Whole)
    (hrun : runFrom (step b) (start files) actions = some s) (hstep : step b s action = some s')
    (hcompletes : Completes b s action) :
    ∃ launched, (∀ argv, launch b.interpreter s'.files.env (s'.files.at b.adapter) = .ok argv ↔
        b.adapter.Starts ∧ argv = b.adapter.arguments launched) ∧
      ((∃ access ∈ s'.accesses.rows, access.mode = .managed ∧ access.status = .active) → ∀ secret, secret ∈ launched ↔
        ∃ access ∈ s'.accesses.rows, access.mode = .managed ∧ access.status = .active ∧ access.secret = secret) ∧
      ((¬ ∃ access ∈ s'.accesses.rows, access.mode = .managed ∧ access.status = .active) →
        ∃ placeholder, keepsPlaceholder placeholder = true ∧
          launched = [b.interpreter.strOr (placeholder.field "secret".toList)]) := by
  obtain ⟨items, hstores, hiff⟩ := (inv_step (inv_run hfiles hwhole hrun) hlast hstep).2 hcompletes
  obtain ⟨launched, husers, hplaceholder, hargv⟩ := hstores.launch
  refine ⟨launched, hargv, ?_, ?_⟩
  · rintro ⟨access, haccess, hmanaged, hactive⟩ secret
    have hitem := (hiff access.item).2 ⟨access, haccess, hmanaged, hactive, rfl⟩
    rw [husers (List.ne_nil_of_mem hitem), List.mem_map]
    constructor
    · rintro ⟨item, hitem, rfl⟩
      obtain ⟨row, hrow, hmanaged, hactive, rfl⟩ := (hiff item).1 hitem
      exact ⟨row, hrow, hmanaged, hactive, rfl⟩
    · rintro ⟨row, hrow, hmanaged, hactive, rfl⟩
      exact ⟨row.item, (hiff _).2 ⟨row, hrow, hmanaged, hactive, rfl⟩, rfl⟩
  · intro hnone
    refine hplaceholder (List.eq_nil_iff_forall_not_mem.2 fun item hitem => hnone ?_)
    obtain ⟨row, hrow, hmanaged, hactive, -⟩ := (hiff item).1 hitem
    exact ⟨row, hrow, hmanaged, hactive⟩

theorem completes_sampleIssue :
    Completes sampleBackend (start sampleFiles) (.issueManaged (sampleIssue false)) := by
  refine ⟨rfl, ?_⟩
  decide +kernel

/-- The first access. -/
theorem exact_of_completes_seven : ∃ s', step sampleBackend (start sampleFiles) (.issueManaged (sampleIssue false)) =
      some s' ∧ ∃ launched, (∀ argv, launch plain s'.files.env (s'.files.at usual) = .ok argv ↔
        usual.Starts ∧ argv = usual.arguments launched) ∧
      ((∃ access ∈ s'.accesses.rows, access.mode = .managed ∧ access.status = .active) → ∀ secret, secret ∈ launched ↔
        ∃ access ∈ s'.accesses.rows, access.mode = .managed ∧ access.status = .active ∧ access.secret = secret) ∧
      ((¬ ∃ access ∈ s'.accesses.rows, access.mode = .managed ∧ access.status = .active) →
        ∃ placeholder, keepsPlaceholder placeholder = true ∧
          launched = [plain.strOr (placeholder.field "secret".toList)]) :=
  ⟨_, rfl, @exact_of_completes sampleBackend (start sampleFiles) _ sampleFiles 0 [] _ holds_sampleFiles
    (fun _ h => by cases h) (whole_sampleIssue false) rfl rfl completes_sampleIssue⟩

end VpnBot.MtProto
