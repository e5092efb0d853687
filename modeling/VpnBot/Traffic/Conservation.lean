import Mathlib.Algebra.Order.Group.Nat
import VpnBot.Traffic.Stats

/-!
# Every byte is booked once

A poll adds to the bucket of its hour what it adds to a total, and never takes anything from a total.
So from the creation of the buckets on, a total is what it was then and what the buckets of the key hold
(`Books`), after every run of polls, whatever the counters do (`traffic_conserved`).
-/

namespace VpnBot.Traffic

open Sys Program

/-! ### Sums of buckets -/

def bucketBytes (p : HourlySlot → Bool) (d : Direction) (rows : List HourlyBucket) : ℕ :=
  ((rows.filter fun row => p row.slot).map fun row => (row.bytes.get d).getD 0).sum

/-- Every bucket holds integers. -/
def Integral (rows : List HourlyBucket) : Prop := ∀ row ∈ rows, ∀ d, (row.bytes.get d).isSome = true

section Buckets

variable {p : HourlySlot → Bool} {d : Direction} {rows : List HourlyBucket} {slot : HourlySlot}
  {delta : PerDirection ℕ}

theorem bucketBytes_cons (row : HourlyBucket) (rows : List HourlyBucket) :
    bucketBytes p d (row :: rows) =
      (if p row.slot then (row.bytes.get d).getD 0 else 0) + bucketBytes p d rows := by
  unfold bucketBytes
  cases hp : p row.slot <;> simp [hp]

theorem addInteger_of_le {m n : ℕ} (h : m + n ≤ maxInteger) : addInteger (some m) n = some (m + n) :=
  if_pos h

theorem bucketBytes_addToBucket (hintegral : Integral rows) (hp : p slot = true)
    (hfits : bucketBytes p d rows + delta.get d ≤ maxInteger) :
    bucketBytes p d (addToBucket slot delta rows) = bucketBytes p d rows + delta.get d := by
  induction rows with
  | nil =>
    unfold addToBucket
    rw [bucketBytes_cons, if_pos hp, PerDirection.get_ofFn]
    exact Nat.add_comm _ _
  | cons row rows ih =>
    rw [bucketBytes_cons] at hfits ⊢
    unfold addToBucket
    by_cases hslot : row.slot = slot
    · have hrow : p row.slot = true := hslot ▸ hp
      obtain ⟨m, hm⟩ := Option.isSome_iff_exists.1 (hintegral row List.mem_cons_self d)
      rw [if_pos hrow, hm, Option.getD_some] at hfits
      rw [if_pos hslot, bucketBytes_cons]
      dsimp only
      rw [if_pos hrow, if_pos hrow, PerDirection.get_ofFn, hm, addInteger_of_le (by omega),
        Option.getD_some, Option.getD_some]
      omega
    · rw [if_neg hslot, bucketBytes_cons,
        ih (fun other hother => hintegral other (List.mem_cons_of_mem _ hother)) (by omega)]
      omega

theorem bucketBytes_addToBucket_of_not (hp : p slot = false) :
    bucketBytes p d (addToBucket slot delta rows) = bucketBytes p d rows := by
  induction rows with
  | nil =>
    unfold addToBucket
    rw [bucketBytes_cons, if_neg (by simp [hp])]
    exact Nat.zero_add _
  | cons row rows ih =>
    unfold addToBucket
    by_cases hslot : row.slot = slot
    · rw [if_pos hslot, bucketBytes_cons, bucketBytes_cons]
      simp [hslot, hp]
    · rw [if_neg hslot, bucketBytes_cons, bucketBytes_cons, ih]

/-- The sum over the buckets of the key bounds each of them, so none becomes a REAL. -/
theorem integral_addToBucket (hintegral : Integral rows) (hp : p slot = true)
    (hfits : ∀ d, bucketBytes p d rows + delta.get d ≤ maxInteger) :
    Integral (addToBucket slot delta rows) := by
  induction rows with
  | nil =>
    intro row hrow d
    unfold addToBucket at hrow
    rw [List.mem_singleton.1 hrow, PerDirection.get_ofFn]
    rfl
  | cons head rows ih =>
    have htail : Integral rows := fun row hrow => hintegral row (List.mem_cons_of_mem _ hrow)
    simp only [bucketBytes_cons] at hfits
    unfold addToBucket
    by_cases hslot : head.slot = slot
    · rw [if_pos hslot]
      intro row hrow d
      rcases List.mem_cons.1 hrow with rfl | hrow
      · obtain ⟨m, hm⟩ := Option.isSome_iff_exists.1 (hintegral head List.mem_cons_self d)
        have hfit := hfits d
        rw [hslot, if_pos hp, hm, Option.getD_some] at hfit
        dsimp only
        rw [PerDirection.get_ofFn, hm, addInteger_of_le (by omega)]
        rfl
      · exact htail row hrow d
    · rw [if_neg hslot]
      intro row hrow d
      rcases List.mem_cons.1 hrow with rfl | hrow
      · exact hintegral row List.mem_cons_self d
      · exact ih htail (fun d => by have hfit := hfits d; omega) row hrow d

end Buckets

/-! ### The books -/

def ofKey (keyId : ℕ) (slot : HourlySlot) : Bool := slot.keyId = keyId

/-- The slots of a key in an hour. -/
def ofKeyAt (keyId hour : ℕ) (slot : HourlySlot) : Bool := slot.keyId = keyId && slot.hourUtc = hour

namespace TrafficDb

def total (db : TrafficDb) (keyId : ℕ) (d : Direction) : ℕ :=
  (db.stats keyId).elim 0 fun stats => stats.totals.get d

/-- **The books balance**: a total is its base and what the buckets of the key hold. -/
structure Books (base : ℕ → Direction → ℕ) (db : TrafficDb) : Prop where
  integral : Integral db.hourly
  balance : ∀ keyId d, db.total keyId d = base keyId d + bucketBytes (ofKey keyId) d db.hourly

/-- What polls do: no total decreases, and only the bucket of the hour changes. -/
structure Polled (now : ℕ → ℕ) (db db' : TrafficDb) : Prop where
  grows : ∀ keyId d, db.total keyId d ≤ db'.total keyId d
  hours : ∀ keyId hour d, hour ≠ hourUtc (now keyId) →
    bucketBytes (ofKeyAt keyId hour) d db'.hourly = bucketBytes (ofKeyAt keyId hour) d db.hourly

theorem Polled.refl (now : ℕ → ℕ) (db : TrafficDb) : db.Polled now db :=
  ⟨fun _ _ => le_rfl, fun _ _ _ _ => rfl⟩

theorem Polled.trans {now : ℕ → ℕ} {db₁ db₂ db₃ : TrafficDb} (h : db₁.Polled now db₂)
    (h' : db₂.Polled now db₃) : db₁.Polled now db₃ :=
  ⟨fun keyId d => (h.grows keyId d).trans (h'.grows keyId d),
    fun keyId hour d hne => (h'.hours keyId hour d hne).trans (h.hours keyId hour d hne)⟩

end TrafficDb

/-! ### The deltas -/

/-- A counter that is reset, is missing or is new never takes anything from the total. -/
theorem le_nextTotalForDirection (total : ℤ) (previousRaw currentRaw : Option ℤ) :
    total ≤ (nextTotalForDirection total previousRaw currentRaw).1 := by
  unfold nextTotalForDirection
  cases currentRaw with
  | none => exact le_rfl
  | some currentRaw =>
    dsimp only
    unfold nextTotal
    cases previousRaw with
    | none =>
      dsimp only
      omega
    | some previousRaw =>
      dsimp only
      split_ifs <;> omega

/-! ### The refresh of a key -/

/-- What the refresh of one key does: the books stay balanced, and the other rows stay as they are. -/
structure KeyPolled (base : ℕ → Direction → ℕ) (now : ℕ → ℕ) (keyId : ℕ) (db db' : TrafficDb) :
    Prop where
  books : db'.Books base
  polled : db.Polled now db'
  others : ∀ other, other ≠ keyId → db'.stats other = db.stats other

section Key

variable {db : TrafficDb} {base : ℕ → Direction → ℕ} {now : ℕ → ℕ} {broken : Broken} {keyId : ℕ}
  {source : String} {row : TrafficStats}

theorem ends_execute {P : Unit → TrafficDb → Prop} {Q : TrafficError → TrafficDb → Prop}
    {raises : Bool} {numbers : List ℕ} {write : TrafficDb → TrafficDb} (hQ : ∀ e, Q e db)
    (hP : (∀ n ∈ numbers, n ≤ maxInteger) → P () (write db)) :
    Ends (execute raises numbers write) P Q db := by
  unfold execute
  split_ifs with hraises hfits
  · exact hQ _
  · exact hP (by simpa using hfits)
  · exact hQ _

theorem stats_setStats_of_ne {other : ℕ} (h : other ≠ keyId) :
    (db.setStats keyId row).stats other = db.stats other :=
  Function.update_of_ne h _ _

theorem total_setStats (d : Direction) : (db.setStats keyId row).total keyId d = row.totals.get d := by
  unfold TrafficDb.total TrafficDb.setStats
  dsimp only
  rw [Function.update_self]
  rfl

theorem total_setStats_of_ne {other : ℕ} (h : other ≠ keyId) (d : Direction) :
    (db.setStats keyId row).total other d = db.total other d := by
  unfold TrafficDb.total
  rw [stats_setStats_of_ne h]

theorem keyPolled_setStats (h : db.Books base)
    (hrow : ∀ d, row.totals.get d = db.total keyId d) :
    KeyPolled base now keyId db (db.setStats keyId row) := by
  have htotal : ∀ other d, (db.setStats keyId row).total other d = db.total other d := by
    intro other d
    by_cases hother : other = keyId
    · subst hother
      rw [total_setStats, hrow]
    · exact total_setStats_of_ne hother d
  refine ⟨⟨h.integral, fun other d => ?_⟩, ⟨fun other d => ?_, fun _ _ _ _ => rfl⟩,
    fun other hother => stats_setStats_of_ne hother⟩
  · rw [htotal]
    exact h.balance other d
  · rw [htotal]

theorem keyPolled_upsertStats (h : db.Books base) {change : TrafficStats → TrafficStats}
    (hrow : row.totals = ⟨0, 0⟩) (hchange : ∀ row, (change row).totals = row.totals) :
    KeyPolled base now keyId db (db.upsertStats keyId row change) := by
  unfold TrafficDb.upsertStats
  apply keyPolled_setStats h
  intro d
  unfold TrafficDb.total
  cases db.stats keyId with
  | none =>
    dsimp only [Option.map_none, Option.getD_none, Option.elim_none]
    rw [hrow]
    cases d <;> rfl
  | some stored =>
    dsimp only [Option.map_some, Option.getD_some, Option.elim_some]
    rw [hchange]

theorem ends_readBack {R : TrafficDb → Prop} (h : R db) :
    Ends (readBack broken keyId) (fun _ => R) (fun _ _ => True) db := by
  unfold readBack
  rw [ends_bind, ends_get]
  split_ifs
  · exact trivial
  · split
    · exact trivial
    · exact h

theorem ends_touchAttempt (h : db.Books base) (time : ℕ) :
    Ends (touchAttempt broken keyId time source)
      (fun _ => KeyPolled base now keyId db) (fun _ _ => True) db := by
  unfold touchAttempt
  rw [ends_bind]
  apply ends_execute (fun _ => trivial)
  intro _
  exact ends_readBack (keyPolled_upsertStats h rfl fun _ => rfl)

theorem ends_upsertUnavailable (h : db.Books base) (time : ℕ) (reason : String) :
    Ends (upsertUnavailable broken keyId time reason source)
      (fun _ => KeyPolled base now keyId db) (fun _ _ => True) db := by
  unfold upsertUnavailable
  rw [ends_bind]
  apply ends_execute (fun _ => trivial)
  intro _
  exact ends_readBack (keyPolled_upsertStats h rfl fun _ => rfl)

/-- **The bucket of the hour gets what the totals get.** -/
theorem keyPolled_addHourly (h : db.Books base) {protocol : VpnKeyType} {delta : PerDirection ℕ}
    (hrow : ∀ d, row.totals.get d = db.total keyId d + delta.get d)
    (hfits : ∀ d, row.totals.get d ≤ maxInteger) :
    KeyPolled base now keyId db
      ((db.setStats keyId row).addHourly ⟨hourUtc (now keyId), keyId, protocol⟩ delta) := by
  have hslot : ∀ other, ofKey other ⟨hourUtc (now keyId), keyId, protocol⟩ = decide (keyId = other) :=
    fun _ => rfl
  have hroom : ∀ d, bucketBytes (ofKey keyId) d db.hourly + delta.get d ≤ maxInteger := by
    intro d
    have hbalance := h.balance keyId d
    have hfit := hfits d
    rw [hrow d] at hfit
    omega
  refine ⟨⟨?_, fun other d => ?_⟩, ⟨fun other d => ?_, fun other hour d hne => ?_⟩,
    fun other hother => stats_setStats_of_ne hother⟩
  · exact integral_addToBucket h.integral (by simp [ofKey]) hroom
  · show (db.setStats keyId row).total other d =
      base other d + bucketBytes (ofKey other) d (addToBucket _ delta db.hourly)
    by_cases hother : other = keyId
    · subst hother
      rw [bucketBytes_addToBucket h.integral (by simp [ofKey]) (hroom d), total_setStats, hrow,
        h.balance]
      omega
    · rw [bucketBytes_addToBucket_of_not (by simp [ofKey, Ne.symm hother]),
        total_setStats_of_ne hother]
      exact h.balance other d
  · show db.total other d ≤ (db.setStats keyId row).total other d
    by_cases hother : other = keyId
    · subst hother
      rw [total_setStats, hrow]
      omega
    · rw [total_setStats_of_ne hother]
  · show bucketBytes _ d (addToBucket _ delta db.hourly) = _
    apply bucketBytes_addToBucket_of_not
    unfold ofKeyAt
    by_cases hother : keyId = other
    · subst hother
      simp [hne.symm]
    · simp [hother]

theorem ends_upsertSuccess (h : db.Books base) {totals delta : PerDirection ℤ}
    {raw : PerDirection (Option ℤ)} {protocol : VpnKeyType} (hdelta : ∀ d, 0 ≤ delta.get d)
    (htotals : ∀ d, totals.get d = db.total keyId d + delta.get d) :
    Ends (upsertSuccess broken keyId totals raw (now keyId) source (some ⟨protocol, delta⟩))
      (fun _ => KeyPolled base now keyId db) (fun _ _ => True) db := by
  unfold upsertSuccess
  rw [ends_bind]
  apply ends_execute (fun _ => trivial)
  intro hfits
  have hrow : ∀ d, (totals.get d).toNat = db.total keyId d + (delta.get d).toNat := by
    intro d
    have hd := hdelta d
    rw [htotals d]
    omega
  have hbound : ∀ d, (totals.get d).toNat ≤ maxInteger := by
    intro d
    apply hfits
    refine List.mem_append_left _ (List.mem_cons_of_mem _ ?_)
    have hmem := PerDirection.mem_toList (PerDirection.ofFn fun d => (totals.get d).toNat) d
    rwa [PerDirection.get_ofFn] at hmem
  dsimp only
  split_ifs with hmoved
  · rw [ends_bind]
    apply ends_execute (fun _ => trivial)
    intro _
    refine keyPolled_addHourly h (fun d => ?_) fun d => ?_
    · rw [PerDirection.get_ofFn, PerDirection.get_ofFn, hrow]
    · rw [PerDirection.get_ofFn]
      exact hbound d
  · refine keyPolled_setStats h fun d => ?_
    have hzero : (delta.get d).toNat = 0 := by
      have hd := hdelta d
      cases d
      · show delta.downloaded.toNat = 0
        omega
      · show delta.uploaded.toNat = 0
        omega
    rw [PerDirection.get_ofFn, hrow, hzero, Nat.add_zero]

theorem ends_storeSuccess (h : db.Books base) (key : TrafficKey)
    (raw : PerDirection (Option ℤ)) :
    Ends (storeSuccess broken key (db.stats key.id) raw source (now key.id))
      (fun _ => KeyPolled base now key.id db) (fun _ _ => True) db := by
  unfold storeSuccess
  dsimp only
  have hprevious : ∀ d, ((db.stats key.id).elim 0 fun stats => (stats.totals.get d : ℤ)) =
      (db.total key.id d : ℤ) := by
    intro d
    unfold TrafficDb.total
    cases db.stats key.id <;> rfl
  simp only [hprevious]
  apply ends_upsertSuccess h
  · intro d
    rw [PerDirection.get_ofFn]
    have hle := le_nextTotalForDirection (db.total key.id d)
      ((db.stats key.id).bind fun stats => (stats.lastRaw.get d).map Int.ofNat) (raw.get d)
    omega
  · intro d
    rw [PerDirection.get_ofFn, PerDirection.get_ofFn]
    omega

/-- **The refresh of a key keeps the books.** -/
theorem ends_refreshKey (h : db.Books base) (counters : Counters) (key : TrafficKey) :
    Ends (refreshKey broken counters (now key.id) (db.stats key.id) key)
      (fun _ => KeyPolled base now key.id db) (fun _ _ => True) db := by
  unfold refreshKey
  split
  · unfold refreshAwgKey
    dsimp only
    split
    · exact ends_upsertUnavailable h _ _
    · split_ifs
      · exact ends_upsertUnavailable h _ _
      · split
        · exact ends_upsertUnavailable h _ _
        · exact ends_storeSuccess h key _
  · unfold refreshXrayKey
    dsimp only
    split
    · exact ends_upsertUnavailable h _ _
    · split_ifs
      · exact ends_upsertUnavailable h _ _
      · exact ends_touchAttempt h _
      · exact ends_storeSuccess h key _
  · unfold refreshHysteriaKey
    dsimp only
    split
    · exact ends_upsertUnavailable h _ _
    · split_ifs
      · exact ends_upsertUnavailable h _ _
      · split
        · exact ends_touchAttempt h _
        · exact ends_storeSuccess h key _

end Key

/-! ### Polls -/

section Polls

variable {db : TrafficDb} {base : ℕ → Direction → ℕ}

/-- The loop over the keys; the rows that it has still to write are as they were read. -/
theorem ends_refreshKeys (poll : Poll) {current : ℕ → Option TrafficStats} {keys : List TrafficKey}
    (hdistinct : (keys.map TrafficKey.id).Nodup) (h : db.Books base)
    (hcurrent : ∀ key ∈ keys, db.stats key.id = current key.id) :
    Ends (refreshKeys poll current keys)
      (fun _ db' => db'.Books base ∧ db.Polled poll.now db') (fun _ _ => True) db := by
  induction keys generalizing db with
  | nil => exact ⟨h, .refl _ _⟩
  | cons key keys ih =>
    obtain ⟨hnew, hdistinct⟩ := List.nodup_cons.1 hdistinct
    unfold refreshKeys
    rw [ends_bind, ← hcurrent key List.mem_cons_self]
    refine (ends_refreshKey h poll.counters key).mono (fun _ db' hkey => ?_) fun _ _ _ => trivial
    rw [ends_bind]
    refine (ih hdistinct hkey.books fun other hother => ?_).mono (fun _ db'' hrest => ?_)
      fun _ _ _ => trivial
    · rw [hkey.others other.id fun heq => hnew (heq ▸ List.mem_map_of_mem hother)]
      exact hcurrent other (List.mem_cons_of_mem _ hother)
    · exact ⟨hrest.1, hkey.polled.trans hrest.2⟩

/-- **A poll keeps the books**, and takes nothing from a total. -/
theorem books_poll (h : db.Books base) (poll : Poll) :
    (db.poll poll).Books base ∧ db.Polled poll.now (db.poll poll) := by
  have hends : Ends (refreshViews poll)
      (fun _ db' => db'.Books base ∧ db.Polled poll.now db')
      (fun _ db' => db'.Books base ∧ db.Polled poll.now db') db := by
    unfold refreshViews
    rw [ends_bind, ends_get, ends_transaction]
    exact (ends_refreshKeys poll poll.distinct h fun _ _ => rfl).mono (fun _ _ hdb' => hdb')
      fun _ _ _ => ⟨h, .refl _ _⟩
  unfold Ends at hends
  unfold TrafficDb.poll
  cases hrun : refreshViews poll db <;> rw [hrun] at hends <;> exact hends

theorem books_polls (h : db.Books base) (polls : List Poll) :
    (db.polls polls).Books base ∧ ∀ keyId d, db.total keyId d ≤ (db.polls polls).total keyId d := by
  induction polls generalizing db with
  | nil => exact ⟨h, fun _ _ => le_rfl⟩
  | cons poll polls ih =>
    obtain ⟨hbooks, hpolled⟩ := books_poll h poll
    obtain ⟨hend, hgrows⟩ := ih hbooks
    exact ⟨hend, fun keyId d => (hpolled.grows keyId d).trans (hgrows keyId d)⟩

/-- **Every byte is booked once**: from the creation of the buckets on, after all polls, the totals have
not decreased; each total is what it was at first and what the integer buckets of its key hold; and a poll
changes no bucket but those of its hours. -/
theorem traffic_conserved (stats : ℕ → Option TrafficStats) (before after : List Poll) (poll : Poll)
    (keyId : ℕ) (d : Direction) :
    let start : TrafficDb := ⟨stats, []⟩
    let db := start.polls before
    let db' := db.polls after
    db.total keyId d ≤ db'.total keyId d ∧
      Integral db'.hourly ∧
      db'.total keyId d = start.total keyId d + bucketBytes (ofKey keyId) d db'.hourly ∧
      ∀ hour, hour ≠ hourUtc (poll.now keyId) →
        bucketBytes (ofKeyAt keyId hour) d (db'.poll poll).hourly =
          bucketBytes (ofKeyAt keyId hour) d db'.hourly := by
  intro start db db'
  have hstart : start.Books start.total := ⟨nofun, fun _ _ => rfl⟩
  obtain ⟨hbefore, -⟩ := books_polls hstart before
  obtain ⟨hafter, hgrows⟩ := books_polls hbefore after
  obtain ⟨-, hpolled⟩ := books_poll hafter poll
  exact ⟨hgrows keyId d, hafter.integral, hafter.balance keyId d, fun hour hne =>
    hpolled.hours keyId hour d hne⟩

end Polls

end VpnBot.Traffic
