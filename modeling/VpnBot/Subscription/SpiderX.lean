import VpnBot.Python.Sha256
import VpnBot.Python.Sorting
import VpnBot.System.Walk

/-!
# The rotating spiderX

`rotating_spider_x` of `src/utils/spider_x.py`: the value that the link of a bundle child carries at an
instant.  The pool without repetitions is put in the order of the hashes of the UUID with each entry, and the
value walks around it, one entry an epoch.

`walks_pool`: where the hashes of the entries differ, every value is an entry of the pool, it is constant
inside an epoch and changes at the end of one, any consecutive epochs of the pool's size meet each entry
once, and only the entries of the pool matter, not their order or number.
-/

namespace VpnBot.Subscription

open Py Sys

/-! ### The walk -/

/-- `_sha256_int` of `f"{uuid_value}|{text}"`. -/
def spiderHash (uuid text : Text) : ℕ := Sha256.toInt (uuid ++ '|' :: text)

/-- `order`. -/
def spiderOrder (uuid : Text) (pool : List Text) : List Text :=
  sortedBy (spiderHash uuid) (fromKeys pool)

/-- `phase`. -/
def spiderPhase (uuid : Text) (period : ℤ) : ℤ := spiderHash uuid "phase".toList % period

/-- `epoch`. -/
def spiderEpoch (uuid : Text) (period now : ℤ) : ℤ := (now + spiderPhase uuid period) / period

/-- `start`. -/
def spiderStart (uuid : Text) (pool : List Text) : ℤ :=
  spiderHash uuid "start".toList % (fromKeys pool).length

/-- `rotating_spider_x`, or the text of its exception. -/
def rotatingSpiderX (uuid : Text) (pool : List Text) (period now : ℤ) : Except Text Text :=
  if fromKeys pool = [] then .error "rotating_spider_x needs a non-empty pool".toList
  else if period ≤ 0 then .error "rotating_spider_x needs a positive period".toList
  else match fromKeys pool with
    | [path] => .ok path
    | _ =>
      match walk (spiderOrder uuid pool) (spiderStart uuid pool + spiderEpoch uuid period now) with
      | some path => .ok path
      | none => .error "tuple index out of range".toList

/-! ### What it walks around -/

/-- The hashes that put the pool in order differ. -/
def HashesApart (uuid : Text) (pool : List Text) : Prop :=
  ∀ path ∈ pool, ∀ other ∈ pool, spiderHash uuid path = spiderHash uuid other → path = other

instance (uuid : Text) (pool : List Text) : Decidable (HashesApart uuid pool) :=
  inferInstanceAs (Decidable (∀ path ∈ pool, ∀ other ∈ pool, _))

/-- The values walk around the pool, one entry an epoch. -/
structure WalksPool (uuid : Text) (pool : List Text) (period : ℤ) (value : ℤ → Text) : Prop where
  entry : ∀ now, value now ∈ pool
  constant : ∀ now later, spiderEpoch uuid period later = spiderEpoch uuid period now →
    value later = value now
  differs : 2 ≤ (fromKeys pool).length → ∀ now later,
    spiderEpoch uuid period later = spiderEpoch uuid period now + 1 → value later ≠ value now
  once : ∀ first : ℤ, ∀ path ∈ pool, ∃! epoch : ℤ, (first ≤ epoch ∧ epoch < first + (fromKeys pool).length) ∧
    ∃ now, spiderEpoch uuid period now = epoch ∧ value now = path

variable {uuid : Text} {pool pool' : List Text} {period : ℤ}

@[simp] theorem mem_spiderOrder {path : Text} : path ∈ spiderOrder uuid pool ↔ path ∈ pool := by
  rw [spiderOrder, mem_sortedBy, mem_fromKeys]

@[simp] theorem length_spiderOrder : (spiderOrder uuid pool).length = (fromKeys pool).length :=
  length_sortedBy _ _

theorem nodup_spiderOrder : (spiderOrder uuid pool).Nodup :=
  (perm_sortedBy _ _).nodup_iff.2 (nodup_fromKeys pool)

theorem spiderOrder_ne_nil (hpool : pool ≠ []) : spiderOrder uuid pool ≠ [] := by
  obtain ⟨path, hpath⟩ := List.exists_mem_of_ne_nil _ hpool
  exact List.ne_nil_of_mem (mem_spiderOrder.2 hpath)

theorem spiderOrder_congr (hapart : HashesApart uuid pool) (hentries : ∀ path, path ∈ pool' ↔ path ∈ pool) :
    spiderOrder uuid pool' = spiderOrder uuid pool := by
  refine sortedBy_eq_of_perm ?_ (perm_fromKeys hentries)
  intro path hpath other hother
  exact hapart path (mem_fromKeys.1 hpath) other (mem_fromKeys.1 hother)

theorem walk_eq_of_fromKeys_eq {path : Text} (hone : fromKeys pool = [path]) (k : ℤ) :
    walk (spiderOrder uuid pool) k = some path := by
  have hpool : pool ≠ [] := by
    rintro rfl
    cases hone
  have hne : spiderOrder uuid pool ≠ [] := spiderOrder_ne_nil hpool
  obtain ⟨other, hother, hwalk⟩ := exists_walk_eq hne k
  rw [mem_spiderOrder, ← mem_fromKeys, hone, List.mem_singleton] at hother
  rw [hwalk, hother]

theorem rotatingSpiderX_eq_ok_iff (hpool : pool ≠ []) (hperiod : 0 < period) {now : ℤ} {path : Text} :
    rotatingSpiderX uuid pool period now = .ok path ↔
      walk (spiderOrder uuid pool) (spiderStart uuid pool + spiderEpoch uuid period now) = some path := by
  have hkeys : fromKeys pool ≠ [] := fun h => hpool (List.eq_nil_iff_forall_not_mem.2 fun path hpath => by
    have := mem_fromKeys.2 hpath
    rw [h] at this
    cases this)
  have hne : spiderOrder uuid pool ≠ [] := spiderOrder_ne_nil hpool
  obtain ⟨entry, -, hwalk⟩ := exists_walk_eq hne (spiderStart uuid pool + spiderEpoch uuid period now)
  rw [rotatingSpiderX, if_neg hkeys, if_neg (not_le.2 hperiod), hwalk]
  split
  · rename_i hone
    rw [walk_eq_of_fromKeys_eq hone, Option.some.injEq] at hwalk
    rw [hwalk, Except.ok.injEq, Option.some.injEq]
  · rw [Except.ok.injEq, Option.some.injEq]

/-! ### Epochs -/

theorem exists_spiderEpoch_eq (uuid : Text) (hperiod : 0 < period) (epoch : ℤ) :
    ∃ now, spiderEpoch uuid period now = epoch :=
  ⟨epoch * period - spiderPhase uuid period, by
    rw [spiderEpoch, sub_add_cancel, Int.mul_ediv_cancel _ hperiod.ne']⟩

/-- The place of an entry among consecutive epochs of the pool's size. -/
theorem existsUnique_spiderEpoch (uuid : Text) (first : ℤ) {path : Text} (hpath : path ∈ pool) :
    ∃! epoch, (first ≤ epoch ∧ epoch < first + (fromKeys pool).length) ∧
      walk (spiderOrder uuid pool) (spiderStart uuid pool + epoch) = some path := by
  have hnodup : (spiderOrder uuid pool).Nodup := nodup_spiderOrder
  obtain ⟨k, ⟨⟨hle, hlt⟩, hk⟩, huniq⟩ := existsUnique_walk_eq hnodup (mem_spiderOrder.2 hpath)
    (spiderStart uuid pool + first)
  rw [length_spiderOrder] at hlt huniq
  refine ⟨k - spiderStart uuid pool, ⟨⟨by omega, by omega⟩, ?_⟩, ?_⟩
  · rw [add_sub_cancel]
    exact hk
  · rintro epoch ⟨⟨hfirst, hlast⟩, hepoch⟩
    have := huniq (spiderStart uuid pool + epoch) ⟨⟨by omega, by omega⟩, hepoch⟩
    omega

theorem walksPool_of_walk (hperiod : 0 < period) {value : ℤ → Text}
    (hvalue : ∀ now, walk (spiderOrder uuid pool) (spiderStart uuid pool + spiderEpoch uuid period now) =
      some (value now)) : WalksPool uuid pool period value where
  entry now := by
    have hmem := List.mem_of_getElem? (hvalue now)
    exact mem_spiderOrder.1 hmem
  constant now later hsame := by
    have h := hvalue later
    rw [hsame, hvalue now, Option.some.injEq] at h
    exact h.symm
  differs htwo now later hnext hsame := by
    have h := hvalue later
    rw [hnext, hsame, ← hvalue now, ← add_assoc] at h
    exact walk_succ_ne nodup_spiderOrder (by rwa [length_spiderOrder]) _ h
  once first path hpath := by
    have heach : ∀ epoch, (∃ now, spiderEpoch uuid period now = epoch ∧ value now = path) ↔
        walk (spiderOrder uuid pool) (spiderStart uuid pool + epoch) = some path := by
      intro epoch
      constructor
      · rintro ⟨now, rfl, rfl⟩
        exact hvalue now
      · intro h
        obtain ⟨now, rfl⟩ := exists_spiderEpoch_eq uuid hperiod epoch
        rw [hvalue now, Option.some.injEq] at h
        exact ⟨now, rfl, h⟩
    simp only [heach]
    exact existsUnique_spiderEpoch uuid first hpath

theorem rotatingSpiderX_congr (hpool : pool ≠ []) (hperiod : 0 < period) (hapart : HashesApart uuid pool)
    (hentries : ∀ path, path ∈ pool' ↔ path ∈ pool) (now : ℤ) :
    rotatingSpiderX uuid pool' period now = rotatingSpiderX uuid pool period now := by
  obtain ⟨path, hpath⟩ := List.exists_mem_of_ne_nil _ hpool
  have hpool' : pool' ≠ [] := List.ne_nil_of_mem ((hentries path).2 hpath)
  have hne : spiderOrder uuid pool ≠ [] := spiderOrder_ne_nil hpool
  obtain ⟨value, -, hvalue⟩ := exists_walk_eq hne (spiderStart uuid pool + spiderEpoch uuid period now)
  have hstart : spiderStart uuid pool' = spiderStart uuid pool := by
    rw [spiderStart, spiderStart, (perm_fromKeys hentries).length_eq]
  rw [(rotatingSpiderX_eq_ok_iff hpool hperiod).2 hvalue, rotatingSpiderX_eq_ok_iff hpool' hperiod,
    spiderOrder_congr hapart hentries, hstart, hvalue]

/-- **The value walks around the pool**, and only the entries of the pool matter. -/
theorem walks_pool (uuid : Text) (pool : List Text) (period : ℤ) (hpool : pool ≠ [])
    (hperiod : 0 < period) (hapart : HashesApart uuid pool) :
    (∃ value, (∀ now, rotatingSpiderX uuid pool period now = .ok (value now)) ∧
      WalksPool uuid pool period value) ∧
    ∀ pool', (∀ path, path ∈ pool' ↔ path ∈ pool) → ∀ now,
      rotatingSpiderX uuid pool' period now = rotatingSpiderX uuid pool period now := by
  have hwalk : ∀ now, ∃ path, walk (spiderOrder uuid pool)
      (spiderStart uuid pool + spiderEpoch uuid period now) = some path := by
    intro now
    have hne : spiderOrder uuid pool ≠ [] := spiderOrder_ne_nil hpool
    obtain ⟨path, -, h⟩ := exists_walk_eq hne (spiderStart uuid pool + spiderEpoch uuid period now)
    exact ⟨path, h⟩
  choose value hvalue using hwalk
  refine ⟨⟨value, fun now => ?_, walksPool_of_walk hperiod hvalue⟩, ?_⟩
  · exact (rotatingSpiderX_eq_ok_iff hpool hperiod).2 (hvalue now)
  · intro pool' hentries now
    exact rotatingSpiderX_congr hpool hperiod hapart hentries now

/-- Three entries, one of them twice. -/
theorem walks_pool_three :
    (∃ value, (∀ now, rotatingSpiderX "11111111-2222-4333-8444-555555555555".toList
        ["/a".toList, "/b".toList, "/a".toList, "/c".toList] 3600 now = .ok (value now)) ∧
      WalksPool "11111111-2222-4333-8444-555555555555".toList
        ["/a".toList, "/b".toList, "/a".toList, "/c".toList] 3600 value) ∧
    ∀ pool', (∀ path, path ∈ pool' ↔ path ∈ ["/a".toList, "/b".toList, "/a".toList, "/c".toList]) →
      ∀ now, rotatingSpiderX "11111111-2222-4333-8444-555555555555".toList pool' 3600 now =
        rotatingSpiderX "11111111-2222-4333-8444-555555555555".toList
          ["/a".toList, "/b".toList, "/a".toList, "/c".toList] 3600 now :=
  walks_pool _ _ 3600 (by decide) (by decide) (by decide +kernel)

end VpnBot.Subscription
