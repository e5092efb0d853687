import Mathlib.Data.Rat.Floor
import Mathlib.Tactic.Linarith
import VpnBot.Python.OrderedDict

/-!
# The rate limiter

`RateLimiter` of `src/bot/rate_limit.py`: a fixed window of accepted calls for each key, in a table that
forgets the keys that have not called for the longest time.  A call is answered with `accepted`, or refused
with the seconds that the caller is told to wait.  The readings of the clock are rational
numbers, which are subtracted exactly (the source subtracts floating-point numbers).
-/

namespace VpnBot.RateLimit

open Py

/-- A call of `check`: its key and the reading of the clock. -/
structure Call (κ : Type) where
  key : κ
  now : ℚ

/-- `check` returns, or raises `RateLimitExceeded` with its `retry_after`. -/
inductive Answer
  | accepted
  | refused (retryAfter : ℤ)
  deriving DecidableEq

/-- `_windows`: for each key the start of its window and the calls accepted in it. -/
abbrev Windows (κ : Type) := Dict κ (ℚ × ℤ)

/-- `RateLimiter(max_entries)`, called with a fixed cooldown and burst. -/
structure RateLimiter where
  maxEntries : ℕ
  cooldownSeconds : ℚ
  burst : ℤ

variable {κ : Type} [DecidableEq κ]

namespace RateLimiter

/-- `allowance`. -/
def allowance (limiter : RateLimiter) : ℤ := max 1 limiter.burst

/-- `retry_after` before it is rounded: what is left of a window. -/
def retryAfter (limiter : RateLimiter) (now started : ℚ) : ℚ := limiter.cooldownSeconds - (now - started)

/-- `max(1, int(retry_after))` for what is left of a window. -/
def announced (left : ℚ) : ℤ := max 1 ⌊left⌋

/-- A new window for the key, and `_trim`. -/
def openWindow (limiter : RateLimiter) (windows : Windows κ) (call : Call κ) : Windows κ :=
  (windows.set call.key (call.now, 1)).trim limiter.maxEntries

/-- `check`. -/
def check (limiter : RateLimiter) (windows : Windows κ) (call : Call κ) : Answer × Windows κ :=
  match windows.get? call.key with
  | none => (.accepted, limiter.openWindow windows call)
  | some (started, used) =>
    let hot := windows.moveToEnd call.key
    let left := limiter.retryAfter call.now started
    if 0 < left then
      if limiter.allowance ≤ used then (.refused (announced left), hot)
      else (.accepted, hot.set call.key (started, used + 1))
    else (.accepted, limiter.openWindow hot call)

variable {limiter : RateLimiter} {windows : Windows κ} {call : Call κ} {started : ℚ} {used : ℤ}

theorem one_le_allowance : 1 ≤ limiter.allowance := le_max_left _ _

/-! ### One call -/

/-- What a call does, by the window of its key. -/
inductive Checked (limiter : RateLimiter) (windows : Windows κ) (call : Call κ) :
    Answer × Windows κ → Prop
  | unknown (hget : windows.get? call.key = none) :
    Checked limiter windows call (.accepted, limiter.openWindow windows call)
  | expired {started : ℚ} {used : ℤ} (hget : windows.get? call.key = some (started, used))
    (hleft : limiter.retryAfter call.now started ≤ 0) :
    Checked limiter windows call (.accepted, limiter.openWindow (windows.moveToEnd call.key) call)
  | room {started : ℚ} {used : ℤ} (hget : windows.get? call.key = some (started, used))
    (hleft : 0 < limiter.retryAfter call.now started) (hused : used < limiter.allowance) :
    Checked limiter windows call
      (.accepted, (windows.moveToEnd call.key).set call.key (started, used + 1))
  | full {started : ℚ} {used : ℤ} (hget : windows.get? call.key = some (started, used))
    (hleft : 0 < limiter.retryAfter call.now started) (hused : limiter.allowance ≤ used) :
    Checked limiter windows call
      (.refused (announced (limiter.retryAfter call.now started)), windows.moveToEnd call.key)

theorem checked (limiter : RateLimiter) (windows : Windows κ) (call : Call κ) :
    Checked limiter windows call (limiter.check windows call) := by
  unfold check
  cases hget : windows.get? call.key with
  | none => exact .unknown hget
  | some window =>
    obtain ⟨started, used⟩ := window
    simp only
    split_ifs with hleft hused
    · exact .full hget hleft hused
    · exact .room hget hleft (not_le.1 hused)
    · exact .expired hget (not_lt.1 hleft)

theorem check_eq_refused_iff {seconds : ℤ} : (limiter.check windows call).1 = .refused seconds ↔
    ∃ started used, windows.get? call.key = some (started, used) ∧
      0 < limiter.retryAfter call.now started ∧ limiter.allowance ≤ used ∧
      seconds = announced (limiter.retryAfter call.now started) := by
  constructor
  · intro h
    have hchecked := checked limiter windows call
    generalize limiter.check windows call = result at h hchecked
    cases hchecked with
    | full hget hleft hused =>
      cases h
      exact ⟨_, _, hget, hleft, hused, rfl⟩
    | unknown | expired | room => cases h
  · rintro ⟨started, used, hget, hleft, hused, rfl⟩
    unfold check
    rw [hget]
    simp only
    rw [if_pos hleft, if_pos hused]

theorem get?_of_refused {seconds : ℤ} (h : (limiter.check windows call).1 = .refused seconds) (key : κ) :
    (limiter.check windows call).2.get? key = windows.get? key := by
  have hchecked := checked limiter windows call
  generalize limiter.check windows call = result at h hchecked ⊢
  cases hchecked with
  | full => exact Dict.get?_moveToEnd _ _ _
  | unknown | expired | room => cases h

/-- The wait that is announced is long enough for a whole number of seconds, and for the last second. -/
theorem le_announced_iff {left : ℚ} : left ≤ announced left ↔ left ≤ 1 ∨ left = ⌊left⌋ := by
  have hcast : ((announced left : ℤ) : ℚ) = max 1 (⌊left⌋ : ℚ) := by
    rw [announced, Int.cast_max, Int.cast_one]
  rw [hcast, le_max_iff]
  refine or_congr_right ⟨fun h => le_antisymm h (Int.floor_le left), fun h => h.le⟩

/-! ### Calls of other keys -/

variable {key : κ}

theorem get?_openWindow_of_ne (hne : key ≠ call.key) :
    (limiter.openWindow windows call).get? key = windows.get? key ∨
      (limiter.openWindow windows call).get? key = none := by
  cases hget : (limiter.openWindow windows call).get? key with
  | none => exact Or.inr rfl
  | some window =>
    have hset := Dict.get?_trim hget
    rw [Dict.get?_set_of_ne _ _ hne] at hset
    exact Or.inl hset.symm

theorem get?_check_of_ne (hne : key ≠ call.key) :
    (limiter.check windows call).2.get? key = windows.get? key ∨
      (limiter.check windows call).2.get? key = none := by
  have hchecked := checked limiter windows call
  generalize limiter.check windows call = result at hchecked ⊢
  cases hchecked with
  | unknown hget => exact get?_openWindow_of_ne hne
  | expired hget hleft =>
    rw [← Dict.get?_moveToEnd windows call.key key]
    exact get?_openWindow_of_ne hne
  | room hget hleft hused => exact Or.inl (by rw [Dict.get?_set_of_ne _ _ hne, Dict.get?_moveToEnd])
  | full hget hleft hused => exact Or.inl (Dict.get?_moveToEnd _ _ _)

theorem within_check_of_ne {j : ℕ} (hne : key ≠ call.key) (h : windows.Within j key)
    (hj : j + 1 < limiter.maxEntries) : (limiter.check windows call).2.Within (j + 1) key := by
  have hchecked := checked limiter windows call
  generalize limiter.check windows call = result at hchecked ⊢
  cases hchecked with
  | unknown hget => exact (h.set_new hget).trim hj
  | expired hget hleft =>
    exact ((h.moveToEnd hne hget).set_present ((Dict.get?_moveToEnd _ _ _).trans hget)).trim hj
  | room hget hleft hused =>
    exact (h.moveToEnd hne hget).set_present ((Dict.get?_moveToEnd _ _ _).trans hget)
  | full hget hleft hused => exact h.moveToEnd hne hget

theorem within_check_self (hmax : 0 < limiter.maxEntries) :
    (limiter.check windows call).2.Within 0 call.key := by
  have hchecked := checked limiter windows call
  generalize limiter.check windows call = result at hchecked ⊢
  cases hchecked with
  | unknown hget => exact (Dict.within_set_new hget).trim hmax
  | expired hget hleft =>
    exact ((Dict.within_moveToEnd hget).set_present ((Dict.get?_moveToEnd _ _ _).trans hget)).trim hmax
  | room hget hleft hused =>
    exact (Dict.within_moveToEnd hget).set_present ((Dict.get?_moveToEnd _ _ _).trans hget)
  | full hget hleft hused => exact Dict.within_moveToEnd hget

end RateLimiter

end VpnBot.RateLimit
