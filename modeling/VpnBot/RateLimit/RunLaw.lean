import Mathlib.Data.List.Induction
import VpnBot.RateLimit.Limiter
import VpnBot.System.Windows

/-!
# The law of the rate limiter

What a caller may rely on over every run of calls of any keys: a key that calls often enough not to be
forgotten gets at most `burst` acceptances in each window that its first acceptance opens, a refusal leaves
its window as it was, and a caller that waits what it was told is accepted (`RateLaw`).

The first two hold in every run.  The wait is rounded down, so that the last one holds in the runs in which
every refusal leaves a whole number of seconds of the window, or at most one second (`rateLaw_iff`).
-/

namespace VpnBot.RateLimit

open Py Sys

variable {κ : Type} [DecidableEq κ]

namespace RateLimiter

/-! ### Runs -/

/-- The table after a run of calls from a new limiter. -/
def after (limiter : RateLimiter) (calls : List (Call κ)) : Windows κ :=
  calls.foldl (fun windows call => (limiter.check windows call).2) Dict.empty

/-- The answer to a call after a run. -/
def answer (limiter : RateLimiter) (calls : List (Call κ)) (call : Call κ) : Answer :=
  (limiter.check (limiter.after calls) call).1

/-- The times at which the calls of the key were accepted. -/
def acceptedFrom (limiter : RateLimiter) (key : κ) : Windows κ → List (Call κ) → List ℚ
  | _, [] => []
  | windows, call :: calls =>
    if call.key = key ∧ (limiter.check windows call).1 = .accepted then
      call.now :: limiter.acceptedFrom key (limiter.check windows call).2 calls
    else limiter.acceptedFrom key (limiter.check windows call).2 calls

/-- The times at which the calls of the key were accepted in a run from a new limiter. -/
def accepted (limiter : RateLimiter) (key : κ) (calls : List (Call κ)) : List ℚ :=
  limiter.acceptedFrom key Dict.empty calls

/-- The key calls at least once among any `n` consecutive calls. -/
def Attentive (n : ℕ) (key : κ) (calls : List (Call κ)) : Prop :=
  ∀ part, part <:+: calls → part.length = n → ∃ call ∈ part, call.key = key

/-- The law of the limiter for a run of calls. -/
structure RateLaw (limiter : RateLimiter) (calls : List (Call κ)) : Prop where
  atMostBurst : ∀ key, Attentive limiter.maxEntries key calls →
    ∀ window ∈ windowsOf limiter.cooldownSeconds (limiter.accepted key calls),
      (window.length : ℤ) ≤ limiter.burst
  refusalKeeps : ∀ before call seconds, before ++ [call] <+: calls →
    limiter.answer before call = .refused seconds →
      ∀ key, (limiter.after (before ++ [call])).get? key = (limiter.after before).get? key
  waitSuffices : ∀ before call seconds, before ++ [call] <+: calls →
    limiter.answer before call = .refused seconds →
      ∀ (others : List (Call κ)) (now : ℚ), (∀ other ∈ others, other.key ≠ call.key) →
        call.now + seconds ≤ now →
          limiter.answer (before ++ call :: others) ⟨call.key, now⟩ = .accepted

/-- A call that is refused leaves a whole number of seconds of the window, or at most one. -/
def WholeWait (limiter : RateLimiter) (windows : Windows κ) (call : Call κ) : Prop :=
  ∀ window ∈ windows.get? call.key, window.2 < limiter.allowance ∨
    limiter.retryAfter call.now window.1 ≤ 1 ∨
      limiter.retryAfter call.now window.1 = ⌊limiter.retryAfter call.now window.1⌋

variable {limiter : RateLimiter} {calls others before : List (Call κ)} {call : Call κ} {key : κ}

theorem after_concat : limiter.after (calls ++ [call]) = (limiter.check (limiter.after calls) call).2 := by
  rw [after, List.foldl_append]
  rfl

theorem acceptedFrom_concat (windows : Windows κ) :
    limiter.acceptedFrom key windows (calls ++ [call]) = limiter.acceptedFrom key windows calls ++
      if call.key = key ∧ (limiter.check (calls.foldl (fun windows call =>
        (limiter.check windows call).2) windows) call).1 = .accepted then [call.now] else [] := by
  induction calls generalizing windows with
  | nil =>
    rw [List.nil_append, acceptedFrom, acceptedFrom, acceptedFrom]
    rfl
  | cons first calls ih =>
    rw [List.cons_append, acceptedFrom, acceptedFrom, ih, List.foldl_cons]
    split_ifs <;> simp

theorem accepted_concat_of_ne (hne : call.key ≠ key) :
    limiter.accepted key (calls ++ [call]) = limiter.accepted key calls := by
  rw [accepted, acceptedFrom_concat, if_neg fun h => hne h.1, List.append_nil]
  rfl

theorem accepted_concat_of_accepted (hanswer : limiter.answer calls call = .accepted) :
    limiter.accepted call.key (calls ++ [call]) = limiter.accepted call.key calls ++ [call.now] := by
  rw [accepted, acceptedFrom_concat, if_pos ⟨rfl, hanswer⟩]
  rfl

theorem accepted_concat_of_refused {seconds : ℤ} (hanswer : limiter.answer calls call = .refused seconds) :
    limiter.accepted key (calls ++ [call]) = limiter.accepted key calls := by
  have hnot : (limiter.check (limiter.after calls) call).1 ≠ .accepted := by
    intro h
    rw [answer, h] at hanswer
    cases hanswer
  rw [accepted, acceptedFrom_concat, if_neg fun h => hnot h.2, List.append_nil]
  rfl

theorem accepted_of_forall_ne (h : ∀ call ∈ calls, call.key ≠ key) : limiter.accepted key calls = [] := by
  induction calls using List.reverseRecOn with
  | nil => rfl
  | append_singleton calls call ih =>
    rw [accepted_concat_of_ne (h call (by simp))]
    exact ih fun c hc => h c (List.mem_append_left _ hc)

/-! ### Keys that are not forgotten -/

omit [DecidableEq κ] in
theorem Attentive.of_prefix {n : ℕ} (h : Attentive n key (calls ++ others)) : Attentive n key calls :=
  fun part hpart => h part (hpart.trans (List.infix_append' [] calls others))

omit [DecidableEq κ] in
theorem Attentive.length_lt {n : ℕ} (h : Attentive n key calls) (hpart : others <:+: calls)
    (hne : ∀ other ∈ others, other.key ≠ key) : others.length < n := by
  by_contra hle
  obtain ⟨call, hcall, hkey⟩ := h (others.take n) ((List.take_prefix n others).isInfix.trans hpart)
    (List.length_take_of_le (not_lt.1 hle))
  exact hne call (List.mem_of_mem_take hcall) hkey

theorem within_after (h : Attentive limiter.maxEntries call.key (before ++ call :: others))
    (hne : ∀ other ∈ others, other.key ≠ call.key) :
    (limiter.after (before ++ call :: others)).Within others.length call.key := by
  induction others using List.reverseRecOn with
  | nil =>
    have hmax : ([] : List (Call κ)).length < limiter.maxEntries := h.length_lt List.nil_infix (by simp)
    rw [after_concat]
    exact within_check_self hmax
  | append_singleton others other ih =>
    have hsplit : before ++ call :: (others ++ [other]) = (before ++ call :: others) ++ [other] := by simp
    have hlt : (others ++ [other]).length < limiter.maxEntries :=
      h.length_lt ⟨before ++ [call], [], by simp⟩ hne
    rw [List.length_append, List.length_singleton] at hlt ⊢
    rw [hsplit] at h ⊢
    rw [after_concat]
    exact within_check_of_ne (hne other (by simp)).symm
      (ih h.of_prefix fun o ho => hne o (List.mem_append_left _ ho)) hlt

theorem isSome_after (h : Attentive limiter.maxEntries key calls) (hcalled : ∃ call ∈ calls, call.key = key) :
    ((limiter.after calls).get? key).isSome := by
  obtain ⟨last, before, others, rfl, rfl, hothers⟩ : ∃ last before others,
      calls = before ++ last :: others ∧ last.key = key ∧ ∀ other ∈ others, other.key ≠ key := by
    clear h
    induction calls using List.reverseRecOn with
    | nil => simp at hcalled
    | append_singleton calls call ih =>
      by_cases hkey : call.key = key
      · exact ⟨call, calls, [], rfl, hkey, by simp⟩
      · obtain ⟨c, hc, hckey⟩ := hcalled
        have hmem : c ∈ calls := by
          rcases List.mem_append.1 hc with hc | hc
          · exact hc
          · rw [List.mem_singleton.1 hc] at hckey
            exact absurd hckey hkey
        obtain ⟨last, before, others, rfl, hlast, hothers⟩ := ih ⟨c, hmem, hckey⟩
        refine ⟨last, before, others ++ [call], by simp, hlast, fun other hother => ?_⟩
        rcases List.mem_append.1 hother with hother | hother
        · exact hothers other hother
        · rw [List.mem_singleton.1 hother]
          exact hkey
  exact (within_after h hothers).isSome

/-! ### At most a burst in a window -/

/-- The entry of a key in the table is the last window of its acceptances. -/
def IsLastWindow (limiter : RateLimiter) (times : List ℚ) (started : ℚ) (used : ℤ) : Prop :=
  ∃ ws rest, windowsOf limiter.cooldownSeconds times = ws ++ [started :: rest] ∧
    used = rest.length + 1 ∧ used ≤ limiter.allowance ∧
      ∀ window ∈ ws, (window.length : ℤ) ≤ limiter.allowance

variable {times : List ℚ} {started now : ℚ} {used : ℤ}

theorem isLastWindow_singleton : limiter.IsLastWindow [now] now 1 :=
  ⟨[], [], windowsOf_singleton, rfl, one_le_allowance, by simp⟩

theorem IsLastWindow.room (h : limiter.IsLastWindow times started used)
    (hleft : 0 < limiter.retryAfter now started) (hused : used < limiter.allowance) :
    limiter.IsLastWindow (times ++ [now]) started (used + 1) := by
  obtain ⟨ws, rest, hwindows, hcount, -, hws⟩ := h
  unfold retryAfter at hleft
  refine ⟨ws, rest ++ [now], windowsOf_concat_of_lt hwindows (by linarith), ?_, by omega, hws⟩
  rw [List.length_append, List.length_singleton]
  omega

theorem IsLastWindow.expired (h : limiter.IsLastWindow times started used)
    (hleft : limiter.retryAfter now started ≤ 0) : limiter.IsLastWindow (times ++ [now]) now 1 := by
  obtain ⟨ws, rest, hwindows, hcount, hused, hws⟩ := h
  unfold retryAfter at hleft
  refine ⟨ws ++ [started :: rest], [], windowsOf_concat_of_le hwindows (by linarith), rfl,
    one_le_allowance, fun window hwindow => ?_⟩
  rcases List.mem_append.1 hwindow with hwindow | hwindow
  · exact hws window hwindow
  · rw [List.mem_singleton.1 hwindow, List.length_cons, Nat.cast_succ, ← hcount]
    exact hused

theorem IsLastWindow.length_le (h : limiter.IsLastWindow times started used) :
    ∀ window ∈ windowsOf limiter.cooldownSeconds times, (window.length : ℤ) ≤ limiter.allowance := by
  obtain ⟨ws, rest, hwindows, hcount, hused, hws⟩ := h
  rw [hwindows]
  intro window hwindow
  rcases List.mem_append.1 hwindow with hwindow | hwindow
  · exact hws window hwindow
  · rw [List.mem_singleton.1 hwindow, List.length_cons, Nat.cast_succ, ← hcount]
    exact hused

theorem isLastWindow_check_self (h : Attentive limiter.maxEntries call.key (calls ++ [call]))
    (hbefore : ∀ started used, (limiter.after calls).get? call.key = some (started, used) →
      limiter.IsLastWindow (limiter.accepted call.key calls) started used)
    (hget : (limiter.after (calls ++ [call])).get? call.key = some (started, used)) :
    limiter.IsLastWindow (limiter.accepted call.key (calls ++ [call])) started used := by
  have hmax : ([] : List (Call κ)).length < limiter.maxEntries := h.length_lt List.nil_infix (by simp)
  have hchecked := checked limiter (limiter.after calls) call
  rw [after_concat] at hget
  have hopened : ∀ windows : Windows κ, windows.Within 0 call.key →
      (windows.trim limiter.maxEntries).get? call.key = windows.get? call.key := fun windows hwithin =>
    Dict.get?_trim_of_within hwithin hmax
  generalize hresult : limiter.check (limiter.after calls) call = result at hchecked hget
  have hanswer : limiter.answer calls call = result.1 := congrArg Prod.fst hresult
  cases hchecked with
  | unknown hnone =>
    have hnever : ∀ c ∈ calls, c.key ≠ call.key := by
      intro c hc hkey
      have := isSome_after h.of_prefix ⟨c, hc, hkey⟩
      rw [hnone] at this
      cases this
    rw [openWindow, hopened _ (Dict.within_set_new hnone), Dict.get?_set_self] at hget
    cases hget
    rw [accepted_concat_of_accepted hanswer, accepted_of_forall_ne hnever]
    exact isLastWindow_singleton
  | expired hsome hleft =>
    rw [openWindow, hopened _ ((Dict.within_moveToEnd hsome).set_present
      ((Dict.get?_moveToEnd _ _ _).trans hsome)), Dict.get?_set_self] at hget
    cases hget
    rw [accepted_concat_of_accepted hanswer]
    exact (hbefore _ _ hsome).expired hleft
  | room hsome hleft hused =>
    rw [Dict.get?_set_self] at hget
    cases hget
    rw [accepted_concat_of_accepted hanswer]
    exact (hbefore _ _ hsome).room hleft hused
  | full hsome hleft hused =>
    rw [Dict.get?_moveToEnd] at hget
    rw [accepted_concat_of_refused hanswer]
    exact hbefore _ _ hget

theorem isLastWindow_after (h : Attentive limiter.maxEntries key calls)
    (hget : (limiter.after calls).get? key = some (started, used)) :
    limiter.IsLastWindow (limiter.accepted key calls) started used := by
  induction calls using List.reverseRecOn generalizing started used with
  | nil => cases hget
  | append_singleton calls call ih =>
    have hbefore : ∀ started used, (limiter.after calls).get? key = some (started, used) →
        limiter.IsLastWindow (limiter.accepted key calls) started used :=
      fun _ _ hsome => ih h.of_prefix hsome
    by_cases hkey : call.key = key
    · subst hkey
      exact isLastWindow_check_self h hbefore hget
    · rw [accepted_concat_of_ne hkey]
      rw [after_concat] at hget
      have hstep : (limiter.check (limiter.after calls) call).2.get? key = (limiter.after calls).get? key ∨
          (limiter.check (limiter.after calls) call).2.get? key = none := get?_check_of_ne (Ne.symm hkey)
      rcases hstep with hsame | hnone
      · exact hbefore _ _ (hsame ▸ hget)
      · rw [hnone] at hget
        cases hget

/-- **An attentive key gets at most a burst in each window.** -/
theorem length_le_of_mem_windowsOf (h : Attentive limiter.maxEntries key calls) :
    ∀ window ∈ windowsOf limiter.cooldownSeconds (limiter.accepted key calls),
      (window.length : ℤ) ≤ limiter.allowance := by
  cases hget : (limiter.after calls).get? key with
  | some entry => exact (isLastWindow_after h hget).length_le
  | none =>
    have hnever : ∀ call ∈ calls, call.key ≠ key := by
      intro call hcall hkey
      have := isSome_after h ⟨call, hcall, hkey⟩
      rw [hget] at this
      cases this
    rw [accepted_of_forall_ne hnever, windowsOf_nil]
    simp

/-! ### The announced wait -/

theorem get?_after_others (hne : ∀ other ∈ others, other.key ≠ key) :
    (limiter.after (calls ++ others)).get? key = (limiter.after calls).get? key ∨
      (limiter.after (calls ++ others)).get? key = none := by
  induction others using List.reverseRecOn with
  | nil =>
    rw [List.append_nil]
    exact Or.inl rfl
  | append_singleton others other ih =>
    rw [← List.append_assoc, after_concat]
    have hother : key ≠ other.key := (hne other (by simp)).symm
    have hstep : (limiter.check (limiter.after (calls ++ others)) other).2.get? key =
        (limiter.after (calls ++ others)).get? key ∨
        (limiter.check (limiter.after (calls ++ others)) other).2.get? key = none := get?_check_of_ne hother
    rcases hstep with hsame | hnone
    · rw [hsame]
      exact ih fun o ho => hne o (List.mem_append_left _ ho)
    · exact Or.inr hnone

theorem answer_of_wait {seconds : ℤ} (hanswer : limiter.answer before call = .refused seconds)
    (hwhole : limiter.WholeWait (limiter.after before) call)
    (hne : ∀ other ∈ others, other.key ≠ call.key) (hnow : call.now + seconds ≤ now) :
    limiter.answer (before ++ call :: others) ⟨call.key, now⟩ = .accepted := by
  obtain ⟨started, used, hget, hleft, hused, rfl⟩ := check_eq_refused_iff.1 hanswer
  have hlong := le_announced_iff.2 ((hwhole _ hget).resolve_left (not_lt.2 hused))
  have hkept : (limiter.after (before ++ [call])).get? call.key = some (started, used) := by
    rw [after_concat, get?_of_refused hanswer, hget]
  have hlater : (limiter.after (before ++ [call] ++ others)).get? call.key =
      (limiter.after (before ++ [call])).get? call.key ∨
      (limiter.after (before ++ [call] ++ others)).get? call.key = none := get?_after_others hne
  rw [List.append_assoc, List.singleton_append, hkept] at hlater
  cases hend : limiter.answer (before ++ call :: others) ⟨call.key, now⟩ with
  | accepted => rfl
  | refused seconds =>
    obtain ⟨started', used', hget', hleft', -, -⟩ := check_eq_refused_iff.1 hend
    rcases hlater with hsame | hnone
    · obtain ⟨rfl, rfl⟩ := Prod.mk.inj (Option.some.inj (hget'.symm.trans hsame))
      have hopen : 0 < limiter.cooldownSeconds - (now - started') := hleft'
      have hshort : limiter.cooldownSeconds - (call.now - started') ≤
          announced (limiter.retryAfter call.now started') := hlong
      linarith
    · rw [hnone] at hget'
      cases hget'

theorem answer_of_early {seconds : ℤ} (hanswer : limiter.answer before call = .refused seconds)
    (hget : (limiter.after before).get? call.key = some (started, used))
    (hearly : 0 < limiter.retryAfter now started) :
    limiter.answer (before ++ [call]) ⟨call.key, now⟩ ≠ .accepted := by
  obtain ⟨started', used', hget', -, hused, -⟩ := check_eq_refused_iff.1 hanswer
  obtain ⟨rfl, rfl⟩ := Prod.mk.inj (Option.some.inj (hget'.symm.trans hget))
  have hkept : (limiter.after (before ++ [call])).get? call.key = some (started', used') := by
    rw [after_concat, get?_of_refused hanswer, hget]
  have hagain : limiter.answer (before ++ [call]) ⟨call.key, now⟩ =
      .refused (announced (limiter.retryAfter now started')) :=
    check_eq_refused_iff.2 ⟨started', used', hkept, hearly, hused, rfl⟩
  rw [hagain]
  exact nofun

theorem wholeWait_iff {seconds : ℤ} (hanswer : limiter.answer before call = .refused seconds) :
    limiter.WholeWait (limiter.after before) call ↔
      ∀ (others : List (Call κ)) (now : ℚ), (∀ other ∈ others, other.key ≠ call.key) →
        call.now + seconds ≤ now →
          limiter.answer (before ++ call :: others) ⟨call.key, now⟩ = .accepted := by
  constructor
  · intro hwhole others now hne hnow
    exact answer_of_wait hanswer hwhole hne hnow
  · intro hwait window hget
    right
    obtain ⟨started, used, hget', hleft, hused, rfl⟩ := check_eq_refused_iff.1 hanswer
    obtain rfl := Option.some.inj (hget'.symm.trans hget)
    rw [← le_announced_iff]
    by_contra hshort
    have haccepted := hwait [] (call.now + announced (limiter.retryAfter call.now started))
      (by simp) le_rfl
    refine answer_of_early hanswer hget' ?_ haccepted
    unfold retryAfter at hshort ⊢
    linarith

theorem wholeWait_of_accepted (h : limiter.answer before call = .accepted) :
    limiter.WholeWait (limiter.after before) call := by
  rintro ⟨started, used⟩ hget
  rcases lt_or_ge used limiter.allowance with hused | hused
  · exact Or.inl hused
  · rcases le_or_gt (limiter.retryAfter call.now started) 1 with hleft | hleft
    · exact Or.inr (Or.inl hleft)
    · have hrefused := check_eq_refused_iff.2
        ⟨started, used, hget, one_pos.trans hleft, hused, rfl⟩
      rw [answer, hrefused] at h
      cases h

/-- **The law of the limiter** holds for exactly the runs in which every call meets the condition. -/
theorem rateLaw_iff (limiter : RateLimiter) (calls : List (Call κ)) (hburst : 0 < limiter.burst) :
    limiter.RateLaw calls ↔
      ∀ before call, before ++ [call] <+: calls → limiter.WholeWait (limiter.after before) call := by
  constructor
  · intro law before call hbegins
    cases hanswer : limiter.answer before call with
    | accepted => exact wholeWait_of_accepted hanswer
    | refused seconds => exact (wholeWait_iff hanswer).2 (law.waitSuffices before call seconds hbegins hanswer)
  · intro hwhole
    refine ⟨fun key hkey window hwindow => ?_, fun before call seconds _ hanswer key => ?_,
      fun before call seconds hbegins hanswer => (wholeWait_iff hanswer).1 (hwhole before call hbegins)⟩
    · have hallowance : limiter.allowance = limiter.burst := max_eq_right hburst
      rw [← hallowance]
      exact length_le_of_mem_windowsOf hkey window hwindow
    · rw [after_concat]
      exact get?_of_refused hanswer key

/-- Two calls four seconds apart: six whole seconds are left. -/
theorem rateLaw_wholeSeconds :
    (⟨2048, 10, 1⟩ : RateLimiter).RateLaw [⟨0, 0⟩, (⟨0, 4⟩ : Call ℕ)] := by
  refine (rateLaw_iff _ _ (by decide)).2 fun before call hbegins => ?_
  obtain ⟨rest, hrest⟩ := hbegins
  rcases before with _ | ⟨first, _ | ⟨second, before⟩⟩
  · rintro window hget
    cases hget
  · obtain ⟨rfl, rfl, rfl⟩ : first = ⟨0, 0⟩ ∧ call = ⟨0, 4⟩ ∧ rest = [] := by simpa using hrest
    rintro window hget
    rw [show (after ⟨2048, 10, 1⟩ [(⟨0, 0⟩ : Call ℕ)]).get? 0 = some (0, 1) by decide +kernel] at hget
    cases hget
    exact Or.inr (Or.inr (by decide +kernel))
  · simp at hrest

/-- **A refusal announces nine seconds of the nine and a half that are left**, and the call after nine
seconds is refused again. -/
theorem not_rateLaw_halfSecond :
    ¬ (⟨2048, 10, 1⟩ : RateLimiter).RateLaw [⟨0, 0⟩, (⟨0, 1 / 2⟩ : Call ℕ)] := by
  intro law
  have hrefused : answer ⟨2048, 10, 1⟩ [(⟨0, 0⟩ : Call ℕ)] ⟨0, 1 / 2⟩ = .refused 9 := by decide +kernel
  have hagain := law.waitSuffices [⟨0, 0⟩] ⟨0, 1 / 2⟩ 9 (by exact List.prefix_rfl) hrefused [] (19 / 2)
    (by simp) (by norm_num)
  revert hagain
  decide +kernel

end RateLimiter

end VpnBot.RateLimit
