import Mathlib.Algebra.BigOperators.Group.List.Basic
import Mathlib.Algebra.Order.Ring.Int

/-!
# Attempts

An attempt on a state returns a value or raises.  Where every attempt that raises leaves the state as it was, the
state after any attempts is the one that the last successful attempt has left (`holds_of_attempts`).  Each success may
count: `gain` says how much.
-/

namespace Sys

variable {σ κ ε ρ : Type}

/-- The results of some attempts, one after the other, and the state at the end. -/
def attempts (run : κ → σ → Except ε ρ × σ) : List κ → σ → List (κ × Except ε ρ) × σ
  | [], s => ([], s)
  | call :: calls, s =>
    ((call, (run call s).1) :: (attempts run calls (run call s).2).1, (attempts run calls (run call s).2).2)

/-- The last attempt that has returned. -/
def lastSuccess : List (κ × Except ε ρ) → Option κ
  | [] => none
  | (call, r) :: log => (lastSuccess log).or (if r.toBool then some call else none)

/-- What the successes have gained. -/
def total (gain : ρ → ℤ) (log : List (κ × Except ε ρ)) : ℤ :=
  (log.map fun entry => entry.2.toOption.elim 0 gain).sum

variable {run : κ → σ → Except ε ρ × σ} {inv : ℤ → σ → Prop} {post : κ → ℤ → σ → Prop} {gain : ρ → ℤ}
  {harmless : ε → Prop} {allowed : κ → Prop} {calls : List κ} {n : ℤ} {s : σ}

theorem total_eq_zero {log : List (κ × Except ε ρ)} (h : lastSuccess log = none) : total gain log = 0 := by
  induction log with
  | nil => rfl
  | cons entry log ih =>
    obtain ⟨call, r⟩ := entry
    rw [lastSuccess, Option.or_eq_none_iff] at h
    rw [total, List.map_cons, List.sum_cons, ← total, ih h.1, add_zero]
    cases r with
    | ok r => simp [Except.toBool] at h
    | error e => rfl

/-- **The last success decides.**  Attempts that establish `post` when they return, and leave the state as it was when
they raise, leave behind what the last successful one has established. -/
theorem holds_of_attempts
    (hsuccess : ∀ call n s r, allowed call → inv n s → (run call s).1 = .ok r →
      inv (n + gain r) (run call s).2 ∧ post call (n + gain r) (run call s).2)
    (hfailure : ∀ call n s e, allowed call → inv n s → harmless e → (run call s).1 = .error e → (run call s).2 = s)
    (hinv : inv n s) (hallowed : ∀ call ∈ calls, allowed call)
    (hharmless : ∀ entry ∈ (attempts run calls s).1, ∀ e, entry.2 = .error e → harmless e) :
    inv (n + total gain (attempts run calls s).1) (attempts run calls s).2 ∧
      (lastSuccess (attempts run calls s).1 = none → (attempts run calls s).2 = s) ∧
      ∀ call, lastSuccess (attempts run calls s).1 = some call →
        post call (n + total gain (attempts run calls s).1) (attempts run calls s).2 := by
  induction calls generalizing s n with
  | nil =>
    refine ⟨?_, fun _ => rfl, fun call h => by cases h⟩
    show inv (n + 0) s
    rwa [add_zero]
  | cons call calls ih =>
    have hcall := hallowed call List.mem_cons_self
    have hallowed' : ∀ c ∈ calls, allowed c := fun c hc => hallowed c (List.mem_cons_of_mem _ hc)
    rw [attempts] at hharmless ⊢
    obtain ⟨hfirst, hrest⟩ := List.forall_mem_cons.1 hharmless
    have htotal : total gain ((call, (run call s).1) :: (attempts run calls (run call s).2).1) =
        (run call s).1.toOption.elim 0 gain + total gain (attempts run calls (run call s).2).1 := List.sum_cons
    dsimp only
    rw [htotal, ← add_assoc]
    cases hr : (run call s).1 with
    | ok r =>
      obtain ⟨hinv', hpost⟩ := hsuccess call n s r hcall hinv hr
      obtain ⟨hend, hsame, hlast⟩ := ih hinv' hallowed' hrest
      refine ⟨hend, fun hnone => ?_, fun c hc => ?_⟩
      · rw [lastSuccess] at hnone
        simp [Except.toBool] at hnone
      · cases hlater : lastSuccess (attempts run calls (run call s).2).1 with
        | some later =>
          rw [lastSuccess, hlater] at hc
          obtain rfl := Option.some.inj hc
          exact hlast later hlater
        | none =>
          -- what follows has raised, and the state is the one of this attempt
          rw [lastSuccess, hlater] at hc
          obtain rfl := Option.some.inj hc
          rw [total_eq_zero hlater, add_zero, hsame hlater]
          exact hpost
    | error e =>
      have hs := hfailure call n s e hcall hinv (hfirst e hr) hr
      have hzero : n + (Except.error e : Except ε ρ).toOption.elim 0 gain = n := add_zero n
      rw [hs] at hrest ⊢
      rw [hzero, lastSuccess]
      simp only [Except.toBool, Bool.false_eq_true, if_false, Option.or_none]
      exact ih hinv hallowed' hrest

end Sys
