import VpnBot.System.Program

/-!
# Calls that may fail

A call of a database or of another service has an effect on the state and may raise: before the effect,
or after it.  The faults of a run say of each call whether and how it fails, so that a statement for all
faults is one for every pattern of failures.

A handler need not take every exception: `tryExcept` lets some pass, as `except Exception` does with a cancellation.
-/

namespace Sys

/-- How a call fails: without any effect, or after it has taken effect. -/
inductive CallFault
  | before
  | after
  deriving DecidableEq

namespace Program

variable {σ ε α : Type} {fault : Option CallFault} {error : ε} {effect : σ → σ} {s : σ}
  {P : Unit → σ → Prop} {Q : ε → σ → Prop}

def call (fault : Option CallFault) (error : ε) (effect : σ → σ) : Program σ ε Unit :=
  match fault with
  | none => modify effect
  | some .before => throw error
  | some .after => do
    modify effect
    throw error

/-- A program whose exceptions are logged only; whether it has returned. -/
def attempt (p : Program σ ε Unit) : Program σ ε Bool :=
  tryCatch (do p; return true) fun _ => return false

/-- `try … except`, where some exceptions pass the handler. -/
def tryExcept (passes : ε → Bool) (p : Program σ ε α) (handler : ε → Program σ ε α) : Program σ ε α :=
  tryCatch p fun e => if passes e then throw e else handler e

theorem ends_tryExcept {passes : ε → Bool} {p : Program σ ε α} {handler : ε → Program σ ε α} {P : α → σ → Prop} :
    Ends (tryExcept passes p handler) P Q s ↔
      Ends p P (fun e s' => if passes e then Q e s' else Ends (handler e) P Q s') s := by
  have hhandler : ∀ e s', (Ends (if passes e then throw e else handler e) P Q s' ↔
      if passes e then Q e s' else Ends (handler e) P Q s') := by
    intro e s'
    split_ifs
    · exact Iff.rfl
    · exact Iff.rfl
  rw [tryExcept, ends_tryCatch]
  exact ⟨fun h => h.mono (fun _ _ h => h) fun e s' => (hhandler e s').1,
    fun h => h.mono (fun _ _ h => h) fun e s' => (hhandler e s').2⟩

theorem Keeps.tryExcept {γ : Type} {g : σ → γ} {passes : ε → Bool} {p : Program σ ε α}
    {handler : ε → Program σ ε α} (h : Keeps g p) (hhandler : ∀ e, Keeps g (handler e)) :
    Keeps g (tryExcept passes p handler) := by
  refine Keeps.tryCatch h fun e => ?_
  split_ifs
  · exact keeps_throw e
  · exact hhandler e

theorem ends_call : Ends (call fault error effect) P Q s ↔
    match fault with
    | none => P () (effect s)
    | some .before => Q error s
    | some .after => Q error (effect s) := by
  unfold call
  cases fault with
  | none => exact Iff.rfl
  | some fault => cases fault <;> exact Iff.rfl

theorem ends_call_of (hnone : fault = none → P () (effect s)) (hbefore : fault ≠ none → Q error s)
    (hafter : fault ≠ none → Q error (effect s)) : Ends (call fault error effect) P Q s := by
  rw [ends_call]
  match fault with
  | none => exact hnone rfl
  | some .before => exact hbefore nofun
  | some .after => exact hafter nofun

@[simp] theorem ends_attempt {p : Program σ ε Unit} {P : Bool → σ → Prop} :
    Ends (attempt p) P Q s ↔ Ends p (fun _ s' => P true s') (fun _ s' => P false s') s := by
  simp only [attempt, ends_tryCatch, ends_bind]
  exact Iff.rfl

theorem keeps_call {γ : Type} {g : σ → γ} (h : ∀ s, g (effect s) = g s) :
    Keeps g (call fault error effect) := by
  intro s
  exact ends_call_of (fun _ => h s) (fun _ => rfl) fun _ => h s

end Program

end Sys
