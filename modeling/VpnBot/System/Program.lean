import Mathlib

/-!
# Programs that may raise

A `Program σ ε α` reads and writes a state of type `σ` and returns a value or raises an exception;
what was written before an exception stays written.  `Ends p P Q s` says how a run of `p` from `s`
ends: in `P` with a value or in `Q` with an exception.  The rules are equivalences, one for each
form of a program, so that `simp` runs a program step by step; `Ends.mono` is the rule of
consequence and `Keeps` the frame condition.
-/

namespace Sys

/-- A program over the states `σ` that returns or raises. -/
abbrev Program (σ ε α : Type) := EStateM ε σ α

namespace Program

variable {σ ε α β γ : Type}

/-- A run from `s` returns in `P` or raises in `Q`. -/
def Ends (p : Program σ ε α) (P : α → σ → Prop) (Q : ε → σ → Prop) (s : σ) : Prop :=
  match p s with
  | .ok a s' => P a s'
  | .error e s' => Q e s'

/-- The value that a run returns, if it returns one, and the state it leaves. -/
def result (p : Program σ ε α) (s : σ) : Option α × σ :=
  match p s with
  | .ok a s' => (some a, s')
  | .error _ s' => (none, s')

variable {p : Program σ ε α} {f : α → Program σ ε β} {P P' : α → σ → Prop} {Q Q' : ε → σ → Prop}
  {R : β → σ → Prop} {s s' : σ}

theorem ends_iff : Ends p P Q s ↔
    (∀ a s', p s = .ok a s' → P a s') ∧ ∀ e s', p s = .error e s' → Q e s' := by
  unfold Ends
  cases h : p s with
  | ok a s' => simp
  | error e s' => simp

theorem ends_of_forall (hP : ∀ a s, P a s) (hQ : ∀ e s, Q e s) : Ends p P Q s :=
  ends_iff.2 ⟨fun a s' _ => hP a s', fun e s' _ => hQ e s'⟩

theorem Ends.mono (h : Ends p P Q s) (hP : ∀ a s, P a s → P' a s) (hQ : ∀ e s, Q e s → Q' e s) :
    Ends p P' Q' s := by
  rw [ends_iff] at h ⊢
  exact ⟨fun a s' ha => hP a s' (h.1 a s' ha), fun e s' he => hQ e s' (h.2 e s' he)⟩

theorem Ends.and (h : Ends p P Q s) (h' : Ends p P' Q' s) :
    Ends p (fun a s => P a s ∧ P' a s) (fun e s => Q e s ∧ Q' e s) s := by
  rw [ends_iff] at h h' ⊢
  exact ⟨fun a s' ha => ⟨h.1 a s' ha, h'.1 a s' ha⟩, fun e s' he => ⟨h.2 e s' he, h'.2 e s' he⟩⟩

theorem Ends.result {R : Option α → σ → Prop} (h : Ends p (fun a => R (some a)) (fun _ => R none) s) :
    R (result p s).1 (result p s).2 := by
  unfold Ends at h
  unfold Program.result
  cases hp : p s with
  | ok a s' =>
    rw [hp] at h
    exact h
  | error e s' =>
    rw [hp] at h
    exact h

theorem ends_result_state :
    Ends p (fun _ s' => s' = (result p s).2) (fun _ s' => s' = (result p s).2) s := by
  unfold Ends Program.result
  cases p s <;> rfl

/-- A program whose runs are described in full settles when it meets a specification. -/
theorem Ends.iff_of {H : Prop} (h : Ends p (fun a s' => P a s' ∧ H) (fun e s' => Q e s' ↔ H) s) :
    Ends p P Q s ↔ H := by
  unfold Ends at h ⊢
  cases hp : p s with
  | ok a s' =>
    rw [hp] at h
    exact ⟨fun _ => h.2, fun _ => h.1⟩
  | error e s' =>
    rw [hp] at h
    exact h

/-- A computation on the state that may raise. -/
def ofExcept (g : σ → Except ε α) : Program σ ε α := fun s =>
  match g s with
  | .ok a => .ok a s
  | .error e => .error e s

/-- Takes back what the program wrote when it raises. -/
def transaction (p : Program σ ε α) : Program σ ε α := fun s =>
  match p s with
  | .ok a s' => .ok a s'
  | .error e _ => .error e s

/-- A program on a part of a larger state; `raise` is how its exceptions appear outside. -/
def zoom {τ ε' : Type} (part : τ → σ) (update : σ → τ → τ) (raise : ε → ε') (p : Program σ ε α) :
    Program τ ε' α := fun t =>
  match p (part t) with
  | .ok a s => .ok a (update s t)
  | .error e s => .error (raise e) (update s t)

/-! ### The rules -/

@[simp] theorem ends_pure (a : α) : Ends (pure a : Program σ ε α) P Q s ↔ P a s := Iff.rfl

@[simp] theorem ends_throw (e : ε) : Ends (throw e : Program σ ε α) P Q s ↔ Q e s := Iff.rfl

@[simp] theorem ends_get {P : σ → σ → Prop} : Ends (get : Program σ ε σ) P Q s ↔ P s s := Iff.rfl

@[simp] theorem ends_modify {P : Unit → σ → Prop} (f : σ → σ) :
    Ends (modify f : Program σ ε Unit) P Q s ↔ P () (f s) := Iff.rfl

@[simp] theorem ends_ofExcept (g : σ → Except ε α) :
    Ends (ofExcept g) P Q s ↔ (∀ a, g s = .ok a → P a s) ∧ ∀ e, g s = .error e → Q e s := by
  unfold Ends ofExcept
  cases g s <;> simp

@[simp] theorem ends_bind : Ends (p >>= f) R Q s ↔ Ends p (fun a => Ends (f a) R Q) Q s := by
  change (match EStateM.bind p f s with | .ok a s' => R a s' | .error e s' => Q e s') ↔
    (match p s with
      | .ok a s' => (match f a s' with | .ok b s' => R b s' | .error e s' => Q e s')
      | .error e s' => Q e s')
  rw [EStateM.bind]
  cases p s <;> exact Iff.rfl

@[simp] theorem ends_map (g : α → β) : Ends (g <$> p) R Q s ↔ Ends p (fun a => R (g a)) Q s := by
  change (match EStateM.map g p s with | .ok a s' => R a s' | .error e s' => Q e s') ↔
    (match p s with
      | .ok a s' => R (g a) s'
      | .error e s' => Q e s')
  rw [EStateM.map]
  cases p s <;> exact Iff.rfl

@[simp] theorem ends_tryCatch (h : ε → Program σ ε α) :
    Ends (tryCatch p h) P Q s ↔ Ends p P (fun e => Ends (h e) P Q) s := by
  change (match @EStateM.tryCatch ε σ PUnit _ α p h s with | .ok a s' => P a s' | .error e s' => Q e s') ↔
    (match p s with
      | .ok a s' => P a s'
      | .error e s' => (match h e s' with | .ok b s' => P b s' | .error e s' => Q e s'))
  rw [EStateM.tryCatch]
  cases p s <;> exact Iff.rfl

@[simp] theorem ends_zoom {τ ε' : Type} {part : τ → σ} {update : σ → τ → τ} {raise : ε → ε'}
    {P : α → τ → Prop} {Q : ε' → τ → Prop} {t : τ} : Ends (zoom part update raise p) P Q t ↔
      Ends p (fun a s => P a (update s t)) (fun e s => Q (raise e) (update s t)) (part t) := by
  unfold Ends zoom
  cases p (part t) <;> exact Iff.rfl

theorem ends_transaction : Ends (transaction p) P Q s ↔ Ends p P (fun e _ => Q e s) s := by
  unfold Ends transaction
  cases p s <;> exact Iff.rfl

/-! ### The frame -/

/-- No run of the program changes what `g` reads of the state. -/
def Keeps (g : σ → γ) (p : Program σ ε α) : Prop :=
  ∀ s, Ends p (fun _ s' => g s' = g s) (fun _ s' => g s' = g s) s

variable {g : σ → γ}

theorem keeps_pure (a : α) : Keeps g (pure a : Program σ ε α) := fun _ => rfl

theorem keeps_throw (e : ε) : Keeps g (throw e : Program σ ε α) := fun _ => rfl

theorem keeps_get : Keeps g (get : Program σ ε σ) := fun _ => rfl

theorem keeps_modify {f : σ → σ} (h : ∀ s, g (f s) = g s) :
    Keeps g (modify f : Program σ ε Unit) := h

theorem Keeps.bind (h : Keeps g p) (hf : ∀ a, Keeps g (f a)) : Keeps g (p >>= f) := by
  intro s
  rw [ends_bind]
  exact (h s).mono (fun a s₁ h₁ => (hf a s₁).mono (fun _ _ h₂ => h₂.trans h₁)
    fun _ _ h₂ => h₂.trans h₁) fun _ _ h₁ => h₁

theorem Keeps.tryCatch {h : ε → Program σ ε α} (hp : Keeps g p) (hh : ∀ e, Keeps g (h e)) :
    Keeps g (tryCatch p h) := by
  intro s
  rw [ends_tryCatch]
  exact (hp s).mono (fun _ _ h₁ => h₁) fun e s₁ h₁ => (hh e s₁).mono (fun _ _ h₂ => h₂.trans h₁)
    fun _ _ h₂ => h₂.trans h₁

end Program

end Sys
