import Mathlib.Data.List.Basic

/-!
# Runs of a step function

A system is a step function `σ → α → Option σ`; `none` says that the action is not possible in the
state.  `runFrom` makes a list of actions, `Allowed` says that every action of a list meets a
condition in the state in which it is made, and `CanReach` that some list of actions leads to a
state with a property.  `invariant_of_allowed` is the induction rule for runs.
-/

namespace Sys

variable {σ α : Type}

/-- The state after a list of actions. -/
def runFrom (step : σ → α → Option σ) : σ → List α → Option σ
  | s, [] => some s
  | s, a :: as => (step s a).bind fun s' => runFrom step s' as

/-- Each action of the list meets the condition in the state in which it is made. -/
def Allowed (step : σ → α → Option σ) (allowed : σ → α → Prop) : σ → List α → Prop
  | _, [] => True
  | s, a :: as => allowed s a ∧ ∀ s', step s a = some s' → Allowed step allowed s' as

/-- Some actions lead to a state with the property. -/
def CanReach (step : σ → α → Option σ) (p : σ → Prop) (s : σ) : Prop :=
  ∃ as s', runFrom step s as = some s' ∧ p s'

variable {step : σ → α → Option σ} {allowed : σ → α → Prop} {p inv : σ → Prop} {s s' : σ}

variable {as : List α} {allowed' : σ → α → Prop}

theorem runFrom_cons {a : α} :
    runFrom step s (a :: as) = some s' ↔ ∃ m, step s a = some m ∧ runFrom step m as = some s' := by
  rw [runFrom, Option.bind_eq_some_iff]

theorem runFrom_append {as bs : List α} :
    runFrom step s (as ++ bs) = some s' ↔
      ∃ m, runFrom step s as = some m ∧ runFrom step m bs = some s' := by
  induction as generalizing s with
  | nil => exact ⟨fun h => ⟨s, rfl, h⟩, fun ⟨_, hs, h⟩ => Option.some.inj hs ▸ h⟩
  | cons a as ih =>
    constructor
    · intro h
      obtain ⟨m, hm, h⟩ := runFrom_cons.1 h
      obtain ⟨m', has, hbs⟩ := ih.1 h
      exact ⟨m', runFrom_cons.2 ⟨m, hm, has⟩, hbs⟩
    · rintro ⟨m', has, hbs⟩
      obtain ⟨m, hm, has⟩ := runFrom_cons.1 has
      exact runFrom_cons.2 ⟨m, hm, ih.2 ⟨m', has, hbs⟩⟩

/-- **What every allowed step keeps holds after every run of allowed steps.** -/
theorem invariant_of_allowed
    (hstep : ∀ s a s', inv s → allowed s a → step s a = some s' → inv s') {as : List α}
    (hs : inv s) (ha : Allowed step allowed s as) (hrun : runFrom step s as = some s') : inv s' := by
  induction as generalizing s with
  | nil =>
    cases hrun
    exact hs
  | cons a as ih =>
    obtain ⟨m, hm, hrun⟩ := runFrom_cons.1 hrun
    exact ih (hstep s a m hs ha.1 hm) (ha.2 m hm) hrun

/-- **A property that a step keeps exactly when it is allowed holds all along the runs of allowed steps
only.** -/
theorem forall_reached_iff_allowed (htotal : ∀ s a, (step s a).isSome)
    (hstep : ∀ s a s', inv s → step s a = some s' → (inv s' ↔ allowed s a)) (hs : inv s) (as : List α) :
    (∀ pre s', pre <+: as → runFrom step s pre = some s' → inv s') ↔ Allowed step allowed s as := by
  induction as generalizing s with
  | nil =>
    refine iff_of_true (fun pre s' hpre hrun => ?_) trivial
    obtain rfl := List.prefix_nil.1 hpre
    cases hrun
    exact hs
  | cons a as ih =>
    obtain ⟨m, hm⟩ := Option.isSome_iff_exists.1 (htotal s a)
    constructor
    · intro h
      have hinv : inv m := h [a] m (List.prefix_append [a] as) (runFrom_cons.2 ⟨m, hm, rfl⟩)
      refine ⟨(hstep s a m hs hm).1 hinv, fun m' hm' => ?_⟩
      obtain rfl := Option.some.inj (hm.symm.trans hm')
      refine (ih hinv).1 fun pre s' hpre hrun => ?_
      exact h (a :: pre) s' ((List.prefix_cons_inj a).2 hpre) (runFrom_cons.2 ⟨m, hm, hrun⟩)
    · rintro ⟨hallow, hrest⟩ pre s' hpre hrun
      cases pre with
      | nil =>
        cases hrun
        exact hs
      | cons b pre =>
        obtain ⟨rfl, htail⟩ := List.cons_prefix_cons.1 hpre
        obtain ⟨m', hm', hrun⟩ := runFrom_cons.1 hrun
        obtain rfl := Option.some.inj (hm.symm.trans hm')
        exact (ih ((hstep s b m hs hm).2 hallow)).2 (hrest m hm) pre s' htail hrun

/-- **A property that a step has after it exactly when it had it before and was allowed** holds at the end
of a run exactly when it held at the start and all steps were allowed. -/
theorem reached_iff_allowed (hstep : ∀ s a s', step s a = some s' → (inv s' ↔ inv s ∧ allowed s a))
    (hrun : runFrom step s as = some s') :
    inv s' ↔ inv s ∧ Allowed step allowed s as := by
  induction as generalizing s with
  | nil =>
    cases hrun
    exact (and_iff_left trivial).symm
  | cons a as ih =>
    obtain ⟨m, hm, hrun⟩ := runFrom_cons.1 hrun
    rw [ih hrun, hstep s a m hm, and_assoc]
    refine and_congr_right fun _ => and_congr_right fun _ => ?_
    constructor
    · intro h m' hm'
      obtain rfl := Option.some.inj (hm.symm.trans hm')
      exact h
    · exact fun h => h m hm

/-- Two conditions on the actions of a run agree when they agree in the states with a property, and the
first one keeps it. -/
theorem allowed_iff_of_inv
    (hiff : ∀ s, ∀ a ∈ as, ∀ s', inv s → step s a = some s' → (allowed s a ↔ allowed' s a))
    (hkeep : ∀ s a s', inv s → step s a = some s' → allowed s a → inv s') (hs : inv s)
    (hrun : runFrom step s as = some s') : Allowed step allowed s as ↔ Allowed step allowed' s as := by
  induction as generalizing s with
  | nil => exact Iff.rfl
  | cons a as ih =>
    obtain ⟨m, hm, hrun⟩ := runFrom_cons.1 hrun
    have hhead := hiff s a List.mem_cons_self m hs hm
    have htail : inv m → (Allowed step allowed m as ↔ Allowed step allowed' m as) :=
      fun hinv => ih (fun s b hb => hiff s b (List.mem_cons_of_mem a hb)) hinv hrun
    constructor
    · rintro ⟨ha, hrest⟩
      refine ⟨hhead.1 ha, fun m' hm' => ?_⟩
      obtain rfl := Option.some.inj (hm.symm.trans hm')
      exact (htail (hkeep s a m hs hm ha)).1 (hrest m hm)
    · rintro ⟨ha', hrest⟩
      have ha := hhead.2 ha'
      refine ⟨ha, fun m' hm' => ?_⟩
      obtain rfl := Option.some.inj (hm.symm.trans hm')
      exact (htail (hkeep s a m hs hm ha)).2 (hrest m hm)

theorem allowed_cons_of_step {a : α} {m : σ} (ha : allowed s a) (hstep : step s a = some m)
    (has : Allowed step allowed m as) : Allowed step allowed s (a :: as) := by
  refine ⟨ha, fun s' hs' => ?_⟩
  rw [← Option.some.inj (hstep.symm.trans hs')]
  exact has

theorem allowed_of_forall (h : ∀ a ∈ as, ∀ s, allowed s a) (s : σ) :
    Allowed step allowed s as := by
  induction as generalizing s with
  | nil => exact trivial
  | cons a as ih =>
    exact ⟨h a List.mem_cons_self s, fun s' _ => ih (fun b hb => h b (List.mem_cons_of_mem _ hb)) s'⟩

theorem Allowed.mono (h : ∀ s a, allowed s a → allowed' s a)
    (ha : Allowed step allowed s as) : Allowed step allowed' s as := by
  induction as generalizing s with
  | nil => exact trivial
  | cons a as ih => exact ⟨h s a ha.1, fun s' hs' => ih (ha.2 s' hs')⟩

/-- Two conditions that the actions meet. -/
theorem Allowed.and (h : Allowed step allowed s as) (h' : Allowed step allowed' s as) :
    Allowed step (fun s a => allowed s a ∧ allowed' s a) s as := by
  induction as generalizing s with
  | nil => exact trivial
  | cons a as ih => exact ⟨⟨h.1, h'.1⟩, fun s' hs' => ih (h.2 s' hs') (h'.2 s' hs')⟩

theorem Allowed.append {as bs : List α} (ha : Allowed step allowed s (as ++ bs)) :
    Allowed step allowed s as ∧
      ∀ s', runFrom step s as = some s' → Allowed step allowed s' bs := by
  induction as generalizing s with
  | nil => exact ⟨trivial, fun s' hs' => Option.some.inj hs' ▸ ha⟩
  | cons a as ih =>
    refine ⟨⟨ha.1, fun m hm => (ih (ha.2 m hm)).1⟩, fun s' hs' => ?_⟩
    obtain ⟨m, hm, hrest⟩ := runFrom_cons.1 hs'
    exact (ih (ha.2 m hm)).2 s' hrest

theorem allowed_congr (h : ∀ s a, allowed s a ↔ allowed' s a) (s : σ)
    (as : List α) : Allowed step allowed s as ↔ Allowed step allowed' s as := by
  have heq : allowed = allowed' := by
    funext s a
    exact propext (h s a)
  rw [heq]

/-- A condition that can be decided can be decided along a run. -/
instance decidableAllowed [∀ s a, Decidable (allowed s a)] :
    ∀ s as, Decidable (Allowed step allowed s as)
  | _, [] => .isTrue trivial
  | s, a :: as =>
    match h : step s a with
    | none => decidable_of_iff (allowed s a) (by simp [Allowed, h])
    | some s' =>
      have := decidableAllowed s' as
      decidable_of_iff (allowed s a ∧ Allowed step allowed s' as) (by simp [Allowed, h])

theorem canReach_self (h : p s) : CanReach step p s := ⟨[], s, rfl, h⟩

theorem canReach_step {a : α} (h : step s a = some s') (hr : CanReach step p s') :
    CanReach step p s := by
  obtain ⟨as, r, hrun, hp⟩ := hr
  exact ⟨a :: as, r, runFrom_cons.2 ⟨s', h, hrun⟩, hp⟩

end Sys
