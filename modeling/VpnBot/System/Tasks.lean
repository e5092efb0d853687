import Mathlib.Data.List.Basic

/-!
# Lists of calls and what they hold

The calls that are under way are a list; a step replaces one of them, and a new call comes at the end.
`HeldOnce` says that a thing that calls can hold, such as a lock, is held by at most one of them.  A step
keeps it when the call takes only what was free (`HeldOnce.set`).
-/

namespace Sys

variable {τ ρ : Type} {holder : τ → Option ρ} {tasks : List τ} {task task' : τ} {i : ℕ}

/-- No two calls hold one thing. -/
def HeldOnce (holder : τ → Option ρ) (tasks : List τ) : Prop :=
  ∀ (i j : ℕ) (a b : τ) (r : ρ), tasks[i]? = some a → tasks[j]? = some b → holder a = some r →
    holder b = some r → i = j

/-- No call holds a thing. -/
def isFree [DecidableEq ρ] (holder : τ → Option ρ) (tasks : List τ) (r : ρ) : Bool :=
  tasks.all fun task => holder task ≠ some r

theorem isFree_iff [DecidableEq ρ] {r : ρ} : isFree holder tasks r = true ↔ ∀ task ∈ tasks, holder task ≠ some r := by
  simp [isFree]

/-- After a step a call is the one that made it, or one that waited. -/
theorem mem_set_cases (htask : tasks[i]? = some task) {a : τ} (ha : a ∈ tasks.set i task') :
    a = task' ∨ ∃ j, j ≠ i ∧ tasks[j]? = some a := by
  obtain ⟨j, hj⟩ := List.mem_iff_getElem?.1 ha
  by_cases hij : j = i
  · subst hij
    rw [List.getElem?_set_self (List.getElem?_eq_some_iff.1 htask).1] at hj
    exact Or.inl (Option.some.inj hj).symm
  · rw [List.getElem?_set_ne (Ne.symm hij)] at hj
    exact Or.inr ⟨j, hij, hj⟩

theorem HeldOnce.nil : HeldOnce holder [] := by
  intro i j a b r ha
  cases ha

/-- A call that has nothing begins. -/
theorem HeldOnce.append (h : HeldOnce holder tasks) (htask : holder task = none) :
    HeldOnce holder (tasks ++ [task]) := by
  have hold : ∀ {j : ℕ} {a : τ} {r : ρ}, (tasks ++ [task])[j]? = some a → holder a = some r →
      tasks[j]? = some a := by
    intro j a r ha hr
    rw [List.getElem?_append] at ha
    split at ha
    · exact ha
    · rcases List.mem_singleton.1 (List.mem_of_getElem? ha) with rfl
      rw [htask] at hr
      cases hr
  intro j k a b r ha hb hholda hholdb
  exact h j k a b r (hold ha hholda) (hold hb hholdb) hholda hholdb

theorem HeldOnce.set (h : HeldOnce holder tasks) (htask : tasks[i]? = some task)
    (hstep : ∀ r, holder task' = some r → holder task = some r ∨ ∀ b ∈ tasks, holder b ≠ some r) :
    HeldOnce holder (tasks.set i task') := by
  have hlt := (List.getElem?_eq_some_iff.1 htask).1
  have hone : ∀ j b r, j ≠ i → tasks[j]? = some b → holder task' = some r → holder b ≠ some r := by
    intro j b r hij hb htask' hholds
    rcases hstep r htask' with hold | hfree
    · exact hij (h j i b task r hb htask hholds hold)
    · exact hfree b (List.mem_iff_getElem?.2 ⟨j, hb⟩) hholds
  intro j k a b r ha hb hholda hholdb
  by_cases hj : j = i <;> by_cases hk : k = i
  · exact hj.trans hk.symm
  · subst hj
    rw [List.getElem?_set_self hlt] at ha
    rw [List.getElem?_set_ne (Ne.symm hk)] at hb
    cases ha
    exact absurd hholdb (hone k b r hk hb hholda)
  · subst hk
    rw [List.getElem?_set_self hlt] at hb
    rw [List.getElem?_set_ne (Ne.symm hj)] at ha
    cases hb
    exact absurd hholda (hone j a r hj ha hholdb)
  · rw [List.getElem?_set_ne (Ne.symm hj)] at ha
    rw [List.getElem?_set_ne (Ne.symm hk)] at hb
    exact h j k a b r ha hb hholda hholdb

end Sys
