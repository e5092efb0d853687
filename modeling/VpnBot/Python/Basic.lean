import Mathlib.Data.List.Forall2

/-!
# Computations that may raise, and places in a list

A function that may raise returns `Except ε α`; `bind_eq_ok` and `forall₂_of_mapM` take a computation
that has succeeded apart into its steps.  `exists_split_cons` goes through the places of a list.
-/

namespace Py

variable {ε α β : Type}

/-- A sequence of two steps succeeds when both do. -/
theorem bind_eq_ok {x : Except ε α} {f : α → Except ε β} {b : β} :
    (x >>= f) = .ok b ↔ ∃ a, x = .ok a ∧ f a = .ok b := by
  cases x with
  | error e => exact ⟨fun h => (nomatch h), fun ⟨_, h, _⟩ => (nomatch h)⟩
  | ok a => exact ⟨fun h => ⟨a, rfl, h⟩, fun ⟨_, h, hf⟩ => by cases h; exact hf⟩

/-- A comprehension succeeds when each of its steps does. -/
theorem forall₂_of_mapM {f : α → Except ε β} {l : List α} {r : List β} (h : l.mapM f = .ok r) :
    List.Forall₂ (fun a b => f a = .ok b) l r := by
  induction l generalizing r with
  | nil =>
    rw [List.mapM_nil] at h
    cases h
    exact .nil
  | cons a l ih =>
    rw [List.mapM_cons] at h
    obtain ⟨b, hb, h⟩ := bind_eq_ok.1 h
    obtain ⟨bs, hbs, h⟩ := bind_eq_ok.1 h
    cases h
    exact .cons hb (ih hbs)

theorem exists_mem_iff_of_forall₂ {r : α → β → Prop} {l : List α} {m : List β}
    (h : List.Forall₂ r l m) {p : α → Prop} {q : β → Prop} (hpq : ∀ a b, r a b → (p a ↔ q b)) :
    (∃ a ∈ l, p a) ↔ ∃ b ∈ m, q b := by
  induction h with
  | nil => simp
  | cons hab _ ih => rw [List.exists_mem_cons_iff, List.exists_mem_cons_iff, hpq _ _ hab, ih]

theorem exists_split_cons {a : α} {l : List α} {p : List α → α → List α → Prop} :
    (∃ before b after, a :: l = before ++ b :: after ∧ p before b after) ↔
      p [] a l ∨ ∃ before b after, l = before ++ b :: after ∧ p (a :: before) b after := by
  constructor
  · rintro ⟨before, b, after, he, hp⟩
    cases before with
    | nil =>
      obtain ⟨rfl, rfl⟩ := List.cons.inj he
      exact Or.inl hp
    | cons c before =>
      obtain ⟨rfl, rfl⟩ := List.cons.inj he
      exact Or.inr ⟨before, b, after, rfl, hp⟩
  · rintro (hp | ⟨before, b, after, rfl, hp⟩)
    · exact ⟨[], a, l, rfl, hp⟩
    · exact ⟨a :: before, b, after, rfl, hp⟩

end Py
