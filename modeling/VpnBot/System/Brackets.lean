import Mathlib.Data.List.Infix

/-!
# Brackets

Opening and closing brackets over names, read with a stack of the names that are open.  `unmatched` gives of a
piece of a sequence what it closes of its surroundings and what it leaves open; reading the piece takes the
former off the stack and puts the latter on it (`exists_rest_of_stackAfter`).
-/

namespace Sys

variable {α : Type*}

inductive Bracket (α : Type*) where
  | opens (name : α)
  | closes (name : α)
  deriving DecidableEq

namespace Bracket

variable [DecidableEq α]

/-- The stack after one bracket; a bracket that closes another name than the last one opened is not read. -/
def push : List α → Bracket α → Option (List α)
  | stack, .opens name => some (name :: stack)
  | top :: stack, .closes name => if top = name then some stack else none
  | [], .closes _ => none

def stackAfter (stack : List α) (brackets : List (Bracket α)) : Option (List α) :=
  brackets.foldlM push stack

@[simp] theorem stackAfter_nil (stack : List α) : stackAfter stack [] = some stack := rfl

theorem stackAfter_append (stack : List α) (b b' : List (Bracket α)) :
    stackAfter stack (b ++ b') = (stackAfter stack b).bind fun s => stackAfter s b' :=
  List.foldlM_append

/-- What precedes a sequence that is read is read too. -/
theorem exists_stackAfter_of_append {stack s : List α} {b b' : List (Bracket α)}
    (h : stackAfter stack (b ++ b') = some s) :
    ∃ s', stackAfter stack b = some s' ∧ stackAfter s' b' = some s := by
  rw [stackAfter_append] at h
  exact Option.bind_eq_some_iff.1 h

theorem stackAfter_closes (stack : List α) : stackAfter stack (stack.map .closes) = some [] := by
  induction stack with
  | nil => rfl
  | cons name stack ih =>
    rw [stackAfter, List.map_cons, List.foldlM_cons, push, if_pos rfl]
    exact ih

/-- The names that a sequence closes without having opened them, and those that it leaves open, one bracket
further. -/
def unmatchedStep : List α × List α → Bracket α → List α × List α
  | (closed, open'), .opens name => (closed, name :: open')
  | (closed, _ :: open'), .closes _ => (closed, open')
  | (closed, []), .closes name => (closed ++ [name], [])

/-- The names that a sequence closes without having opened them, and those that it leaves open. -/
def unmatched (brackets : List (Bracket α)) : List α × List α := brackets.foldl unmatchedStep ([], [])

theorem exists_rest_of_foldl {stack s closed open' : List α} {brackets : List (Bracket α)}
    (h : stackAfter (open' ++ stack) brackets = some s) :
    ∃ more rest, (brackets.foldl unmatchedStep (closed, open')).1 = closed ++ more ∧ stack = more ++ rest ∧
      s = (brackets.foldl unmatchedStep (closed, open')).2 ++ rest := by
  induction brackets generalizing stack closed open' with
  | nil =>
    rw [stackAfter_nil] at h
    exact ⟨[], stack, by simp, rfl, (Option.some.inj h).symm⟩
  | cons bracket brackets ih =>
    rw [stackAfter, List.foldlM_cons] at h
    obtain ⟨s', hpush, hrest⟩ := Option.bind_eq_some_iff.1 h
    rw [List.foldl_cons]
    cases bracket with
    | opens name =>
      obtain rfl := Option.some.inj hpush
      have hstep : stackAfter ((name :: open') ++ stack) brackets = some s := hrest
      exact ih hstep
    | closes name =>
      cases open' with
      | cons top open' =>
        rw [List.cons_append, push] at hpush
        split_ifs at hpush
        obtain rfl := Option.some.inj hpush
        exact ih hrest
      | nil =>
        cases stack with
        | nil => cases hpush
        | cons top stack =>
          rw [List.nil_append, push] at hpush
          split_ifs at hpush with heq
          obtain rfl := Option.some.inj hpush
          obtain rfl := heq
          have hstep : stackAfter ([] ++ stack) brackets = some s := hrest
          obtain ⟨more, rest, hclosed, hstack, hs⟩ := @ih stack (closed ++ [top]) [] hstep
          refine ⟨top :: more, rest, ?_, ?_, hs⟩
          · rw [unmatchedStep, hclosed, List.append_assoc]
            rfl
          · rw [hstack]
            rfl

/-- **What a piece does to the stack**: it takes off what it closes of its surroundings, and puts on what it
leaves open. -/
theorem exists_rest_of_stackAfter {stack s : List α} {brackets : List (Bracket α)}
    (h : stackAfter stack brackets = some s) :
    ∃ rest, stack = (unmatched brackets).1 ++ rest ∧ s = (unmatched brackets).2 ++ rest := by
  have hstart : stackAfter ([] ++ stack) brackets = some s := h
  obtain ⟨more, rest, hclosed, hstack, hs⟩ := @exists_rest_of_foldl _ _ stack s [] [] brackets hstart
  refine ⟨rest, ?_, hs⟩
  rw [unmatched, hclosed, hstack]
  rfl

end Bracket

end Sys
