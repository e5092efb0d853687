import Mathlib.Data.List.Basic
import Mathlib.Data.List.Sort
import Mathlib.Tactic

/-!
# Text

Text is a list of characters.  This file has the decimal numerals of the Python language (`str` of
a natural number, `isdigit`), its `split` and `join` at a one-character separator, and the order of
texts by code points.
-/

namespace Py

/-- Python's `str`. -/
abbrev Text := List Char

instance : LawfulBEq Text := inferInstance

/-- `***`, what secrets are replaced by. -/
def stars : Text := "***".toList

/-! ### Decimal numerals -/

/-- `str(n)`. -/
def natText (n : ℕ) : Text := Nat.toDigits 10 n

/-- `t.isascii() and t.isdigit()`. -/
def isDecimal (t : Text) : Bool := !t.isEmpty && t.all Char.isDigit

/-- `int(t)` for a text of ASCII digits. -/
def decimalValue (t : Text) : ℕ := Nat.ofDigitChars 10 t 0

theorem natText_ne_nil (n : ℕ) : natText n ≠ [] := Nat.toDigits_ne_nil

theorem isDigit_of_mem_natText {n : ℕ} {c : Char} (h : c ∈ natText n) : c.isDigit = true :=
  Nat.isDigit_of_mem_toDigits (by decide) le_rfl h

@[simp] theorem isDecimal_natText (n : ℕ) : isDecimal (natText n) = true := by
  have hne : (natText n).isEmpty = false := by simp [natText_ne_nil n]
  have hall : (natText n).all Char.isDigit = true :=
    List.all_eq_true.2 fun c hc => isDigit_of_mem_natText hc
  rw [isDecimal, hne, hall]
  rfl

@[simp] theorem decimalValue_natText (n : ℕ) : decimalValue (natText n) = n :=
  Nat.ofDigitChars_ten_toDigits

theorem natText_injective : Function.Injective natText := fun m n h => by
  rw [← decimalValue_natText m, h, decimalValue_natText]

theorem not_mem_natText {c : Char} (hc : c.isDigit = false) (n : ℕ) : c ∉ natText n := fun h => by
  rw [isDigit_of_mem_natText h] at hc
  cases hc

theorem length_natText_le_iff {n k : ℕ} (hk : 0 < k) : (natText n).length ≤ k ↔ n < 10 ^ k :=
  Nat.length_toDigits_le_iff (by decide) hk

/-- The only numeral that starts with the digit zero is `0`. -/
theorem natText_eq_of_head {n : ℕ} (h : (natText n).head? = some '0') : natText n = ['0'] := by
  induction n using Nat.strong_induction_on with
  | _ n ih =>
    by_cases hn : n < 10
    · rw [natText, Nat.toDigits_of_lt_base hn] at h ⊢
      interval_cases n <;> revert h <;> decide
    · rw [natText, Nat.toDigits_of_base_le (by decide) (by omega)] at h
      have hlt : n / 10 < n := by omega
      have hhead : (natText (n / 10)).head? = some '0' := by
        rw [List.head?_append_of_ne_nil _ Nat.toDigits_ne_nil] at h
        exact h
      have hzero : n / 10 = 0 := natText_injective (ih _ hlt hhead)
      omega

/-! ### Splitting at a character -/

/-- `t.split(c)` for a one-character separator. -/
def splitAt (c : Char) (t : Text) : List Text := t.splitOn c

/-- `c.join(l)` for a one-character separator. -/
def join (c : Char) (l : List Text) : Text := List.intercalate [c] l

theorem splitAt_join {c : Char} {l : List Text} (hl : l ≠ []) (h : ∀ t ∈ l, c ∉ t) :
    splitAt c (join c l) = l :=
  List.splitOn_intercalate c h hl

/-! ### Sorting -/

/-- `a <= b`: texts are compared by the code points of their characters. -/
def textLe : Text → Text → Bool
  | [], _ => true
  | _ :: _, [] => false
  | c :: s, d :: t => c.toNat < d.toNat || (c.toNat = d.toNat && textLe s t)

/-- `sorted(l)`. -/
def sortTexts (l : List Text) : List Text := l.insertionSort fun a b => textLe a b = true

@[simp] theorem mem_sortTexts {l : List Text} {t : Text} : t ∈ sortTexts l ↔ t ∈ l :=
  (List.perm_insertionSort _ l).mem_iff

end Py
