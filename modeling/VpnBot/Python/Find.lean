import Mathlib.Data.List.DropRight
import VpnBot.Python.Lines

/-!
# The last place of a character

`rfind` and `rstrip` of the Python language.  A character that stands in front of a piece without it is found
there (`rfind_append_cons`), and a piece without white space at its end keeps `rstrip` away from what precedes it
(`rstrip_concat_of_not`).
-/

namespace Py

/-- `t.rstrip()`. -/
def rstrip (t : Text) : Text := t.rdropWhile isSpace

/-- `t.rfind(c)`: the last place of the character, or `-1`. -/
def rfind (c : Char) (t : Text) : ℤ := t.length - 1 - t.reverse.idxOf c

/-- Behind the last place of the character it does not occur. -/
theorem rfind_append_cons {c : Char} {r : Text} (h : c ∉ r) (t : Text) : rfind c (t ++ c :: r) = t.length := by
  have hplace : (t ++ c :: r).reverse.idxOf c = r.length := by
    rw [List.reverse_append, List.reverse_cons, List.append_assoc,
      List.idxOf_append_of_notMem (by rwa [List.mem_reverse]), List.length_reverse, List.singleton_append,
      List.idxOf_cons_self]
    rfl
  rw [rfind, hplace, List.length_append, List.length_cons]
  omega

/-- A piece without the character changes nothing. -/
theorem rfind_append_of_notMem {c : Char} {r : Text} (h : c ∉ r) (t : Text) : rfind c (t ++ r) = rfind c t := by
  rw [rfind, rfind, List.reverse_append, List.idxOf_append_of_notMem (by rwa [List.mem_reverse]),
    List.length_reverse, List.length_append]
  omega

theorem rfind_lt_length (c : Char) (t : Text) : rfind c t < t.length := by
  rw [rfind]
  omega

theorem rstrip_concat_of_not {c : Char} (h : isSpace c = false) (t : Text) : rstrip (t ++ [c]) = t ++ [c] :=
  List.rdropWhile_concat_neg _ _ _ (by rw [h]; exact Bool.false_ne_true)

end Py
