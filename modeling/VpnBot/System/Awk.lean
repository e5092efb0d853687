import VpnBot.Python.Lines

/-!
# Records and fields

What `awk` reads: the lines of a text as records, the words of a record as fields, and `NR` and `FNR` over
several inputs.  `notIn` is the program `NR==FNR { want[$0]; next } !($0 in want)`: it gives the records of the
second input that are not in the first one, provided that the first one has a record at all
(`notIn_of_ne_nil`, `notIn_nil`).
-/

namespace Awk

open Py

/-- `[[:space:]]`. -/
def isSpace (c : Char) : Bool := c = ' ' || 9 ≤ c.toNat && c.toNat ≤ 13

/-- The characters between two fields. -/
def isBlank (c : Char) : Bool := c = ' ' || c = '\t' || c = '\n'

/-- The records of a text, with no record behind a last line feed. -/
def records (t : Text) : List Text := dropEmptyLast (splitAt '\n' t)

def fields (record : Text) : List Text := (record.splitOnP isBlank).filter (!·.isEmpty)

/-- `$1`, `$2` and so on; a field that the record does not have is empty. -/
def field (i : ℕ) (record : Text) : Text := (fields record).getD (i - 1) []

/-- The records of several inputs with their `NR` and `FNR`, from a count of records. -/
def numbered (nr : ℕ) : List (List Text) → List (ℕ × ℕ × Text)
  | [] => []
  | input :: inputs =>
    (input.zipIdx 1).map (fun p => (nr + p.2, p.2, p.1)) ++ numbered (nr + input.length) inputs

/-- `NR==FNR { want[$0]; next } !($0 in want)` on one record: the array and what is printed. -/
def notInStep (state : List Text × List Text) (record : ℕ × ℕ × Text) : List Text × List Text :=
  if record.1 = record.2.1 then (record.2.2 :: state.1, state.2)
  else if record.2.2 ∈ state.1 then state
  else (state.1, state.2 ++ [record.2.2])

/-- What the program prints for two inputs. -/
def notIn (first second : List Text) : List Text := ((numbered 0 [first, second]).foldl notInStep ([], [])).2

variable {nr : ℕ} {input want : List Text}

/-! ### Two inputs -/

/-- Where `NR` and `FNR` agree everything goes into the array. -/
theorem foldl_notInStep_zero (input : List Text) (k : ℕ) (want out : List Text) :
    ((input.zipIdx k).map fun p => (0 + p.2, p.2, p.1)).foldl notInStep (want, out) =
      (input.reverse ++ want, out) := by
  induction input generalizing k want with
  | nil => rfl
  | cons record input ih =>
    rw [List.zipIdx_cons, List.map_cons, List.foldl_cons, notInStep, if_pos (Nat.zero_add k), ih]
    simp

theorem foldl_notInStep_pos (hnr : 0 < nr) (input : List Text) (k : ℕ) (want out : List Text) :
    ((input.zipIdx k).map fun p => (nr + p.2, p.2, p.1)).foldl notInStep (want, out) =
      (want, out ++ input.filter (· ∉ want)) := by
  induction input generalizing k out with
  | nil => simp
  | cons record input ih =>
    rw [List.zipIdx_cons, List.map_cons, List.foldl_cons, notInStep, if_neg (by simp only; omega)]
    by_cases hmem : record ∈ want
    · rw [if_pos hmem, ih, List.filter_cons_of_neg (by simpa using hmem)]
    · rw [if_neg hmem, ih, List.filter_cons_of_pos (by simpa using hmem), List.append_assoc,
        List.singleton_append]

/-- **With a record in the first input** the others are those of the second that it lacks. -/
theorem notIn_of_ne_nil {first : List Text} (h : first ≠ []) (second : List Text) :
    notIn first second = second.filter (· ∉ first) := by
  have hpos : 0 < 0 + first.length := by
    have := List.length_pos_iff.2 h
    omega
  rw [notIn, numbered, numbered, numbered, List.append_nil, List.foldl_append, foldl_notInStep_zero,
    foldl_notInStep_pos hpos, List.nil_append, List.append_nil]
  simp

/-- **Without one** the second input is taken for the first, and nothing is printed. -/
theorem notIn_nil (second : List Text) : notIn [] second = [] := by
  rw [notIn, numbered, numbered, numbered, List.append_nil]
  simp only [List.zipIdx_nil, List.map_nil, List.nil_append, List.length_nil, Nat.add_zero]
  rw [foldl_notInStep_zero]

/-! ### Fields -/

/-- A word is not empty and holds none of the characters between fields. -/
def IsWord (t : Text) : Prop := t ≠ [] ∧ ∀ c ∈ t, isBlank c = false

theorem fields_of_isWord {t : Text} (h : IsWord t) : fields t = [t] := by
  rw [fields, List.splitOnP_eq_singleton h.2]
  simp [h.1]

theorem fields_append_space {t : Text} (h : IsWord t) (r : Text) : fields (t ++ ' ' :: r) = t :: fields r := by
  rw [fields, List.splitOnP_append_cons_of_forall_mem h.2 ' ' (by decide)]
  simp [h.1, fields]

theorem fields_join {words : List Text} (h : ∀ word ∈ words, IsWord word) : fields (join ' ' words) = words := by
  induction words with
  | nil => rfl
  | cons word words ih =>
    obtain ⟨hword, hwords⟩ := List.forall_mem_cons.1 h
    cases words with
    | nil =>
      have hjoin : join ' ' [word] = word := by simp [join, List.intercalate]
      rw [hjoin, fields_of_isWord hword]
    | cons next words =>
      have hjoin : join ' ' (word :: next :: words) = word ++ ' ' :: join ' ' (next :: words) := by
        simp [join, List.intercalate]
      rw [hjoin, fields_append_space hword, ih hwords]

end Awk
