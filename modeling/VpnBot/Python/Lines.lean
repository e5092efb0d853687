import VpnBot.Python.Text

/-!
# White space and lines

String operations of the Python language that look at white space and line breaks: `isspace`,
`strip`, `split` without an argument (`words`), `split` once at a separator (`splitOnce`), `int` of
a text, and `splitlines`.  Joining lines with a line feed and splitting the result gives the lines
back, up to an empty last one (`splitlines_join`).
-/

namespace Py

/-! ### White space -/

/-- `c.isspace()`. -/
def isSpace (c : Char) : Bool :=
  (9 ≤ c.toNat && c.toNat ≤ 13) || (28 ≤ c.toNat && c.toNat ≤ 32) || c.toNat = 0x85 ||
    c.toNat = 0xA0 || c.toNat = 0x1680 || (0x2000 ≤ c.toNat && c.toNat ≤ 0x200A) ||
    c.toNat = 0x2028 || c.toNat = 0x2029 || c.toNat = 0x202F || c.toNat = 0x205F ||
    c.toNat = 0x3000

/-- `t.strip()`. -/
def strip (t : Text) : Text := ((t.dropWhile isSpace).reverse.dropWhile isSpace).reverse

/-- `t.split()`: the maximal runs of characters that are not white space. -/
def words (t : Text) : List Text := (t.splitOnP isSpace).filter (!·.isEmpty)

@[simp] theorem strip_nil : strip [] = [] := rfl

theorem strip_eq_self {t : Text} (h : ∀ c ∈ t, isSpace c = false) : strip t = t := by
  have hdrop : ∀ l : Text, (∀ c ∈ l, isSpace c = false) → l.dropWhile isSpace = l := by
    intro l hl
    cases l with
    | nil => rfl
    | cons c l => rw [List.dropWhile_cons, hl c List.mem_cons_self]; rfl
  rw [strip, hdrop t h, hdrop _ fun c hc => h c (List.mem_reverse.1 hc), List.reverse_reverse]

theorem words_of_forall {t : Text} (hne : t ≠ []) (h : ∀ c ∈ t, isSpace c = false) :
    words t = [t] := by
  rw [words, List.splitOnP_eq_singleton h]
  simp [hne]

theorem words_append_space {t : Text} (hne : t ≠ []) (h : ∀ c ∈ t, isSpace c = false) (r : Text) :
    words (t ++ ' ' :: r) = t :: words r := by
  rw [words, List.splitOnP_append_cons_of_forall_mem h ' ' (by decide)]
  simp [hne, words]

/-- `t.split(c, 1)` when the separator occurs: the parts before and after its first place. -/
def splitOnce (c : Char) : Text → Option (Text × Text)
  | [] => none
  | d :: t => if d = c then some ([], t) else (splitOnce c t).map fun p => (d :: p.1, p.2)

/-- `t.rsplit(c, 1)[0]`. -/
def beforeLast (c : Char) (t : Text) : Text := (splitOnce c t.reverse).elim t fun parts => parts.2.reverse

theorem splitOnce_append {c : Char} {t : Text} (h : c ∉ t) (r : Text) :
    splitOnce c (t ++ c :: r) = some (t, r) := by
  induction t with
  | nil => simp [splitOnce]
  | cons d t ih =>
    rw [List.mem_cons, not_or] at h
    rw [List.cons_append, splitOnce, if_neg (Ne.symm h.1), ih h.2]
    rfl

/-- `t.startswith(p)`. -/
def startsWith (p t : Text) : Bool := p.isPrefixOf t

@[simp] theorem startsWith_append (p r : Text) : startsWith p (p ++ r) = true := by
  rw [startsWith, List.isPrefixOf_iff_prefix]
  exact List.prefix_append p r

/-! ### Integers -/

/-- The zeros of the decimal digit ranges of Unicode 14. -/
def digitZeros : List ℕ :=
  [0x30, 0x660, 0x6f0, 0x7c0, 0x966, 0x9e6, 0xa66, 0xae6, 0xb66, 0xbe6, 0xc66, 0xce6, 0xd66, 0xde6,
   0xe50, 0xed0, 0xf20, 0x1040, 0x1090, 0x17e0, 0x1810, 0x1946, 0x19d0, 0x1a80, 0x1a90, 0x1b50,
   0x1bb0, 0x1c40, 0x1c50, 0xa620, 0xa8d0, 0xa900, 0xa9d0, 0xa9f0, 0xaa50, 0xabf0, 0xff10, 0x104a0,
   0x10d30, 0x11066, 0x110f0, 0x11136, 0x111d0, 0x112f0, 0x11450, 0x114d0, 0x11650, 0x116c0,
   0x11730, 0x118e0, 0x11950, 0x11c50, 0x11d50, 0x11da0, 0x16a60, 0x16ac0, 0x16b50, 0x1d7ce,
   0x1d7d8, 0x1d7e2, 0x1d7ec, 0x1d7f6, 0x1e140, 0x1e2f0, 0x1e950, 0x1fbf0]

def digitValue (c : Char) : Option ℕ :=
  (digitZeros.find? fun z => z ≤ c.toNat && c.toNat < z + 10).map (c.toNat - ·)

/-- The longest numeral that `int` reads. -/
def maxStrDigits : ℕ := 4300

/-- A numeral without a sign: digits, with single underscores between them. -/
def parseDigits (t : Text) : Option ℕ :=
  let groups := t.splitOn '_'
  if groups.any (·.isEmpty) || maxStrDigits < groups.flatten.length then none
  else (groups.flatten.mapM digitValue).map (List.foldl (fun n d => 10 * n + d) 0)

/-- `int(t)`; `none` is the `ValueError`. -/
def parseInt (t : Text) : Option ℤ :=
  match strip t with
  | '-' :: r => (parseDigits r).map fun n => -(n : ℤ)
  | '+' :: r => (parseDigits r).map fun n => (n : ℤ)
  | r => (parseDigits r).map fun n => (n : ℤ)

/-- `str` of an integer. -/
def intText : ℤ → Text
  | .ofNat n => natText n
  | .negSucc n => '-' :: natText (n + 1)

theorem digitValue_of_isDigit {c : Char} (h : c.isDigit = true) :
    digitValue c = some (c.toNat - '0'.toNat) := by
  have hr : 48 ≤ c.toNat ∧ c.toNat < 58 := by
    simp only [Char.isDigit, Bool.and_eq_true, decide_eq_true_eq] at h
    have h1 : 48 ≤ c.val.toNat := h.1
    have h2 : c.val.toNat ≤ 57 := h.2
    exact ⟨h1, Nat.lt_succ_of_le h2⟩
  have hfind : (digitZeros.find? fun z => z ≤ c.toNat && c.toNat < z + 10) = some 0x30 := by
    rw [digitZeros, List.find?_cons_of_pos]
    simpa using hr
  rw [digitValue, hfind]
  rfl

theorem isSpace_of_isDigit {c : Char} (h : c.isDigit = true) : isSpace c = false := by
  have hr : 48 ≤ c.toNat ∧ c.toNat < 58 := by
    simp only [Char.isDigit, Bool.and_eq_true, decide_eq_true_eq] at h
    have h1 : 48 ≤ c.val.toNat := h.1
    have h2 : c.val.toNat ≤ 57 := h.2
    exact ⟨h1, Nat.lt_succ_of_le h2⟩
  simp only [isSpace, Bool.or_eq_false_iff, Bool.and_eq_false_iff, decide_eq_false_iff_not]
  omega

theorem isSpace_of_mem_natText {n : ℕ} {c : Char} (h : c ∈ natText n) : isSpace c = false :=
  isSpace_of_isDigit (isDigit_of_mem_natText h)

theorem mapM_digitValue {t : Text} (h : ∀ c ∈ t, c.isDigit = true) :
    t.mapM digitValue = some (t.map fun c => c.toNat - '0'.toNat) := by
  induction t with
  | nil => rfl
  | cons c t ih =>
    rw [List.mapM_cons, digitValue_of_isDigit (h c List.mem_cons_self),
      ih fun d hd => h d (List.mem_cons_of_mem _ hd)]
    rfl

/-- A numeral is read without a sign. -/
theorem parseInt_natText_eq (n : ℕ) :
    parseInt (natText n) = (parseDigits (natText n)).map fun n => (n : ℤ) := by
  have hstrip : strip (natText n) = natText n :=
    strip_eq_self fun c hc => isSpace_of_mem_natText hc
  rw [parseInt, hstrip]
  split
  · rename_i r hr
    exact absurd (hr ▸ List.mem_cons_self) (not_mem_natText (c := '-') rfl n)
  · rename_i r hr
    exact absurd (hr ▸ List.mem_cons_self) (not_mem_natText (c := '+') rfl n)
  · rfl

theorem parseDigits_natText (n : ℕ) :
    parseDigits (natText n) = if n < 10 ^ maxStrDigits then some n else none := by
  have hdigit : ∀ c ∈ natText n, c.isDigit = true := fun c hc => isDigit_of_mem_natText hc
  have hsplit : (natText n).splitOn '_' = [natText n] :=
    List.splitOn_eq_singleton (not_mem_natText rfl n)
  have hlen : maxStrDigits < (natText n).length ↔ ¬ n < 10 ^ maxStrDigits := by
    rw [← not_le, length_natText_le_iff (by decide)]
  have hvalue : ((natText n).map fun c => c.toNat - '0'.toNat).foldl (fun n d => 10 * n + d) 0 =
      n := by
    rw [List.foldl_map]
    exact decimalValue_natText n
  rw [parseDigits, hsplit]
  simp only [List.any_cons, List.any_nil, List.flatten_cons, List.flatten_nil, List.append_nil,
    Bool.or_false, mapM_digitValue hdigit, Option.map_some, hvalue, hlen]
  by_cases hn : n < 10 ^ maxStrDigits
  · simp [hn, natText_ne_nil n]
  · simp [hn]

/-- **Reading the text of a number gives the number back**, within the limit of `int`. -/
theorem parseInt_natText {n : ℕ} (h : n < 10 ^ maxStrDigits) : parseInt (natText n) = some n := by
  rw [parseInt_natText_eq, parseDigits_natText, if_pos h]
  rfl

/-- A numeral over the limit cannot be read. -/
theorem parseInt_natText_of_le {n : ℕ} (h : 10 ^ maxStrDigits ≤ n) : parseInt (natText n) = none := by
  rw [parseInt_natText_eq, parseDigits_natText, if_neg (not_lt.2 h)]
  rfl

/-! ### Lines -/

/-- The characters that end a line for `splitlines`. -/
def isLineBreak (c : Char) : Bool :=
  (10 ≤ c.toNat && c.toNat ≤ 13) || (28 ≤ c.toNat && c.toNat ≤ 30) || c.toNat = 0x85 ||
    c.toNat = 0x2028 || c.toNat = 0x2029

/-- `t.splitlines()`; a carriage return and the line feed after it are one break. -/
def splitlines : Text → List Text
  | [] => []
  | c :: t =>
    if c = '\r' ∧ t.head? = some '\n' then splitlines t
    else if isLineBreak c then [] :: splitlines t
    else
      match splitlines t with
      | [] => [[c]]
      | l :: ls => (c :: l) :: ls

theorem forall_mem_of_all {p : Char → Bool} {t : Text} (h : t.all (fun c => !p c) = true) :
    ∀ c ∈ t, p c = false := fun c hc => by
  simpa using List.all_eq_true.1 h c hc

theorem forall_lines_of_all {p : Char → Bool} {ls : List Text}
    (h : ls.all (fun l => l.all fun c => !p c) = true) : ∀ l ∈ ls, ∀ c ∈ l, p c = false :=
  fun l hl => forall_mem_of_all (List.all_eq_true.1 h l hl)

theorem isLineBreak_of_mem_splitlines {t l : Text} (hl : l ∈ splitlines t) :
    ∀ c ∈ l, isLineBreak c = false := by
  induction t generalizing l with
  | nil => cases hl
  | cons d t ih =>
    rw [splitlines] at hl
    split_ifs at hl with h1 h2
    · exact ih hl
    · rcases List.mem_cons.1 hl with rfl | hl
      · simp
      · exact ih hl
    · have hd : isLineBreak d = false := by simpa using h2
      cases hs : splitlines t with
      | nil =>
        rw [hs] at hl
        rw [List.mem_singleton.1 hl]
        simpa using hd
      | cons m ms =>
        rw [hs] at hl ih
        rcases List.mem_cons.1 hl with rfl | hl
        · intro c hc
          rcases List.mem_cons.1 hc with rfl | hc
          · exact hd
          · exact ih List.mem_cons_self c hc
        · exact ih (List.mem_cons_of_mem _ hl)

theorem splitlines_cons {c : Char} (hc : isLineBreak c = false) (t : Text) :
    splitlines (c :: t) =
      match splitlines t with
      | [] => [[c]]
      | l :: ls => (c :: l) :: ls := by
  have hr : ¬ (c = '\r' ∧ t.head? = some '\n') := by
    rintro ⟨rfl, -⟩
    revert hc
    decide
  rw [splitlines, if_neg hr, if_neg (by rw [hc]; decide)]

theorem splitlines_append_newline {l : Text} (hl : ∀ c ∈ l, isLineBreak c = false) (t : Text) :
    splitlines (l ++ '\n' :: t) = l :: splitlines t := by
  induction l with
  | nil => simp [splitlines, isLineBreak]
  | cons c l ih =>
    rw [List.cons_append, splitlines_cons (hl c List.mem_cons_self),
      ih fun d hd => hl d (List.mem_cons_of_mem _ hd)]

theorem splitlines_line {l : Text} (hl : ∀ c ∈ l, isLineBreak c = false) :
    splitlines l = if l = [] then [] else [l] := by
  induction l with
  | nil => rfl
  | cons c l ih =>
    rw [splitlines_cons (hl c List.mem_cons_self), ih fun d hd => hl d (List.mem_cons_of_mem _ hd)]
    cases l <;> rfl

def dropEmptyLast : List Text → List Text
  | [] => []
  | [l] => if l = [] then [] else [l]
  | l :: m :: ls => l :: dropEmptyLast (m :: ls)

/-- **Splitting joined lines gives them back**, up to an empty last line. -/
theorem splitlines_join {ls : List Text} (h : ∀ l ∈ ls, ∀ c ∈ l, isLineBreak c = false) :
    splitlines (join '\n' ls) = dropEmptyLast ls := by
  induction ls with
  | nil => rfl
  | cons l ls ih =>
    have hl := h l List.mem_cons_self
    cases ls with
    | nil =>
      have : join '\n' [l] = l := by simp [join, List.intercalate]
      rw [this, splitlines_line hl]
      rfl
    | cons m ms =>
      have hjoin : join '\n' (l :: m :: ms) = l ++ '\n' :: join '\n' (m :: ms) := by
        simp [join, List.intercalate]
      rw [hjoin, splitlines_append_newline hl, ih fun k hk => h k (List.mem_cons_of_mem _ hk)]
      rfl

end Py
