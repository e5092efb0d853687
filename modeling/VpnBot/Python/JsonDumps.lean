import VpnBot.Python.JsonLoads
import Mathlib.Data.List.TakeWhile

/-!
# `json.dumps`

The encoder with `ensure_ascii=False`, `indent=2` and `sort_keys=True`.  What it writes is read back as the
same value with the fields of every object in the order of their keys (`loads_dumps`), so that the text
of what has been read back is the text itself (`dumps_congr`).

A number is written with its text.
-/

namespace Py

namespace Json

/-! ### The encoder -/

/-- A hexadecimal digit. -/
def hexChar (n : ℕ) : Char := if n < 10 then Char.ofNat ('0'.toNat + n) else Char.ofNat ('a'.toNat + (n - 10))

/-- A character of a string. -/
def escapeChar (c : Char) : Text :=
  if c = '"' then ['\\', '"']
  else if c = '\\' then ['\\', '\\']
  else if c = '\n' then ['\\', 'n']
  else if c = '\r' then ['\\', 'r']
  else if c = '\t' then ['\\', 't']
  else if c = '\x0c' then ['\\', 'f']
  else if c = '\x08' then ['\\', 'b']
  else if c.toNat < 0x20 then ['\\', 'u', '0', '0', hexChar (c.toNat / 16), hexChar (c.toNat % 16)]
  else [c]

def stringText (t : Text) : Text := '"' :: (t.flatMap escapeChar ++ ['"'])

/-- A new line inside `level` containers. -/
def newline (level : ℕ) : Text := '\n' :: List.replicate (2 * level) ' '

/-- What stands behind the opening bracket: the items on lines of their own. -/
def itemLines (close : Char) (level : ℕ) : List Text → Text
  | [] => newline level ++ [close]
  | [t] => newline (level + 1) ++ t ++ newline level ++ [close]
  | t :: ts => newline (level + 1) ++ t ++ ',' :: itemLines close level ts

def containerText (first close : Char) (level : ℕ) (ts : List Text) : Text :=
  first :: if ts.isEmpty then [close] else itemLines close level ts

/-- The fields of an object in the order of their keys. -/
def sortFields {α : Type} (fields : List (Text × α)) : List (Text × α) :=
  fields.insertionSort fun p q => textLe p.1 q.1 = true

mutual

/-- `json.dumps(v, ensure_ascii=False, indent=2, sort_keys=True)`, inside `level` containers. -/
def dumpsAt (level : ℕ) : Json → Text
  | .null => "null".toList
  | .bool true => "true".toList
  | .bool false => "false".toList
  | .num r => r
  | .str t => stringText t
  | .arr items => containerText '[' ']' level (itemTexts (level + 1) items)
  | .obj fields =>
    containerText '{' '}' level
      ((sortFields (fieldTexts (level + 1) fields)).map fun p => stringText p.1 ++ ':' :: ' ' :: p.2)

def itemTexts (level : ℕ) : List Json → List Text
  | [] => []
  | v :: vs => dumpsAt level v :: itemTexts level vs

def fieldTexts (level : ℕ) : List (Text × Json) → List (Text × Text)
  | [] => []
  | (k, v) :: fields => (k, dumpsAt level v) :: fieldTexts level fields

end

/-- `json.dumps`. -/
def dumps (v : Json) : Text := dumpsAt 0 v

mutual

/-- The value with the fields of every object in the order of their keys. -/
def sorted : Json → Json
  | .arr items => .arr (sortedItems items)
  | .obj fields => .obj (sortFields (sortedFields fields))
  | v => v

/-- `sorted` for some items. -/
def sortedItems : List Json → List Json
  | [] => []
  | v :: vs => sorted v :: sortedItems vs

/-- `sorted` for some fields. -/
def sortedFields : List (Text × Json) → List (Text × Json)
  | [] => []
  | (k, v) :: fields => (k, sorted v) :: sortedFields fields

end

theorem itemTexts_eq (level : ℕ) (vs : List Json) : itemTexts level vs = vs.map (dumpsAt level) := by
  induction vs with
  | nil => rfl
  | cons v vs ih => rw [itemTexts, ih, List.map_cons]

theorem fieldTexts_eq (level : ℕ) (fields : List (Text × Json)) :
    fieldTexts level fields = fields.map fun p => (p.1, dumpsAt level p.2) := by
  induction fields with
  | nil => rfl
  | cons p fields ih => rw [fieldTexts, ih, List.map_cons]

theorem sortedItems_eq (vs : List Json) : sortedItems vs = vs.map sorted := by
  induction vs with
  | nil => rfl
  | cons v vs ih => rw [sortedItems, ih, List.map_cons]

theorem sortedFields_eq (fields : List (Text × Json)) :
    sortedFields fields = fields.map fun p => (p.1, sorted p.2) := by
  induction fields with
  | nil => rfl
  | cons p fields ih => rw [sortedFields, ih, List.map_cons]

/-! ### The order of the keys -/

theorem textLe_total (s t : Text) : textLe s t = true ∨ textLe t s = true := by
  induction s generalizing t with
  | nil => exact .inl rfl
  | cons c s ih =>
    cases t with
    | nil => exact .inr rfl
    | cons d t =>
      simp only [textLe, Bool.or_eq_true, Bool.and_eq_true, decide_eq_true_eq]
      rcases lt_trichotomy c.toNat d.toNat with h | h | h
      · exact .inl (.inl h)
      · rcases ih t with hst | hts
        · exact .inl (.inr ⟨h, hst⟩)
        · exact .inr (.inr ⟨h.symm, hts⟩)
      · exact .inr (.inl h)

theorem textLe_trans {s t u : Text} (hst : textLe s t = true) (htu : textLe t u = true) : textLe s u = true := by
  induction s generalizing t u with
  | nil => rfl
  | cons c s ih =>
    cases t with
    | nil => cases hst
    | cons d t =>
      cases u with
      | nil => cases htu
      | cons e u =>
        simp only [textLe, Bool.or_eq_true, Bool.and_eq_true, decide_eq_true_eq] at hst htu ⊢
        rcases hst with h | ⟨h, hst⟩
        · rcases htu with h' | ⟨h', -⟩
          · exact .inl (h.trans h')
          · exact .inl (h' ▸ h)
        · rcases htu with h' | ⟨h', htu⟩
          · exact .inl (h ▸ h')
          · exact .inr ⟨h.trans h', ih hst htu⟩

section Fields

variable {α β : Type}

instance : Std.Total fun p q : Text × α => textLe p.1 q.1 = true := ⟨fun p q => textLe_total p.1 q.1⟩

instance : IsTrans (Text × α) fun p q => textLe p.1 q.1 = true := ⟨fun _ _ _ => textLe_trans⟩

theorem perm_sortFields (fields : List (Text × α)) : (sortFields fields).Perm fields :=
  List.perm_insertionSort _ fields

theorem sortFields_map (f : α → β) (fields : List (Text × α)) :
    sortFields (fields.map fun p => (p.1, f p.2)) = (sortFields fields).map fun p => (p.1, f p.2) :=
  (List.map_insertionSort _ _ (fun p : Text × α => (p.1, f p.2)) fields fun _ _ _ _ => Iff.rfl).symm

theorem sortFields_sortFields (fields : List (Text × α)) : sortFields (sortFields fields) = sortFields fields :=
  List.Pairwise.insertionSort_eq (List.pairwise_insertionSort _ fields)

end Fields

/-! ### Values that can be written and read -/

/-- The text of a number. -/
def IsToken (r : Text) : Prop :=
  numberOf r = .ok (.num r) ∨ r ∈ ["NaN".toList, "Infinity".toList, "-Infinity".toList]

/-- At most `n` containers in each other, no key twice, and a property of the numbers. -/
def Readable (p : Text → Prop) : ℕ → Json → Prop
  | _, .null => True
  | _, .bool _ => True
  | _, .num r => p r
  | _, .str _ => True
  | 0, .arr _ => False
  | 0, .obj _ => False
  | n + 1, .arr items => ∀ v ∈ items, Readable p n v
  | n + 1, .obj fields => (fields.map Prod.fst).Nodup ∧ ∀ q ∈ fields, Readable p n q.2

theorem Readable.mono {p q : Text → Prop} (hpq : ∀ r, p r → q r) {n : ℕ} {v : Json} (h : Readable p n v) :
    Readable q n v := by
  induction n generalizing v with
  | zero =>
    cases v with
    | num r => exact hpq r h
    | arr items => exact h
    | obj fields => exact h
    | _ => trivial
  | succ n ih =>
    cases v with
    | num r => exact hpq r h
    | arr items => exact fun v hv => ih (h v hv)
    | obj fields => exact ⟨h.1, fun f hf => ih (h.2 f hf)⟩
    | _ => trivial

/-! ### Characters and strings -/

/-- What may stand behind a value. -/
def IsDelimiter (c : Char) : Prop := c = '\n' ∨ c = ',' ∨ c = ']' ∨ c = '}'

section Reading

variable {limit : ℕ} {stack : List Frame} {isKey : Bool} {c : Char} {rest rev : Text}

theorem readChar_value (orEnd : Bool) (c : Char) :
    readChar limit ⟨.value orEnd, stack⟩ c =
      if isJsonSpace c then .ok ⟨.value orEnd, stack⟩
      else if c = ']' ∧ orEnd = true then .ok ⟨.after (.arr []), stack.tail⟩
      else startValue limit stack c := rfl

theorem readChar_key (orEnd : Bool) (c : Char) :
    readChar limit ⟨.key orEnd, stack⟩ c =
      if isJsonSpace c then .ok ⟨.key orEnd, stack⟩
      else if c = '}' ∧ orEnd = true then .ok ⟨.after (.obj []), stack.tail⟩
      else if c = '"' then .ok ⟨.str true [] none, stack⟩
      else .error .value := rfl

theorem readChar_after (v : Json) (c : Char) : readChar limit ⟨.after v, stack⟩ c = afterValue v stack c := rfl

theorem readChar_str (rev : Text) (c : Char) :
    readChar limit ⟨.str isKey rev none, stack⟩ c =
      (readString isKey rev none c).map fun reading => ⟨reading, stack⟩ := rfl

theorem readChar_hex (rev : Text) (digits : List ℕ) (c : Char) :
    readChar limit ⟨.hex isKey rev none digits, stack⟩ c =
      (readHex isKey rev none digits c).map fun reading => ⟨reading, stack⟩ := rfl

theorem readChar_number (rev : Text) (c : Char) :
    readChar limit ⟨.number rev, stack⟩ c =
      if rev = ['-'] ∧ c = 'I' then .ok ⟨.literal "nfinity".toList (.num "-Infinity".toList), stack⟩
      else if isNumberChar c then .ok ⟨.number (c :: rev), stack⟩
      else (numberOf rev.reverse).bind fun v => afterValue v stack c := rfl

theorem foldlM_space {reading : Reading} (h : ∀ c, isJsonSpace c = true → readChar limit ⟨reading, stack⟩ c = .ok ⟨reading, stack⟩)
    {w : Text} (hw : ∀ c ∈ w, isJsonSpace c = true) (rest : Text) :
    (w ++ rest).foldlM (readChar limit) ⟨reading, stack⟩ = rest.foldlM (readChar limit) ⟨reading, stack⟩ := by
  induction w with
  | nil => rfl
  | cons c w ih =>
    rw [List.cons_append, List.foldlM_cons, h c (hw c List.mem_cons_self)]
    exact ih fun d hd => hw d (List.mem_cons_of_mem _ hd)

theorem isJsonSpace_newline (level : ℕ) : ∀ c ∈ newline level, isJsonSpace c = true := by
  intro c hc
  rcases List.mem_cons.mp hc with rfl | hc
  · rfl
  · rw [(List.mem_replicate.mp hc).2]
    rfl

theorem foldlM_newline_value (level : ℕ) (orEnd : Bool) (rest : Text) :
    (newline level ++ rest).foldlM (readChar limit) ⟨.value orEnd, stack⟩ =
      rest.foldlM (readChar limit) ⟨.value orEnd, stack⟩ :=
  foldlM_space (fun c hc => by rw [readChar_value, if_pos hc]) (isJsonSpace_newline level) rest

theorem foldlM_newline_key (level : ℕ) (orEnd : Bool) (rest : Text) :
    (newline level ++ rest).foldlM (readChar limit) ⟨.key orEnd, stack⟩ =
      rest.foldlM (readChar limit) ⟨.key orEnd, stack⟩ :=
  foldlM_space (fun c hc => by rw [readChar_key, if_pos hc]) (isJsonSpace_newline level) rest

/-- White space behind a value. -/
theorem foldlM_newline_after (level : ℕ) (v : Json) (rest : Text) :
    (newline level ++ rest).foldlM (readChar limit) ⟨.after v, stack⟩ =
      rest.foldlM (readChar limit) ⟨.after v, stack⟩ :=
  foldlM_space (fun c hc => by rw [readChar_after, afterValue.eq_def, if_pos hc]) (isJsonSpace_newline level) rest

theorem hexDigit_hexChar {n : ℕ} (h : n < 16) : hexDigit (hexChar n) = some n := by
  interval_cases n <;> decide

theorem foldlM_hex {x y : ℕ} (hx : x < 16) (hy : y < 16) (rest : Text) :
    (['u', '0', '0', hexChar x, hexChar y] ++ rest).foldlM (readChar limit) ⟨.escape isKey rev none, stack⟩ =
      rest.foldlM (readChar limit)
        ⟨.str isKey (addUnit rev none (x * 16 + y)).1 (addUnit rev none (x * 16 + y)).2, stack⟩ := by
  have hu : readChar limit ⟨.escape isKey rev none, stack⟩ 'u' = .ok ⟨.hex isKey rev none [], stack⟩ := rfl
  have hfirst : readChar limit ⟨.hex isKey rev none [], stack⟩ '0' = .ok ⟨.hex isKey rev none [0], stack⟩ := rfl
  have hsecond : readChar limit ⟨.hex isKey rev none [0], stack⟩ '0' = .ok ⟨.hex isKey rev none [0, 0], stack⟩ := rfl
  have hthird : readChar limit ⟨.hex isKey rev none [0, 0], stack⟩ (hexChar x) =
      .ok ⟨.hex isKey rev none [0, 0, x], stack⟩ := by
    rw [readChar_hex, readHex, hexDigit_hexChar hx]
    rfl
  have hfourth : readChar limit ⟨.hex isKey rev none [0, 0, x], stack⟩ (hexChar y) =
      .ok ⟨.str isKey (addUnit rev none (x * 16 + y)).1 (addUnit rev none (x * 16 + y)).2, stack⟩ := by
    have hunit : ((0 * 16 + 0) * 16 + x) * 16 + y = x * 16 + y := by omega
    rw [readChar_hex, readHex, hexDigit_hexChar hy]
    dsimp only
    rw [hunit]
    rfl
  simp only [List.cons_append, List.nil_append, List.foldlM_cons, hu, hfirst, hsecond, hthird, hfourth, bind,
    Except.bind]

theorem foldlM_escapeChar (c : Char) (rest : Text) :
    (escapeChar c ++ rest).foldlM (readChar limit) ⟨.str isKey rev none, stack⟩ =
      rest.foldlM (readChar limit) ⟨.str isKey (c :: rev) none, stack⟩ := by
  unfold escapeChar
  split_ifs with hquote hslash hfeed hreturn htab hform hback hcontrol
  · rw [hquote]
    rfl
  · rw [hslash]
    rfl
  · rw [hfeed]
    rfl
  · rw [hreturn]
    rfl
  · rw [htab]
    rfl
  · rw [hform]
    rfl
  · rw [hback]
    rfl
  · -- the four digits are those of the code point
    have hunit : c.toNat / 16 * 16 + c.toNat % 16 = c.toNat := by omega
    have hadd : addUnit rev none c.toNat = (c :: rev, none) := by
      rw [addUnit, if_neg (by omega), if_neg (by omega), Char.ofNat_toNat]
      rfl
    have hread : readChar limit ⟨.str isKey rev none, stack⟩ '\\' = .ok ⟨.escape isKey rev none, stack⟩ := rfl
    rw [List.cons_append, List.foldlM_cons, hread]
    show List.foldlM (readChar limit) ⟨.escape isKey rev none, stack⟩ _ = _
    rw [foldlM_hex (by omega) (by omega), hunit, hadd]
  · rw [List.singleton_append, List.foldlM_cons, readChar_str, readString, if_neg hquote, if_neg hslash, if_neg hcontrol]
    rfl

theorem foldlM_escaped (t rest : Text) :
    (t.flatMap escapeChar ++ '"' :: rest).foldlM (readChar limit) ⟨.str isKey rev none, stack⟩ =
      rest.foldlM (readChar limit) ⟨stringEnd isKey (rev.reverse ++ t), stack⟩ := by
  induction t generalizing rev with
  | nil =>
    rw [List.append_nil]
    rfl
  | cons c t ih =>
    rw [List.flatMap_cons, List.append_assoc, foldlM_escapeChar, ih, List.reverse_cons, List.append_assoc]
    rfl

theorem foldlM_stringText (orEnd : Bool) (t rest : Text) :
    (stringText t ++ rest).foldlM (readChar limit) ⟨.value orEnd, stack⟩ =
      rest.foldlM (readChar limit) ⟨.after (.str t), stack⟩ := by
  have hread : readChar limit ⟨.value orEnd, stack⟩ '"' = .ok ⟨.str false [] none, stack⟩ := rfl
  rw [stringText, List.cons_append, List.foldlM_cons, hread, List.append_assoc]
  exact foldlM_escaped t rest

theorem foldlM_key (orEnd : Bool) (t rest : Text) :
    (stringText t ++ rest).foldlM (readChar limit) ⟨.key orEnd, stack⟩ =
      rest.foldlM (readChar limit) ⟨.colon t, stack⟩ := by
  have hread : readChar limit ⟨.key orEnd, stack⟩ '"' = .ok ⟨.str true [] none, stack⟩ := rfl
  rw [stringText, List.cons_append, List.foldlM_cons, hread, List.append_assoc]
  exact foldlM_escaped t rest

/-! ### Numbers -/

theorem isNumberChar_of_isExponent {t : Text} (h : isExponent t = true) : ∀ c ∈ t, isNumberChar c = true := by
  have hdigits : ∀ {t : Text}, isDecimal t = true → ∀ c ∈ t, isNumberChar c = true := by
    intro t ht c hc
    rw [isDecimal, Bool.and_eq_true, List.all_eq_true] at ht
    rw [isNumberChar, ht.2 c hc]
    rfl
  intro c hc
  unfold isExponent at h
  split at h
  all_goals
    first
    | exact absurd hc List.not_mem_nil
    | (simp only [List.mem_cons] at hc
       rcases hc with rfl | rfl | hc
       · rfl
       · rfl
       · exact hdigits h c hc)
    | (simp only [List.mem_cons] at hc
       rcases hc with rfl | hc
       · rfl
       · exact hdigits h c hc)
    | cases h

theorem isNumberChar_of_isDigit (h : c.isDigit = true) : isNumberChar c = true := by
  rw [isNumberChar, h]
  rfl

theorem isNumberChar_of_isFraction {t : Text} (h : isFraction t = true) : ∀ c ∈ t, isNumberChar c = true := by
  intro c hc
  unfold isFraction at h
  split at h
  · rename_i t
    rw [Bool.and_eq_true] at h
    rcases List.mem_cons.mp hc with rfl | hc
    · rfl
    · rw [← show (spanDigits t).1 ++ (spanDigits t).2 = t from List.takeWhile_append_dropWhile] at hc
      rcases List.mem_append.mp hc with hc | hc
      · exact isNumberChar_of_isDigit (List.mem_takeWhile_imp hc)
      · exact isNumberChar_of_isExponent h.2 c hc
  · exact isNumberChar_of_isExponent h c hc

theorem exists_of_numberOf {r : Text} {v : Json} (h : numberOf r = .ok v) :
    v = .num r ∧ (∀ c ∈ r, isNumberChar c = true) ∧
      ∃ c t, r = c :: t ∧ (c = '-' ∨ c.isDigit = true) := by
  -- a text without a sign is its digits and the rest
  have hparts : ∀ u : Text, isJsonInt (spanDigits u).1 = true → isFraction (spanDigits u).2 = true →
      (∀ c ∈ u, isNumberChar c = true) ∧ ∃ c t, u = c :: t ∧ c.isDigit = true := by
    intro u hint hfraction
    have hsplit : (spanDigits u).1 ++ (spanDigits u).2 = u := List.takeWhile_append_dropWhile
    refine ⟨fun c hc => ?_, ?_⟩
    · rw [← hsplit] at hc
      rcases List.mem_append.mp hc with hc | hc
      · exact isNumberChar_of_isDigit (List.mem_takeWhile_imp hc)
      · exact isNumberChar_of_isFraction hfraction c hc
    · cases hfirst : (spanDigits u).1 with
      | nil =>
        rw [hfirst] at hint
        cases hint
      | cons d ds =>
        refine ⟨d, ds ++ (spanDigits u).2, ?_, ?_⟩
        · rw [← List.cons_append, ← hfirst, hsplit]
        · have hd : d ∈ (spanDigits u).1 := hfirst ▸ List.mem_cons_self
          exact List.mem_takeWhile_imp hd
  unfold numberOf at h
  dsimp only at h
  generalize hunsigned : (if r.head? = some '-' then r.tail else r) = u at h
  split_ifs at h with hform hdigits
  rw [Bool.not_eq_true', Bool.not_eq_false, Bool.and_eq_true] at hform
  obtain ⟨hchars, c, t, hu, hc⟩ := hparts u hform.1 hform.2
  refine ⟨(Except.ok.inj h).symm, ?_⟩
  by_cases hsign : r.head? = some '-'
  · rw [if_pos hsign] at hunsigned
    cases r with
    | nil => cases hsign
    | cons d rest =>
      obtain rfl := Option.some.inj hsign
      obtain rfl : rest = u := hunsigned
      refine ⟨fun e he => ?_, '-', rest, rfl, .inl rfl⟩
      rcases List.mem_cons.mp he with rfl | he
      · rfl
      · exact hchars e he
  · rw [if_neg hsign] at hunsigned
    rw [hunsigned]
    exact ⟨hchars, c, t, hu, .inr hc⟩

theorem foldlM_number {t : Text} (ht : ∀ c ∈ t, isNumberChar c = true) (rev rest : Text) :
    (t ++ rest).foldlM (readChar limit) ⟨.number rev, stack⟩ =
      rest.foldlM (readChar limit) ⟨.number (t.reverse ++ rev), stack⟩ := by
  induction t generalizing rev with
  | nil => rfl
  | cons c t ih =>
    have hc := ht c List.mem_cons_self
    have hread : readChar limit ⟨.number rev, stack⟩ c = .ok ⟨.number (c :: rev), stack⟩ := by
      rw [readChar_number, if_neg, if_pos hc]
      rintro ⟨-, rfl⟩
      cases hc
    rw [List.cons_append, List.foldlM_cons, hread, List.reverse_cons, List.append_assoc]
    exact ih (fun d hd => ht d (List.mem_cons_of_mem _ hd)) (c :: rev)

theorem foldlM_token (orEnd : Bool) {r : Text} (hr : IsToken r) (hc : IsDelimiter c) (rest : Text) :
    (r ++ c :: rest).foldlM (readChar limit) ⟨.value orEnd, stack⟩ =
      (c :: rest).foldlM (readChar limit) ⟨.after (.num r), stack⟩ := by
  rcases hr with hr | hr
  · obtain ⟨-, hchars, d, t, rfl, hd⟩ := exists_of_numberOf hr
    have hstart : readChar limit ⟨.value orEnd, stack⟩ d = .ok ⟨.number [d], stack⟩ := by
      have hother : isJsonSpace d = false ∧ d ≠ ']' ∧ d ≠ '"' ∧ d ≠ '{' ∧ d ≠ '[' ∧ d ≠ 'n' ∧ d ≠ 't' ∧ d ≠ 'f' ∧
          d ≠ 'N' ∧ d ≠ 'I' := by
        have hnumber := hchars d List.mem_cons_self
        refine ⟨?_, ?_, ?_, ?_, ?_, ?_, ?_, ?_, ?_, ?_⟩
        · cases hspace : isJsonSpace d with
          | false => rfl
          | true =>
            simp only [isJsonSpace, Bool.or_eq_true, decide_eq_true_eq] at hspace
            rcases hspace with ((rfl | rfl) | rfl) | rfl <;> cases hnumber
        all_goals
          rintro rfl
          cases hnumber
      obtain ⟨hspace, h1, h2, h3, h4, h5, h6, h7, h8, h9⟩ := hother
      rw [readChar_value, hspace, if_neg Bool.false_ne_true, if_neg fun h => h1 h.1, startValue, if_neg h2, if_neg h3,
        if_neg h4, if_neg h5, if_neg h6, if_neg h7, if_neg h8, if_neg h9, if_pos hd]
    have hend : readChar limit ⟨.number (d :: t).reverse, stack⟩ c = readChar limit ⟨.after (.num (d :: t)), stack⟩ c := by
      have hplain : isNumberChar c = false ∧ c ≠ 'I' := by
        rcases hc with rfl | rfl | rfl | rfl <;> decide
      rw [readChar_number, if_neg fun h => hplain.2 h.2, hplain.1, if_neg Bool.false_ne_true, List.reverse_reverse, hr]
      rfl
    have htail : ∀ e ∈ t, isNumberChar e = true := fun e he => hchars e (List.mem_cons_of_mem _ he)
    rw [List.cons_append, List.foldlM_cons, hstart]
    show List.foldlM (readChar limit) ⟨.number [d], stack⟩ (t ++ c :: rest) = _
    rw [foldlM_number htail, ← List.reverse_cons, List.foldlM_cons, List.foldlM_cons, hend]
  · simp only [List.mem_cons, List.not_mem_nil, or_false] at hr
    rcases hr with rfl | rfl | rfl <;> rfl

/-! ### Containers -/

theorem setField_of_not_mem {fields : List (Text × Json)} {k : Text} (v : Json) (h : k ∉ fields.map Prod.fst) :
    setField fields k v = fields ++ [(k, v)] := by
  induction fields with
  | nil => rfl
  | cons p fields ih =>
    rw [List.map_cons, List.mem_cons, not_or] at h
    rw [setField, if_neg (Ne.symm h.1), ih h.2, List.cons_append]

/-- A value is read back, whatever is read before and behind it. -/
def ReadsBack (limit : ℕ) (level n : ℕ) (v : Json) : Prop :=
  ∀ (stack : List Frame) (orEnd : Bool) (c : Char) (rest : Text), stack.length + n ≤ limit → IsDelimiter c →
    (dumpsAt level v ++ c :: rest).foldlM (readChar limit) ⟨.value orEnd, stack⟩ =
      (c :: rest).foldlM (readChar limit) ⟨.after v.sorted, stack⟩

variable {level n : ℕ}

theorem foldlM_items {items : List Json} (hne : items ≠ []) (hitems : ∀ v ∈ items, ReadsBack limit (level + 1) n v)
    (hn : stack.length + 1 + n ≤ limit) (acc : List Json) (orEnd : Bool) (rest : Text) :
    (itemLines ']' level (items.map (dumpsAt (level + 1))) ++ rest).foldlM (readChar limit)
        ⟨.value orEnd, .arr acc :: stack⟩ =
      rest.foldlM (readChar limit) ⟨.after (.arr (acc.reverse ++ items.map sorted)), stack⟩ := by
  induction items generalizing acc orEnd with
  | nil => exact absurd rfl hne
  | cons v vs ih =>
    have hv := fun orEnd c rest => hitems v List.mem_cons_self (.arr acc :: stack) orEnd c rest hn
    cases vs with
    | nil =>
      have hclose : readChar limit ⟨.after v.sorted, .arr acc :: stack⟩ ']' =
          .ok ⟨.after (.arr (v.sorted :: acc).reverse), stack⟩ := rfl
      show List.foldlM _ _ (newline (level + 1) ++ dumpsAt (level + 1) v ++ newline level ++ [']'] ++ rest) = _
      rw [List.append_assoc, List.append_assoc, List.append_assoc, foldlM_newline_value, newline, List.cons_append,
        hv _ _ _ (.inl rfl), ← List.cons_append, ← newline, foldlM_newline_after, List.singleton_append,
        List.foldlM_cons, hclose, List.reverse_cons]
      rfl
    | cons w ws =>
      have hcomma : readChar limit ⟨.after v.sorted, .arr acc :: stack⟩ ',' =
          .ok ⟨.value false, .arr (v.sorted :: acc) :: stack⟩ := rfl
      have hrest := ih (List.cons_ne_nil w ws) (fun u hu => hitems u (List.mem_cons_of_mem _ hu)) (v.sorted :: acc) false
      show List.foldlM _ _ (newline (level + 1) ++ dumpsAt (level + 1) v ++
        ',' :: itemLines ']' level ((w :: ws).map (dumpsAt (level + 1))) ++ rest) = _
      rw [List.append_assoc, List.append_assoc, foldlM_newline_value, List.cons_append, hv _ _ _ (.inr (.inl rfl)),
        List.foldlM_cons, hcomma]
      refine hrest.trans ?_
      rw [List.reverse_cons, List.append_assoc]
      rfl

theorem foldlM_fields {fields : List (Text × Json)} (hne : fields ≠ [])
    (hfields : ∀ p ∈ fields, ReadsBack limit (level + 1) n p.2) (hn : stack.length + 1 + n ≤ limit)
    (acc : List (Text × Json)) (hkeys : ((acc ++ fields).map Prod.fst).Nodup) (key : Text) (orEnd : Bool) (rest : Text) :
    (itemLines '}' level (fields.map fun p => stringText p.1 ++ ':' :: ' ' :: dumpsAt (level + 1) p.2) ++ rest).foldlM
        (readChar limit) ⟨.key orEnd, .obj acc key :: stack⟩ =
      rest.foldlM (readChar limit) ⟨.after (.obj (acc ++ fields.map fun p => (p.1, p.2.sorted))), stack⟩ := by
  induction fields generalizing acc key orEnd with
  | nil => exact absurd rfl hne
  | cons p ps ih =>
    obtain ⟨k, v⟩ := p
    have hv := fun orEnd c rest => hfields (k, v) List.mem_cons_self (.obj acc k :: stack) orEnd c rest hn
    have hnew : ∀ v, setField acc k v = acc ++ [(k, v)] := by
      intro v
      refine setField_of_not_mem v fun hk => ?_
      rw [List.map_append] at hkeys
      exact List.disjoint_of_nodup_append hkeys hk List.mem_cons_self
    -- the key, the colon and the blank
    have hfield : ∀ more : Text, (stringText k ++ ':' :: ' ' :: more).foldlM (readChar limit)
        ⟨.key orEnd, .obj acc key :: stack⟩ = more.foldlM (readChar limit) ⟨.value false, .obj acc k :: stack⟩ := by
      intro more
      rw [foldlM_key]
      rfl
    cases ps with
    | nil =>
      have hclose : readChar limit ⟨.after v.sorted, .obj acc k :: stack⟩ '}' =
          .ok ⟨.after (.obj (setField acc k v.sorted)), stack⟩ := rfl
      show List.foldlM _ _ (newline (level + 1) ++ (stringText k ++ ':' :: ' ' :: dumpsAt (level + 1) v) ++
        newline level ++ ['}'] ++ rest) = _
      rw [List.append_assoc, List.append_assoc, List.append_assoc, foldlM_newline_key, List.append_assoc,
        List.cons_append, List.cons_append, hfield, newline, List.cons_append, hv _ _ _ (.inl rfl),
        ← List.cons_append, ← newline, foldlM_newline_after, List.singleton_append, List.foldlM_cons, hclose, hnew]
      rfl
    | cons q qs =>
      have hcomma : readChar limit ⟨.after v.sorted, .obj acc k :: stack⟩ ',' =
          .ok ⟨.key false, .obj (setField acc k v.sorted) [] :: stack⟩ := rfl
      have hkeys' : (((acc ++ [(k, v.sorted)]) ++ q :: qs).map Prod.fst).Nodup := by
        rw [List.append_assoc, List.map_append]
        rw [List.map_append] at hkeys
        exact hkeys
      have hrest := ih (List.cons_ne_nil q qs) (fun u hu => hfields u (List.mem_cons_of_mem _ hu))
        (acc ++ [(k, v.sorted)]) hkeys' [] false
      show List.foldlM _ _ (newline (level + 1) ++ (stringText k ++ ':' :: ' ' :: dumpsAt (level + 1) v) ++
        ',' :: itemLines '}' level ((q :: qs).map fun p => stringText p.1 ++ ':' :: ' ' :: dumpsAt (level + 1) p.2) ++
          rest) = _
      rw [List.append_assoc, List.append_assoc, foldlM_newline_key, List.append_assoc, List.cons_append,
        List.cons_append, hfield, List.cons_append, hv _ _ _ (.inr (.inl rfl)), List.foldlM_cons, hcomma, hnew]
      refine hrest.trans ?_
      rw [List.append_assoc]
      rfl

theorem containerText_of_ne_nil {first close : Char} {ts : List Text} (h : ts ≠ []) :
    containerText first close level ts = first :: itemLines close level ts := by
  cases ts with
  | nil => exact absurd rfl h
  | cons t ts => rfl

/-- **Every value is read back.** -/
theorem readsBack (limit level : ℕ) {n : ℕ} {v : Json} (hv : Readable IsToken n v) : ReadsBack limit level n v := by
  induction n generalizing v level with
  | zero =>
    intro stack orEnd c rest hn hc
    cases v with
    | null => rfl
    | bool b => cases b <;> rfl
    | num r => exact foldlM_token orEnd hv hc rest
    | str t => exact foldlM_stringText orEnd t (c :: rest)
    | arr items => exact hv.elim
    | obj fields => exact hv.elim
  | succ n ih =>
    intro stack orEnd c rest hn hc
    have hroom : stack.length < limit := by omega
    have henter : ∀ frame reading, enter limit stack frame reading = .ok ⟨reading, frame :: stack⟩ := by
      intro frame reading
      rw [enter, if_neg (Nat.not_le.mpr hroom)]
    cases v with
    | null => rfl
    | bool b => cases b <;> rfl
    | num r => exact foldlM_token orEnd hv hc rest
    | str t => exact foldlM_stringText orEnd t (c :: rest)
    | arr items =>
      have hopen : readChar limit ⟨.value orEnd, stack⟩ '[' = .ok ⟨.value true, .arr [] :: stack⟩ := henter _ _
      rw [dumpsAt, itemTexts_eq, sorted, sortedItems_eq]
      by_cases hne : items = []
      · subst hne
        show List.foldlM _ _ ('[' :: ([']'] ++ c :: rest)) = _
        rw [List.foldlM_cons, hopen]
        rfl
      · have hitems : ∀ v ∈ items, ReadsBack limit (level + 1) n v := fun v hmem => ih (level + 1) (hv v hmem)
        have hne' : items.map (dumpsAt (level + 1)) ≠ [] := by simpa using hne
        rw [containerText_of_ne_nil hne', List.cons_append, List.foldlM_cons, hopen]
        exact foldlM_items hne hitems (by omega) [] true (c :: rest)
    | obj fields =>
      have hopen : readChar limit ⟨.value orEnd, stack⟩ '{' = .ok ⟨.key true, .obj [] [] :: stack⟩ := henter _ _
      rw [dumpsAt, fieldTexts_eq, sorted, sortedFields_eq, sortFields_map, sortFields_map, List.map_map]
      by_cases hne : fields = []
      · subst hne
        show List.foldlM _ _ ('{' :: (['}'] ++ c :: rest)) = _
        rw [List.foldlM_cons, hopen]
        rfl
      · have hperm := perm_sortFields fields
        have hfields : ∀ p ∈ sortFields fields, ReadsBack limit (level + 1) n p.2 :=
          fun p hp => ih (level + 1) (hv.2 p (hperm.mem_iff.mp hp))
        have hne' : sortFields fields ≠ [] := fun h => hne (List.Perm.eq_nil (h ▸ hperm.symm))
        have hkeys : ((sortFields fields).map Prod.fst).Nodup := (hperm.map Prod.fst).nodup_iff.mpr hv.1
        have htexts : (sortFields fields).map ((fun p : Text × Text => stringText p.1 ++ ':' :: ' ' :: p.2) ∘
            fun p : Text × Json => (p.1, dumpsAt (level + 1) p.2)) ≠ [] := by simpa using hne'
        rw [containerText_of_ne_nil htexts, List.cons_append, List.foldlM_cons, hopen]
        exact foldlM_fields hne' hfields (by omega) [] hkeys [] true (c :: rest)

end Reading

/-- **What has been written is read back**, with the line feed at the end. -/
theorem loads_dumps {limit : ℕ} {v : Json} (hv : Readable IsToken limit v) :
    loads limit (dumps v ++ ['\n']) = .ok v.sorted := by
  have hread := readsBack limit 0 hv [] false '\n' [] (by simp) (.inl rfl)
  have hhead : (dumps v ++ ['\n']).head? ≠ some '\ufeff' := by
    intro hhead
    cases htext : dumps v ++ ['\n'] with
    | nil =>
      rw [htext] at hhead
      cases hhead
    | cons d t =>
      rw [htext] at hhead
      obtain rfl : d = '\ufeff' := Option.some.inj hhead
      rw [show dumpsAt 0 v = dumps v from rfl, htext] at hread
      cases hread
  rw [loads, if_neg hhead]
  show ((dumpsAt 0 v ++ ['\n']).foldlM (readChar limit) ⟨.value false, []⟩).bind finish = _
  rw [hread]
  rfl

/-! ### The order of the fields -/

mutual

theorem dumpsAt_sorted (level : ℕ) : ∀ v : Json, dumpsAt level v.sorted = dumpsAt level v
  | .null => rfl
  | .bool _ => rfl
  | .num _ => rfl
  | .str _ => rfl
  | .arr items => by rw [sorted, dumpsAt, dumpsAt, itemTexts_sorted]
  | .obj fields => by
    have hfields := fieldTexts_sorted (level + 1) fields
    rw [fieldTexts_eq] at hfields
    rw [sorted, dumpsAt, dumpsAt, fieldTexts_eq, sortFields_map, sortFields_sortFields, ← sortFields_map, hfields]

theorem itemTexts_sorted (level : ℕ) : ∀ vs : List Json, itemTexts level (sortedItems vs) = itemTexts level vs
  | [] => rfl
  | v :: vs => by rw [sortedItems, itemTexts, itemTexts, dumpsAt_sorted, itemTexts_sorted]

theorem fieldTexts_sorted (level : ℕ) :
    ∀ fields : List (Text × Json), fieldTexts level (sortedFields fields) = fieldTexts level fields
  | [] => rfl
  | (k, v) :: fields => by rw [sortedFields, fieldTexts, fieldTexts, dumpsAt_sorted, fieldTexts_sorted]

end

mutual

theorem sorted_sorted : ∀ v : Json, v.sorted.sorted = v.sorted
  | .null => rfl
  | .bool _ => rfl
  | .num _ => rfl
  | .str _ => rfl
  | .arr items => by rw [sorted, sorted, sortedItems_sortedItems]
  | .obj fields => by
    have hfields := sortedFields_sortedFields fields
    rw [sortedFields_eq] at hfields
    rw [sorted, sorted, sortedFields_eq (sortFields _), ← sortFields_map, hfields, sortFields_sortFields]

theorem sortedItems_sortedItems : ∀ vs : List Json, sortedItems (sortedItems vs) = sortedItems vs
  | [] => rfl
  | v :: vs => by rw [sortedItems, sortedItems, sorted_sorted, sortedItems_sortedItems]

theorem sortedFields_sortedFields :
    ∀ fields : List (Text × Json), sortedFields (sortedFields fields) = sortedFields fields
  | [] => rfl
  | (k, v) :: fields => by rw [sortedFields, sortedFields, sorted_sorted, sortedFields_sortedFields]

end

/-- **The text does not depend on the order of the fields.** -/
theorem dumps_congr {v w : Json} (h : v.sorted = w.sorted) : dumps v = dumps w := by
  rw [dumps, dumps, ← dumpsAt_sorted 0 v, h, dumpsAt_sorted]

end Json

end Py
