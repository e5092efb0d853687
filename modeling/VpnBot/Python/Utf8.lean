import VpnBot.Python.Text

/-!
# Decoding UTF-8

`data.decode("utf-8", errors="replace")`.  The decoder looks at one byte after the other and remembers
what the character that it is in still needs.  A byte that does not continue the character, or the end of
the data, leaves one replacement character for what was read of it; a byte that does not continue it is then
read as a first byte.  ASCII is decoded to itself (`decodeUtf8_asciiBytes`), and a text has at most as many
characters as its data has bytes (`length_decodeUtf8_le`).
-/

namespace Py

/-- What a character still needs: the number of bytes, the bounds of the next one, the bits read so far. -/
structure PendingChar where
  needed : ℕ
  lower : ℕ
  upper : ℕ
  bits : ℕ

/-- What stands for bytes that are not UTF-8. -/
def replacementChar : Char := Char.ofNat 0xFFFD

/-- A first byte: a character of its own, the beginning of a longer one, or an error. -/
def firstByte (b : ℕ) : Text × Option PendingChar :=
  if b ≤ 0x7F then ([Char.ofNat b], none)
  else if 0xC2 ≤ b ∧ b ≤ 0xDF then ([], some ⟨1, 0x80, 0xBF, b - 0xC0⟩)
  -- The second byte is bounded where three or four bytes could spell a shorter or no character.
  else if b = 0xE0 then ([], some ⟨2, 0xA0, 0xBF, 0⟩)
  else if b = 0xED then ([], some ⟨2, 0x80, 0x9F, 0xD⟩)
  else if 0xE1 ≤ b ∧ b ≤ 0xEF then ([], some ⟨2, 0x80, 0xBF, b - 0xE0⟩)
  else if b = 0xF0 then ([], some ⟨3, 0x90, 0xBF, 0⟩)
  else if 0xF1 ≤ b ∧ b ≤ 0xF3 then ([], some ⟨3, 0x80, 0xBF, b - 0xF0⟩)
  else if b = 0xF4 then ([], some ⟨3, 0x80, 0x8F, 4⟩)
  else ([replacementChar], none)

/-- The next byte: the characters that it ends, and the character that it is in. -/
def nextByte : Option PendingChar → ℕ → Text × Option PendingChar
  | none, b => firstByte b
  | some p, b =>
    if p.lower ≤ b ∧ b ≤ p.upper then
      let bits := 64 * p.bits + (b - 0x80)
      if p.needed = 1 then ([Char.ofNat bits], none)
      else ([], some ⟨p.needed - 1, 0x80, 0xBF, bits⟩)
    else (replacementChar :: (firstByte b).1, (firstByte b).2)

/-- The decoder inside a character, or between two. -/
def decodeFrom : Option PendingChar → List UInt8 → Text
  | none, [] => []
  | some _, [] => [replacementChar]
  | p, b :: data => (nextByte p b.toNat).1 ++ decodeFrom (nextByte p b.toNat).2 data

/-- `data.decode("utf-8", errors="replace")`. -/
def decodeUtf8 (data : List UInt8) : Text := decodeFrom none data

def asciiBytes (t : Text) : List UInt8 := t.map fun c => UInt8.ofNat c.toNat

/-! ### The length of a text -/

/-- A replacement character may be owed for the character that the decoder is in. -/
def owed (p : Option PendingChar) : ℕ := if p.isSome then 1 else 0

theorem length_firstByte (b : ℕ) : (firstByte b).1.length + owed (firstByte b).2 = 1 := by
  unfold firstByte
  split_ifs <;> rfl

theorem length_nextByte_le (p : Option PendingChar) (b : ℕ) :
    (nextByte p b).1.length + owed (nextByte p b).2 ≤ 1 + owed p := by
  cases p with
  | none => exact (length_firstByte b).le
  | some p =>
    have hfirst := length_firstByte b
    simp only [nextByte]
    split_ifs
    · simp [owed]
    · simp [owed]
    · have howed : owed (some p) = 1 := rfl
      simp only [List.length_cons]
      omega

theorem length_decodeFrom_le (p : Option PendingChar) (data : List UInt8) :
    (decodeFrom p data).length ≤ data.length + owed p := by
  induction data generalizing p with
  | nil => cases p <;> simp [decodeFrom, owed]
  | cons b data ih =>
    have hstep := length_nextByte_le p b.toNat
    have hrest := ih (nextByte p b.toNat).2
    have hcons : decodeFrom p (b :: data) =
        (nextByte p b.toNat).1 ++ decodeFrom (nextByte p b.toNat).2 data := by
      cases p <;> rfl
    rw [hcons, List.length_append, List.length_cons]
    omega

/-- **A text has at most as many characters as its data has bytes.** -/
theorem length_decodeUtf8_le (data : List UInt8) : (decodeUtf8 data).length ≤ data.length :=
  length_decodeFrom_le none data

/-- **A part of the data** is decoded to a part of the text; a character that it cuts leaves a replacement
character. -/
theorem decodeFrom_take (p : Option PendingChar) (data : List UInt8) (n : ℕ) : ∃ k r,
    decodeFrom p (data.take n) = (decodeFrom p data).take k ++ r ∧ (r = [] ∨ r = [replacementChar]) := by
  induction data generalizing p n with
  | nil =>
    refine ⟨(decodeFrom p []).length, [], ?_, Or.inl rfl⟩
    rw [List.take_nil, List.take_length, List.append_nil]
  | cons b data ih =>
    have hcons : ∀ rest, decodeFrom p (b :: rest) =
        (nextByte p b.toNat).1 ++ decodeFrom (nextByte p b.toNat).2 rest := by
      intro rest
      cases p <;> rfl
    cases n with
    | zero =>
      refine ⟨0, decodeFrom p [], rfl, ?_⟩
      cases p with
      | none => exact Or.inl rfl
      | some p => exact Or.inr rfl
    | succ n =>
      obtain ⟨k, r, hrest, hr⟩ := ih (nextByte p b.toNat).2 n
      refine ⟨(nextByte p b.toNat).1.length + k, r, ?_, hr⟩
      rw [List.take_succ_cons, hcons, hcons, hrest, List.take_length_add_append, List.append_assoc]

/-! ### ASCII -/

theorem nextByte_ascii {c : Char} (hc : c.toNat < 128) :
    nextByte none (UInt8.ofNat c.toNat).toNat = ([c], none) := by
  have hbyte : (UInt8.ofNat c.toNat).toNat = c.toNat := by
    rw [UInt8.toNat_ofNat']
    omega
  have hchar : Char.ofNat c.toNat = c := Char.ofNat_toNat c
  rw [hbyte]
  show firstByte c.toNat = _
  rw [firstByte, if_pos (by omega), hchar]

/-- **ASCII is decoded to itself.** -/
theorem decodeUtf8_asciiBytes {t : Text} (ht : ∀ c ∈ t, c.toNat < 128) :
    decodeUtf8 (asciiBytes t) = t := by
  induction t with
  | nil => rfl
  | cons c t ih =>
    have hc := nextByte_ascii (ht c List.mem_cons_self)
    have hrest := ih fun d hd => ht d (List.mem_cons_of_mem _ hd)
    show (nextByte none _).1 ++ decodeFrom (nextByte none _).2 _ = _
    rw [hc]
    exact congrArg (c :: ·) hrest

@[simp] theorem length_asciiBytes (t : Text) : (asciiBytes t).length = t.length := List.length_map _

theorem take_asciiBytes (n : ℕ) (t : Text) : (asciiBytes t).take n = asciiBytes (t.take n) :=
  List.map_take.symm

end Py
