import VpnBot.Python.Basic
import VpnBot.Python.Dict
import VpnBot.Python.JsonDumps

/-!
# What `json.loads` reads

The decoder opens no more containers than it may, and gives no object a key twice (`readable_of_loads`), so that a
value that has been read can be written and read again.

The numbers of the decoder are texts; `read` makes of each the text that the encoder writes for it.  For an
integer that is the text without the sign of a zero, and what it is for a float is a parameter.
-/

namespace Py

variable {n : ℕ} {fields : List (Text × Json)}

namespace Json

/-! ### Fields -/

theorem mem_setField {k : Text} {v : Json} {p : Text × Json}
    (h : p ∈ setField fields k v) : p = (k, v) ∨ p ∈ fields := by
  induction fields with
  | nil => exact .inl (List.mem_singleton.mp h)
  | cons q fields ih =>
    rw [setField] at h
    split_ifs at h with hq
    · rcases List.mem_cons.mp h with h | h
      · exact .inl h
      · exact .inr (List.mem_cons_of_mem _ h)
    · rcases List.mem_cons.mp h with h | h
      · exact .inr (h ▸ List.mem_cons_self)
      · exact (ih h).imp id (List.mem_cons_of_mem _)

/-- No key comes twice. -/
theorem nodup_setField (h : (fields.map Prod.fst).Nodup) (k : Text) (v : Json) :
    ((setField fields k v).map Prod.fst).Nodup := by
  induction fields with
  | nil => exact List.nodup_singleton k
  | cons q fields ih =>
    rw [List.map_cons, List.nodup_cons] at h
    rw [setField]
    split_ifs with hq
    · rw [List.map_cons, ← hq]
      exact List.nodup_cons.mpr h
    · rw [List.map_cons, List.nodup_cons]
      refine ⟨fun hmem => ?_, ih h.2⟩
      obtain ⟨p, hp, hkey⟩ := List.mem_map.mp hmem
      rcases mem_setField hp with rfl | hp
      · exact hq hkey.symm
      · exact h.1 (hkey ▸ List.mem_map_of_mem hp)

/-! ### The decoder -/

/-- What is in an open container can be read inside `n` others. -/
def Frame.Fits (n : ℕ) : Frame → Prop
  | .arr items => ∀ v ∈ items, Readable IsToken n v
  | .obj fields _ => (fields.map Prod.fst).Nodup ∧ ∀ p ∈ fields, Readable IsToken n p.2

/-- No more containers are open than may be. -/
def StackFits (limit : ℕ) : List Frame → Prop
  | [] => True
  | frame :: stack => stack.length < limit ∧ frame.Fits (limit - (stack.length + 1)) ∧ StackFits limit stack

def Reading.Fits (limit : ℕ) (stack : List Frame) : Reading → Prop
  | .value orEnd => orEnd = true → stack ≠ []
  | .key orEnd => orEnd = true → stack ≠ []
  | .after v => Readable IsToken (limit - stack.length) v
  | .literal _ v => ∀ n, Readable IsToken n v
  | _ => True

def Decoder.Fits (limit : ℕ) (decoder : Decoder) : Prop :=
  StackFits limit decoder.stack ∧ decoder.reading.Fits limit decoder.stack

section Decoder

variable {limit : ℕ} {stack : List Frame} {decoder : Decoder} {c : Char}

theorem readChar_colon (key : Text) (c : Char) :
    readChar limit ⟨.colon key, stack⟩ c =
      if isJsonSpace c then .ok ⟨.colon key, stack⟩
      else if c = ':' then .ok ⟨.value false, setKey key stack⟩
      else .error .value := rfl

theorem readChar_literal (d : Char) (rest : Text) (v : Json) (c : Char) :
    readChar limit ⟨.literal (d :: rest) v, stack⟩ c =
      if c ≠ d then .error .value
      else .ok ⟨if rest.isEmpty then .after v else .literal rest v, stack⟩ := rfl

theorem sub_succ_of_lt (h : n < limit) : limit - n = limit - (n + 1) + 1 := by omega

theorem readable_arr (hn : n < limit) {items : List Json}
    (h : ∀ v ∈ items, Readable IsToken (limit - (n + 1)) v) : Readable IsToken (limit - n) (.arr items) := by
  rw [sub_succ_of_lt hn]
  exact h

theorem readable_obj (hn : n < limit) (hkeys : (fields.map Prod.fst).Nodup)
    (h : ∀ p ∈ fields, Readable IsToken (limit - (n + 1)) p.2) : Readable IsToken (limit - n) (.obj fields) := by
  rw [sub_succ_of_lt hn]
  exact ⟨hkeys, h⟩

theorem fits_afterValue {v : Json} (hstack : StackFits limit stack) (hv : Readable IsToken (limit - stack.length) v)
    (h : afterValue v stack c = .ok decoder) : decoder.Fits limit := by
  unfold afterValue at h
  by_cases hspace : isJsonSpace c = true
  · rw [if_pos hspace] at h
    obtain rfl := Except.ok.inj h
    exact ⟨hstack, hv⟩
  · rw [if_neg hspace] at h
    cases stack with
    | nil => cases h
    | cons frame stack =>
      obtain ⟨hroom, hframe, hrest⟩ := hstack
      cases frame with
      | arr items =>
        have hitems : ∀ w ∈ v :: items, Readable IsToken (limit - (stack.length + 1)) w := by
          intro w hw
          rcases List.mem_cons.mp hw with rfl | hw
          · exact hv
          · exact hframe w hw
        dsimp only at h
        split_ifs at h with hcomma hclose
        · obtain rfl := Except.ok.inj h
          exact ⟨⟨hroom, hitems, hrest⟩, fun h => absurd h Bool.false_ne_true⟩
        · obtain rfl := Except.ok.inj h
          exact ⟨hrest, readable_arr hroom fun w hw => hitems w (List.mem_reverse.mp hw)⟩
      | obj fields key =>
        have hkeys := nodup_setField hframe.1 key v
        have hfields : ∀ p ∈ setField fields key v, Readable IsToken (limit - (stack.length + 1)) p.2 := by
          intro p hp
          rcases mem_setField hp with rfl | hp
          · exact hv
          · exact hframe.2 p hp
        dsimp only at h
        split_ifs at h with hcomma hclose
        · obtain rfl := Except.ok.inj h
          exact ⟨⟨hroom, ⟨hkeys, hfields⟩, hrest⟩, fun h => absurd h Bool.false_ne_true⟩
        · obtain rfl := Except.ok.inj h
          exact ⟨hrest, readable_obj hroom hkeys hfields⟩

theorem fits_enter {frame : Frame} {reading : Reading} (hstack : StackFits limit stack)
    (hframe : ∀ n, frame.Fits n) (hreading : reading.Fits limit (frame :: stack))
    (h : enter limit stack frame reading = .ok decoder) : decoder.Fits limit := by
  unfold enter at h
  split_ifs at h with hroom
  obtain rfl := Except.ok.inj h
  exact ⟨⟨Nat.not_le.mp hroom, hframe _, hstack⟩, hreading⟩

theorem fits_startValue (hstack : StackFits limit stack) (h : startValue limit stack c = .ok decoder) :
    decoder.Fits limit := by
  have hnumber : ∀ {n : ℕ} {r : Text}, r ∈ ["NaN".toList, "Infinity".toList, "-Infinity".toList] →
      Readable IsToken n (.num r) := by
    intro n r hr
    cases n <;> exact Or.inr hr
  have hatom : ∀ (n : ℕ) (b : Bool), Readable IsToken n .null ∧ Readable IsToken n (.bool b) := by
    intro n b
    cases n <;> exact ⟨trivial, trivial⟩
  have hobj : ∀ n, (Frame.obj [] []).Fits n := fun _ => ⟨List.nodup_nil, List.forall_mem_nil _⟩
  have harr : ∀ n, (Frame.arr []).Fits n := fun _ => List.forall_mem_nil _
  unfold startValue at h
  split_ifs at h
  · obtain rfl := Except.ok.inj h
    exact ⟨hstack, trivial⟩
  · have hreading : (Reading.key true).Fits limit (.obj [] [] :: stack) := fun _ => List.cons_ne_nil _ _
    exact fits_enter hstack hobj hreading h
  · have hreading : (Reading.value true).Fits limit (.arr [] :: stack) := fun _ => List.cons_ne_nil _ _
    exact fits_enter hstack harr hreading h
  · obtain rfl := Except.ok.inj h
    exact ⟨hstack, fun n => (hatom n true).1⟩
  · obtain rfl := Except.ok.inj h
    exact ⟨hstack, fun n => (hatom n true).2⟩
  · obtain rfl := Except.ok.inj h
    exact ⟨hstack, fun n => (hatom n false).2⟩
  · obtain rfl := Except.ok.inj h
    exact ⟨hstack, fun _ => hnumber (by decide)⟩
  · obtain rfl := Except.ok.inj h
    exact ⟨hstack, fun _ => hnumber (by decide)⟩
  · obtain rfl := Except.ok.inj h
    exact ⟨hstack, trivial⟩

theorem setKey_fits (hstack : StackFits limit stack) (key : Text) : StackFits limit (setKey key stack) := by
  cases stack with
  | nil => exact trivial
  | cons frame stack =>
    cases frame with
    | arr items => exact hstack
    | obj fields key' => exact hstack

theorem readable_of_numberOf {r : Text} {v : Json} (h : numberOf r = .ok v) (n : ℕ) : Readable IsToken n v := by
  obtain rfl := (exists_of_numberOf h).1
  cases n <;> exact Or.inl h

/-- The end of an empty container. -/
theorem fits_tail {v : Json} (hstack : StackFits limit stack) (hne : stack ≠ [])
    (hv : ∀ n, Readable IsToken (n + 1) v) : Decoder.Fits limit ⟨.after v, stack.tail⟩ := by
  cases stack with
  | nil => exact absurd rfl hne
  | cons frame stack =>
    refine ⟨hstack.2.2, ?_⟩
    show Readable IsToken (limit - stack.length) v
    rw [sub_succ_of_lt hstack.1]
    exact hv _

/-- **One character.** -/
theorem fits_readChar {before : Decoder} (hfits : before.Fits limit) (h : readChar limit before c = .ok decoder) :
    decoder.Fits limit := by
  obtain ⟨reading, stack⟩ := before
  obtain ⟨hstack, hreading⟩ := hfits
  -- inside a string the stack does not move
  have hstring : ∀ {r : Except LoadsError Reading}, (∀ x, r = .ok x → x.Fits limit stack) →
      (r.map fun x => (⟨x, stack⟩ : Decoder)) = .ok decoder → decoder.Fits limit := by
    intro r hr h
    cases r with
    | error e => cases h
    | ok x =>
      obtain rfl := Except.ok.inj h
      exact ⟨hstack, hr x rfl⟩
  cases reading with
  | value orEnd =>
    rw [readChar_value] at h
    split_ifs at h with hspace hend
    · obtain rfl := Except.ok.inj h
      exact ⟨hstack, hreading⟩
    · obtain rfl := Except.ok.inj h
      exact fits_tail hstack (hreading hend.2) fun _ => List.forall_mem_nil _
    · exact fits_startValue hstack h
  | key orEnd =>
    rw [readChar_key] at h
    split_ifs at h with hspace hend hquote
    · obtain rfl := Except.ok.inj h
      exact ⟨hstack, hreading⟩
    · obtain rfl := Except.ok.inj h
      exact fits_tail hstack (hreading hend.2) fun _ => ⟨List.nodup_nil, List.forall_mem_nil _⟩
    · obtain rfl := Except.ok.inj h
      exact ⟨hstack, trivial⟩
  | colon key =>
    rw [readChar_colon] at h
    split_ifs at h with hspace hcolon
    · obtain rfl := Except.ok.inj h
      exact ⟨hstack, trivial⟩
    · obtain rfl := Except.ok.inj h
      exact ⟨setKey_fits hstack key, fun h => absurd h Bool.false_ne_true⟩
  | after v => exact fits_afterValue hstack hreading h
  | str isKey rev high =>
    refine hstring (fun x hx => ?_) h
    unfold readString at hx
    split_ifs at hx
    · obtain rfl := Except.ok.inj hx
      cases isKey with
      | true => exact trivial
      | false =>
        show Readable IsToken (limit - stack.length) (.str _)
        cases limit - stack.length <;> exact trivial
    · obtain rfl := Except.ok.inj hx
      exact trivial
    · obtain rfl := Except.ok.inj hx
      exact trivial
  | escape isKey rev high =>
    refine hstring (fun x hx => ?_) h
    unfold readEscape at hx
    split_ifs at hx
    · obtain rfl := Except.ok.inj hx
      exact trivial
    · cases hescaped : escaped c with
      | none =>
        rw [hescaped] at hx
        cases hx
      | some e =>
        rw [hescaped] at hx
        obtain rfl := Except.ok.inj hx
        exact trivial
  | hex isKey rev high digits =>
    refine hstring (fun x hx => ?_) h
    unfold readHex at hx
    split at hx
    · cases hx
    · split at hx
      · obtain rfl := Except.ok.inj hx
        exact trivial
      · obtain rfl := Except.ok.inj hx
        exact trivial
  | literal rest v =>
    cases rest with
    | nil => exact fits_afterValue hstack (hreading _) h
    | cons d rest =>
      rw [readChar_literal] at h
      split_ifs at h with hne hempty
      · obtain rfl := Except.ok.inj h
        exact ⟨hstack, hreading _⟩
      · obtain rfl := Except.ok.inj h
        exact ⟨hstack, hreading⟩
  | number rev =>
    rw [readChar_number] at h
    split_ifs at h with hminus hchar
    · obtain rfl := Except.ok.inj h
      refine ⟨hstack, fun n => ?_⟩
      cases n <;> exact Or.inr (by decide)
    · obtain rfl := Except.ok.inj h
      exact ⟨hstack, trivial⟩
    · cases hnumber : numberOf rev.reverse with
      | error e =>
        rw [hnumber] at h
        cases h
      | ok v =>
        rw [hnumber] at h
        exact fits_afterValue hstack (readable_of_numberOf hnumber _) h

end Decoder

/-- **What is read can be read again.** -/
theorem readable_of_loads {limit : ℕ} {t : Text} {v : Json} (h : loads limit t = .ok v) :
    Readable IsToken limit v := by
  have hrun : ∀ (t : Text) (before after : Decoder), before.Fits limit →
      t.foldlM (readChar limit) before = .ok after → after.Fits limit := by
    intro t
    induction t with
    | nil =>
      intro before after hbefore h
      obtain rfl := Except.ok.inj h
      exact hbefore
    | cons c t ih =>
      intro before after hbefore h
      rw [List.foldlM_cons] at h
      obtain ⟨next, hnext, h⟩ := bind_eq_ok.mp h
      exact ih next after (fits_readChar hbefore hnext) h
  unfold loads at h
  split_ifs at h with hmark
  obtain ⟨decoder, hdecoder, h⟩ := bind_eq_ok.mp h
  have hstart : Decoder.Fits limit ⟨.value false, []⟩ := ⟨trivial, fun h => absurd h Bool.false_ne_true⟩
  obtain ⟨-, hreading⟩ := hrun t _ decoder hstart hdecoder
  obtain ⟨reading, stack⟩ := decoder
  unfold finish at h
  split at h
  · rename_i w hafter hempty
    obtain rfl := Except.ok.inj h
    obtain rfl : stack = [] := hempty
    obtain rfl : reading = .after w := hafter
    exact hreading
  · exact readable_of_numberOf h limit
  · cases h

/-! ### Numbers -/

/-- The text is one of an integer. -/
def isIntToken (r : Text) : Bool := isJsonInt (if r.head? = some '-' then r.tail else r)

/-- What the encoder writes for the floats: a number that reads as the same float. -/
structure FloatRepr where
  repr : Text → Text
  token : ∀ r, IsToken r → IsToken (repr r)
  float : ∀ r, isIntToken (repr r) = false
  again : ∀ r, repr (repr r) = repr r

/-- What the encoder writes for a number. -/
def numberText (f : FloatRepr) (r : Text) : Text :=
  if r = ['-', '0'] then ['0'] else if isIntToken r then r else f.repr r

mutual

/-- The value with the texts of its numbers changed. -/
def mapNumbers (g : Text → Text) : Json → Json
  | .num r => .num (g r)
  | .arr items => .arr (mapItems g items)
  | .obj fields => .obj (mapFields g fields)
  | v => v

/-- `mapNumbers` for some items. -/
def mapItems (g : Text → Text) : List Json → List Json
  | [] => []
  | v :: vs => mapNumbers g v :: mapItems g vs

/-- `mapNumbers` for some fields. -/
def mapFields (g : Text → Text) : List (Text × Json) → List (Text × Json)
  | [] => []
  | (k, v) :: fields => (k, mapNumbers g v) :: mapFields g fields

end

theorem mapItems_eq (g : Text → Text) (vs : List Json) : mapItems g vs = vs.map (mapNumbers g) := by
  induction vs with
  | nil => rfl
  | cons v vs ih => rw [mapItems, ih, List.map_cons]

theorem mapFields_eq (g : Text → Text) (fields : List (Text × Json)) :
    mapFields g fields = fields.map fun p => (p.1, mapNumbers g p.2) := by
  induction fields with
  | nil => rfl
  | cons p fields ih => rw [mapFields, ih, List.map_cons]

/-- The text of a number as the encoder writes it. -/
def IsWritten (f : FloatRepr) (r : Text) : Prop := IsToken r ∧ numberText f r = r

theorem isWritten_numberText (f : FloatRepr) {r : Text} (h : IsToken r) : IsWritten f (numberText f r) := by
  unfold numberText
  split_ifs with hzero hint
  · exact ⟨.inl rfl, rfl⟩
  · refine ⟨h, ?_⟩
    rw [numberText, if_neg hzero, if_pos hint]
  · have hfloat := f.float r
    have hzero' : f.repr r ≠ ['-', '0'] := by
      intro h
      rw [h] at hfloat
      cases hfloat
    refine ⟨f.token r h, ?_⟩
    rw [numberText, if_neg hzero', hfloat, if_neg Bool.false_ne_true, f.again]

theorem readable_mapNumbers {p q : Text → Prop} {g : Text → Text} (hg : ∀ r, p r → q (g r))
    {v : Json} (h : Readable p n v) : Readable q n (mapNumbers g v) := by
  induction n generalizing v with
  | zero =>
    cases v with
    | num r => exact hg r h
    | arr items => exact h
    | obj fields => exact h
    | _ => trivial
  | succ n ih =>
    cases v with
    | num r => exact hg r h
    | arr items =>
      rw [mapNumbers, mapItems_eq]
      intro w hw
      obtain ⟨v, hv, rfl⟩ := List.mem_map.mp hw
      exact ih (h v hv)
    | obj fields =>
      rw [mapNumbers, mapFields_eq]
      refine ⟨by rw [List.map_map]; exact h.1, fun w hw => ?_⟩
      obtain ⟨v, hv, rfl⟩ := List.mem_map.mp hw
      exact ih (h.2 v hv)
    | _ => trivial

theorem mapNumbers_of_readable {p : Text → Prop} {g : Text → Text} (hg : ∀ r, p r → g r = r)
    {v : Json} (h : Readable p n v) : mapNumbers g v = v := by
  induction n generalizing v with
  | zero =>
    cases v with
    | num r => exact congrArg Json.num (hg r h)
    | arr items => exact h.elim
    | obj fields => exact h.elim
    | _ => rfl
  | succ n ih =>
    cases v with
    | num r => exact congrArg Json.num (hg r h)
    | arr items =>
      rw [mapNumbers, mapItems_eq]
      exact congrArg Json.arr ((List.map_congr_left fun v hv => ih (h v hv)).trans (List.map_id items))
    | obj fields =>
      rw [mapNumbers, mapFields_eq]
      have hfields : ∀ q ∈ fields, (q.1, mapNumbers g q.2) = q := fun q hq => Prod.ext rfl (ih (h.2 q hq))
      exact congrArg Json.obj ((List.map_congr_left hfields).trans (List.map_id fields))
    | _ => rfl

theorem readable_sorted {p : Text → Prop} {v : Json} (h : Readable p n v) : Readable p n v.sorted := by
  induction n generalizing v with
  | zero =>
    cases v with
    | arr items => exact h.elim
    | obj fields => exact h.elim
    | _ => exact h
  | succ n ih =>
    cases v with
    | arr items =>
      rw [sorted, sortedItems_eq]
      intro w hw
      obtain ⟨v, hv, rfl⟩ := List.mem_map.mp hw
      exact ih (h v hv)
    | obj fields =>
      have hperm := perm_sortFields (fields.map fun q => (q.1, q.2.sorted))
      rw [sorted, sortedFields_eq]
      refine ⟨(hperm.map Prod.fst).nodup_iff.mpr (by rw [List.map_map]; exact h.1), fun w hw => ?_⟩
      obtain ⟨v, hv, rfl⟩ := List.mem_map.mp (hperm.mem_iff.mp hw)
      exact ih (h.2 v hv)
    | _ => exact h

/-! ### Reading and writing -/

/-- `json.loads`, a number with the text that is written for it. -/
def read (limit : ℕ) (f : FloatRepr) (t : Text) : Except LoadsError Json :=
  (loads limit t).map (mapNumbers (numberText f))

variable {limit : ℕ} {f : FloatRepr} {v : Json}

/-- A document as it is after reading. -/
abbrev Read (limit : ℕ) (f : FloatRepr) (v : Json) : Prop := Readable (IsWritten f) limit v

theorem read_of_read {t : Text} (h : read limit f t = .ok v) : Read limit f v := by
  unfold read at h
  cases hloads : loads limit t with
  | error e =>
    rw [hloads] at h
    cases h
  | ok w =>
    rw [hloads] at h
    obtain rfl := Except.ok.inj h
    exact readable_mapNumbers (fun _ => isWritten_numberText f) (readable_of_loads hloads)

/-- **What has been written is read back** with its fields in order. -/
theorem read_dumps (h : Read limit f v) : read limit f (dumps v ++ ['\n']) = .ok v.sorted := by
  rw [read, loads_dumps (h.mono fun _ hr => hr.1)]
  exact congrArg Except.ok (mapNumbers_of_readable (fun _ hr => hr.2) (readable_sorted h))

/-! ### Fields in order -/

theorem field?_obj (h : (fields.map Prod.fst).Nodup) (k : Text) :
    (Json.obj fields).field? k = (⟨fields, h⟩ : Dict Text Json).get? k := rfl

theorem field?_sorted {p : Text → Prop} (h : Readable p n v) (k : Text) :
    v.sorted.field? k = (v.field? k).map sorted := by
  cases v with
  | obj fields =>
    have hkeys : (fields.map Prod.fst).Nodup := by
      cases n with
      | zero => exact h.elim
      | succ n => exact h.1
    have hperm := perm_sortFields (fields.map fun q => (q.1, q.2.sorted))
    have hkeys' : ((sortFields (fields.map fun q => (q.1, q.2.sorted))).map Prod.fst).Nodup :=
      (hperm.map Prod.fst).nodup_iff.mpr (by rw [List.map_map]; exact hkeys)
    rw [sorted, sortedFields_eq, field?_obj hkeys', field?_obj hkeys]
    refine Option.ext fun w => ?_
    rw [Dict.get?_eq_some_iff, Option.map_eq_some_iff]
    show (k, w) ∈ sortFields _ ↔ _
    rw [hperm.mem_iff, List.mem_map]
    constructor
    · rintro ⟨q, hq, heq⟩
      obtain ⟨rfl, rfl⟩ := Prod.mk.inj heq
      exact ⟨q.2, Dict.get?_eq_some_iff.mpr hq, rfl⟩
    · rintro ⟨u, hu, rfl⟩
      exact ⟨(k, u), Dict.get?_eq_some_iff.mp hu, rfl⟩
  | _ => rfl

theorem field_sorted {p : Text → Prop} (h : Readable p n v) (k : Text) :
    v.sorted.field k = (v.field k).sorted := by
  rw [field, field, field?_sorted h]
  cases v.field? k <;> rfl

end Json

end Py
