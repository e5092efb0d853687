import VpnBot.MtProxy.Store
import VpnBot.Warp.RestorePath
import Mathlib.Data.List.ReduceOption

/-!
# The store is read back

What `_store_document` writes is read back from the file as the list in order with one secret for each fingerprint,
from both lists (`readsBack_writeManagedSecrets`).  Among the secrets of the runtime, one whose fingerprint is the
name of the placeholder is lost.
-/

namespace VpnBot.MtProxy

open Py Json

variable {p : Interpreter} {n : ℤ}

/-! ### Integers in documents -/

theorem isJsonInt_natText (n : ℕ) : isJsonInt (natText n) = true := by
  have hdigits := isDecimal_natText n
  rw [isDecimal, Bool.and_eq_true] at hdigits
  rw [isJsonInt, hdigits.1, hdigits.2]
  by_cases hzero : natText n = ['0']
  · simp [hzero]
  · have hhead : (natText n).head? ≠ some '0' := fun hhead => hzero (natText_eq_of_head hhead)
    simp [hhead]

/-- An integer without its sign. -/
theorem unsigned_intText (n : ℤ) :
    (if (intText n).head? = some '-' then (intText n).tail else intText n) = natText n.natAbs := by
  cases n with
  | negSucc m => rfl
  | ofNat m =>
    have hhead : (natText m).head? ≠ some '-' := by
      intro hhead
      exact absurd (List.mem_of_mem_head? hhead) (not_mem_natText rfl m)
    show (if (natText m).head? = some '-' then (natText m).tail else natText m) = natText m
    rw [if_neg hhead]

theorem isIntToken_intText (n : ℤ) : isIntToken (intText n) = true := by
  rw [isIntToken, unsigned_intText, isJsonInt_natText]

theorem isToken_intText (h : Short n) : IsToken (intText n) := by
  have hdigits : ∀ c ∈ natText n.natAbs, c.isDigit = true := fun c hc => isDigit_of_mem_natText hc
  have hspan : spanDigits (natText n.natAbs) = (natText n.natAbs, []) := by
    rw [spanDigits, List.takeWhile_eq_self_iff.2 hdigits, List.dropWhile_eq_nil_iff.2 hdigits]
  have hlength : ¬maxStrDigits < (natText n.natAbs).length := by
    rw [not_lt, length_natText_le_iff (by decide)]
    exact h
  left
  rw [numberOf, unsigned_intText, hspan]
  simp [isJsonInt_natText, hlength, isFraction, isExponent]

theorem isWritten_intText (f : FloatRepr) (h : Short n) : IsWritten f (intText n) := by
  refine ⟨isToken_intText h, ?_⟩
  have hzero : intText n ≠ ['-', '0'] := by
    intro heq
    cases n with
    | ofNat m =>
      have hmem : '-' ∈ natText m := (show natText m = ['-', '0'] from heq) ▸ List.mem_cons_self
      exact absurd hmem (not_mem_natText rfl m)
    | negSucc m =>
      have htail : natText (m + 1) = natText 0 := (List.cons.inj heq).2
      exact Nat.succ_ne_zero m (natText_injective htail)
  rw [numberText, if_neg hzero, if_pos (isIntToken_intText n)]

theorem parseInt_intText_eq (n : ℤ) : parseInt (intText n) = if n.natAbs < 10 ^ maxStrDigits then some n else none := by
  cases n with
  | ofNat m =>
    show parseInt (natText m) = if m < 10 ^ maxStrDigits then some (m : ℤ) else none
    split_ifs with h
    · exact parseInt_natText h
    · exact parseInt_natText_of_le (not_lt.1 h)
  | negSucc m =>
    have hstrip : strip ('-' :: natText (m + 1)) = '-' :: natText (m + 1) := by
      refine strip_eq_self fun c hc => ?_
      rcases List.mem_cons.1 hc with rfl | hc
      · decide
      · exact isSpace_of_mem_natText hc
    show parseInt ('-' :: natText (m + 1)) = if m + 1 < 10 ^ maxStrDigits then _ else _
    rw [parseInt, hstrip]
    simp only [parseDigits_natText (m + 1)]
    split_ifs <;> rfl

theorem parseInt_intText (h : Short n) : parseInt (intText n) = some n :=
  (parseInt_intText_eq n).trans (if_pos h)

theorem int_number (h : Short n) : p.int (number n) = .ok n := by
  rw [number, Interpreter.int, if_pos (isIntToken_intText n), intOfText, parseInt_intText h]

theorem optionalInt_number (h : Short n) : optionalInt p (number n) = .ok (some n) := by
  have hint := int_number (p := p) h
  rw [number] at hint ⊢
  rw [optionalInt, hint]
  intro hnull
  cases hnull

/-! ### Integers that are read -/

theorem digitValue_lt {c : Char} {d : ℕ} (h : digitValue c = some d) : d < 10 := by
  obtain ⟨z, hz, rfl⟩ := Option.map_eq_some_iff.1 h
  have hrange := List.find?_some hz
  rw [Bool.and_eq_true, decide_eq_true_eq, decide_eq_true_eq] at hrange
  omega

theorem foldl_digits_lt (digits : List ℕ) (hdigits : ∀ d ∈ digits, d < 10) (n : ℕ) :
    digits.foldl (fun n d => 10 * n + d) n < (n + 1) * 10 ^ digits.length := by
  induction digits generalizing n with
  | nil => simp
  | cons d digits ih =>
    have hd := hdigits d List.mem_cons_self
    have hrest := ih (fun e he => hdigits e (List.mem_cons_of_mem _ he)) (10 * n + d)
    rw [List.foldl_cons, List.length_cons, pow_succ']
    calc digits.foldl (fun n d => 10 * n + d) (10 * n + d)
        < (10 * n + d + 1) * 10 ^ digits.length := hrest
      _ ≤ (10 * (n + 1)) * 10 ^ digits.length := Nat.mul_le_mul_right _ (by omega)
      _ = (n + 1) * (10 * 10 ^ digits.length) := by ring

theorem digits_of_mapM {t : Text} {digits : List ℕ} (h : t.mapM digitValue = some digits) :
    digits.length = t.length ∧ ∀ d ∈ digits, d < 10 := by
  induction t generalizing digits with
  | nil =>
    obtain rfl := Option.some.inj h
    exact ⟨rfl, by simp⟩
  | cons c t ih =>
    rw [List.mapM_cons] at h
    cases hc : digitValue c with
    | none =>
      rw [hc] at h
      cases h
    | some d =>
      cases ht : t.mapM digitValue with
      | none =>
        rw [hc, ht] at h
        cases h
      | some ds =>
        rw [hc, ht] at h
        obtain rfl := Option.some.inj h
        obtain ⟨hlength, hten⟩ := ih ht
        exact ⟨congrArg Nat.succ hlength, List.forall_mem_cons.2 ⟨digitValue_lt hc, hten⟩⟩

theorem lt_of_parseDigits {t : Text} {n : ℕ} (h : parseDigits t = some n) : n < 10 ^ maxStrDigits := by
  unfold parseDigits at h
  dsimp only at h
  split_ifs at h with hform
  rw [Bool.or_eq_true, not_or, decide_eq_true_eq, not_lt] at hform
  obtain ⟨digits, hdigits, rfl⟩ := Option.map_eq_some_iff.1 h
  obtain ⟨hlength, hten⟩ := digits_of_mapM hdigits
  have hvalue := foldl_digits_lt digits hten 0
  rw [Nat.zero_add, Nat.one_mul, hlength] at hvalue
  exact lt_of_lt_of_le hvalue (Nat.pow_le_pow_right (by decide) hform.2)

theorem short_of_parseInt {t : Text} (h : parseInt t = some n) : Short n := by
  have hdigits : ∀ {u : Text} {m : ℤ}, (do let a ← parseDigits u; pure (a : ℤ) : Option ℤ) = some m →
      Short m ∧ Short (-m) := by
    intro u m hm
    obtain ⟨k, hk, heq⟩ := Option.bind_eq_some_iff.1 hm
    obtain rfl := Option.some.inj heq
    have hlt := lt_of_parseDigits hk
    exact ⟨hlt, by rw [Short, Int.natAbs_neg]; exact hlt⟩
  unfold parseInt at h
  split at h
  · obtain ⟨m, hm, rfl⟩ := Option.map_eq_some_iff.1 h
    exact (hdigits hm).2
  · obtain ⟨m, hm, rfl⟩ := Option.map_eq_some_iff.1 h
    exact (hdigits hm).1
  · obtain ⟨m, hm, rfl⟩ := Option.map_eq_some_iff.1 h
    exact (hdigits hm).1

theorem short_of_int {v : Json} (h : p.int v = .ok n) : Short n := by
  have htext : ∀ {t : Text}, intOfText t = .ok n → Short n := by
    intro t ht
    unfold intOfText at ht
    cases hparse : parseInt t with
    | none =>
      rw [hparse] at ht
      cases ht
    | some m =>
      rw [hparse] at ht
      obtain rfl := Except.ok.inj ht
      exact short_of_parseInt hparse
  cases v with
  | bool b =>
    obtain rfl := Except.ok.inj h
    cases b <;> norm_num [Short, maxStrDigits]
  | num r =>
    rw [Interpreter.int] at h
    split_ifs at h
    · exact htext h
    · obtain rfl := Except.ok.inj h
      exact p.truncate_short r
  | str t => exact htext h
  | _ => cases h

theorem short_generationOf {document : Json} (h : generationOf p document = .ok n) : Short n := by
  unfold generationOf at h
  dsimp only at h
  split_ifs at h
  · obtain rfl := Except.ok.inj h
    norm_num [Short, maxStrDigits]
  · cases hint : p.int (document.field "generation".toList) with
    | ok m =>
      rw [hint] at h
      obtain rfl := Except.ok.inj h
      exact short_of_int hint
    | error e =>
      rw [hint] at h
      cases e <;> cases h

/-! ### One secret for each fingerprint -/

/-- The elements whose key has not been seen, the first of every key. -/
def distinctBy {α κ : Type} [DecidableEq κ] (key : α → κ) (seen : List κ) : List α → List α
  | [] => []
  | a :: l => if key a ∈ seen then distinctBy key seen l else a :: distinctBy key (key a :: seen) l

section Distinct

variable {α κ : Type} [DecidableEq κ] {key : α → κ} {seen : List κ} {l : List α}

theorem distinctBy_sublist : (distinctBy key seen l).Sublist l := by
  induction l generalizing seen with
  | nil => exact List.Sublist.slnil
  | cons a l ih =>
    rw [distinctBy]
    split_ifs
    · exact ih.cons a
    · exact ih.cons_cons a

theorem nodup_distinctBy : ((distinctBy key seen l).map key).Nodup ∧ ∀ a ∈ distinctBy key seen l, key a ∉ seen := by
  induction l generalizing seen with
  | nil => exact ⟨List.nodup_nil, fun a ha => by cases ha⟩
  | cons a l ih =>
    rw [distinctBy]
    split_ifs with hseen
    · exact ih
    · obtain ⟨hnodup, hfresh⟩ := @ih (key a :: seen)
      refine ⟨?_, fun b hb => ?_⟩
      · rw [List.map_cons, List.nodup_cons]
        refine ⟨fun hmem => ?_, hnodup⟩
        obtain ⟨b, hb, heq⟩ := List.mem_map.1 hmem
        exact hfresh b hb (heq ▸ List.mem_cons_self)
      · rcases List.mem_cons.1 hb with rfl | hb
        · exact hseen
        · exact fun hmem => hfresh b hb (List.mem_cons_of_mem _ hmem)

theorem distinctBy_eq_self (hnodup : (l.map key).Nodup) (hfresh : ∀ a ∈ l, key a ∉ seen) :
    distinctBy key seen l = l := by
  induction l generalizing seen with
  | nil => rfl
  | cons a l ih =>
    rw [List.map_cons, List.nodup_cons] at hnodup
    rw [distinctBy, if_neg (hfresh a List.mem_cons_self), ih hnodup.2]
    intro b hb hmem
    rcases List.mem_cons.1 hmem with heq | hmem
    · exact hnodup.1 (heq ▸ List.mem_map_of_mem hb)
    · exact hfresh b (List.mem_cons_of_mem _ hb) hmem

end Distinct

/-! ### The list in order -/

variable {secrets items normalized : List ManagedSecret} {item : ManagedSecret}

theorem normalizeLoop_eq_ok {seen : List Text} : normalizeLoop seen items = .ok normalized ↔
    (∀ item ∈ items, validateSecret item.secret = .ok ()) ∧
      normalized = distinctBy ManagedSecret.fingerprint seen items := by
  induction items generalizing seen normalized with
  | nil =>
    rw [normalizeLoop, Except.ok.injEq, eq_comm]
    exact (and_iff_right fun item hitem => by cases hitem).symm
  | cons item items ih =>
    rw [normalizeLoop, distinctBy, bind_eq_ok, List.forall_mem_cons]
    constructor
    · rintro ⟨_, hvalid, h⟩
      split_ifs at h ⊢ with hseen
      · obtain ⟨hall, heq⟩ := ih.1 h
        exact ⟨⟨hvalid, hall⟩, heq⟩
      · obtain ⟨rest, hrest, h⟩ := bind_eq_ok.1 h
        obtain ⟨hall, rfl⟩ := ih.1 hrest
        exact ⟨⟨hvalid, hall⟩, (Except.ok.inj h).symm⟩
    · rintro ⟨⟨hvalid, hall⟩, heq⟩
      refine ⟨(), hvalid, ?_⟩
      split_ifs at heq ⊢ with hseen
      · exact ih.2 ⟨hall, heq⟩
      · exact bind_eq_ok.2 ⟨_, ih.2 ⟨hall, rfl⟩, congrArg Except.ok heq.symm⟩

theorem normalizeSecrets_eq_ok : normalizeSecrets secrets = .ok normalized ↔
    (∀ item ∈ secrets, validateSecret item.secret = .ok ()) ∧
      normalized = distinctBy ManagedSecret.fingerprint [] (sortedBy ManagedSecret.key secrets) := by
  rw [normalizeSecrets, normalizeLoop_eq_ok]
  simp only [mem_sortedBy]

/-- In order, one secret for each fingerprint, and every secret passes its check. -/
structure Normalized (secrets : List ManagedSecret) : Prop where
  valid : ∀ item ∈ secrets, validateSecret item.secret = .ok ()
  nodup : (secrets.map ManagedSecret.fingerprint).Nodup
  ordered : secrets.Pairwise fun a b => a.key ≤ b.key

theorem normalized_of_normalizeSecrets (h : normalizeSecrets secrets = .ok normalized) :
    Normalized normalized ∧ ∀ item ∈ normalized, item ∈ secrets := by
  obtain ⟨hvalid, rfl⟩ := normalizeSecrets_eq_ok.1 h
  have hmem : ∀ item ∈ distinctBy ManagedSecret.fingerprint [] (sortedBy ManagedSecret.key secrets), item ∈ secrets :=
    fun item hitem => mem_sortedBy.1 (distinctBy_sublist.subset hitem)
  refine ⟨⟨fun item hitem => hvalid item (hmem item hitem), nodup_distinctBy.1, ?_⟩, hmem⟩
  exact (pairwise_sortedBy ManagedSecret.key secrets).sublist distinctBy_sublist

/-- A list in order is left as it is. -/
theorem Normalized.normalize (h : Normalized secrets) : normalizeSecrets secrets = .ok secrets := by
  refine normalizeSecrets_eq_ok.2 ⟨h.valid, ?_⟩
  have hkey : ∀ a ∈ secrets, ∀ b ∈ secrets, a.key = b.key → a = b := by
    intro a ha b hb heq
    have hfingerprint : a.fingerprint = b.fingerprint := congrArg (fun k : Lex (Text × Text) => (ofLex k).1) heq
    exact List.inj_on_of_nodup_map h.nodup ha hb hfingerprint
  rw [← eq_sortedBy hkey (List.Perm.refl _) h.ordered]
  exact (distinctBy_eq_self h.nodup fun _ _ hmem => by cases hmem).symm

theorem Normalized.filter (h : Normalized secrets) (q : ManagedSecret → Bool) : Normalized (secrets.filter q) where
  valid item hitem := h.valid item (List.mem_of_mem_filter hitem)
  nodup := h.nodup.sublist (List.filter_sublist.map _)
  ordered := h.ordered.sublist List.filter_sublist

/-! ### Secrets in a document -/

theorem readable_of_flat {q : Text → Prop} {k : ℕ} {fields : List (Text × Json)} (hkeys : (fields.map Prod.fst).Nodup)
    (hflat : ∀ f ∈ fields, Readable q 0 f.2) : Readable q (k + 1) (.obj fields) := by
  refine ⟨hkeys, fun f hf => ?_⟩
  have hzero := hflat f hf
  obtain ⟨name, v⟩ := f
  cases v with
  | arr items => exact hzero.elim
  | obj fields => exact hzero.elim
  | num r =>
    cases k <;> exact hzero
  | _ => cases k <;> trivial

/-- The numbers of a secret are not too long. -/
def ManagedSecret.Short (item : ManagedSecret) : Prop :=
  (∀ n ∈ item.ownerUserId, MtProxy.Short n) ∧ ∀ n ∈ item.accessId, MtProxy.Short n

theorem readable_secretDict (h : item.Short) (k : ℕ) : Readable (IsWritten p.float) (k + 1) (secretDict item) := by
  refine readable_of_flat ?_ fun f hf => ?_
  · obtain ⟨secret, fingerprint, owner, access⟩ := item
    cases owner <;> cases access <;> simp
  · rcases List.mem_append.1 hf with hf | hf
    · rcases List.mem_append.1 hf with hf | hf
      · simp only [List.mem_cons, List.not_mem_nil, or_false] at hf
        rcases hf with rfl | rfl <;> trivial
      · obtain ⟨n, hn, rfl⟩ := List.mem_map.1 hf
        exact isWritten_intText p.float (h.1 n (Option.mem_toList.1 hn))
    · obtain ⟨n, hn, rfl⟩ := List.mem_map.1 hf
      exact isWritten_intText p.float (h.2 n (Option.mem_toList.1 hn))

theorem sorted_isObj (v : Json) : v.sorted.isObj = v.isObj := by
  cases v <;> rfl

theorem truthy_sorted (v : Json) : v.sorted.truthy = v.truthy := by
  cases v with
  | arr items =>
    rw [Json.sorted, sortedItems_eq, truthy, truthy, List.isEmpty_map]
  | obj fields =>
    have hlength := (perm_sortFields (sortedFields fields)).length_eq
    rw [sortedFields_eq, List.length_map] at hlength
    rw [Json.sorted, sortedFields_eq, truthy, truthy]
    refine congrArg not (Bool.eq_iff_iff.2 ?_)
    rw [List.isEmpty_iff_length_eq_zero, List.isEmpty_iff_length_eq_zero, hlength]
  | _ => rfl

theorem isStr_sorted (v : Json) (t : Text) : isStr v.sorted t = isStr v t := by
  cases v <;> rfl

theorem field_secretDict (item : ManagedSecret) :
    (secretDict item).field "secret".toList = .str item.secret ∧
      (secretDict item).field "fingerprint".toList = .str item.fingerprint ∧
      (secretDict item).field "purpose".toList = .null ∧
      (secretDict item).field "owner_user_id".toList = (item.ownerUserId.map number).getD .null ∧
      (secretDict item).field "access_id".toList = (item.accessId.map number).getD .null := by
  obtain ⟨secret, fingerprint, owner, access⟩ := item
  cases owner <;> cases access <;> exact ⟨rfl, rfl, rfl, rfl, rfl⟩

theorem strOr_str (t : Text) : p.strOr (.str t) = t := by
  cases t <;> rfl

theorem optionalInt_of_option {o : Option ℤ} (h : ∀ n ∈ o, MtProxy.Short n) :
    optionalInt p ((o.map number).getD .null) = .ok o := by
  cases o with
  | none => rfl
  | some n => exact optionalInt_number (h n rfl)

theorem secretOf_secretDict (h : item.Short) (hsecret : item.secret ≠ []) (hfingerprint : item.fingerprint ≠ []) :
    secretOf p (secretDict item).sorted = .ok (some item) := by
  have hfield : ∀ k, (secretDict item).sorted.field k = ((secretDict item).field k).sorted :=
    fun k => field_sorted (readable_secretDict (p := p) h 0) k
  obtain ⟨h₁, h₂, -, h₄, h₅⟩ := field_secretDict item
  have howner : (((item.ownerUserId.map number).getD .null).sorted) = (item.ownerUserId.map number).getD .null := by
    cases item.ownerUserId <;> rfl
  have haccess : (((item.accessId.map number).getD .null).sorted) = (item.accessId.map number).getD .null := by
    cases item.accessId <;> rfl
  have hobj : (secretDict item).sorted.isObj = true := rfl
  unfold secretOf
  rw [hfield, hfield, hfield, hfield, h₁, h₂, h₄, h₅, howner, haccess, hobj]
  simp only [Json.sorted, strOr_str]
  rw [if_neg (by simp [hsecret, hfingerprint]), optionalInt_of_option h.1, optionalInt_of_option h.2]
  rfl

/-- The secrets that can be written: with numbers that are not too long and a fingerprint. -/
def Writable (secrets : List ManagedSecret) : Prop := ∀ item ∈ secrets, item.Short ∧ item.fingerprint ≠ []

theorem ne_nil_of_validateSecret {secret : Text} (h : validateSecret secret = .ok ()) : secret ≠ [] := by
  rintro rfl
  cases h

theorem secretsOf_map_secretDict (h : Normalized secrets) (hwritable : Writable secrets) :
    secretsOf p ((secrets.map secretDict).map Json.sorted) = .ok secrets := by
  have hfound : ∀ items : List ManagedSecret, (∀ item ∈ items, item ∈ secrets) →
      ((items.map secretDict).map Json.sorted).mapM (secretOf p) = .ok (items.map some) := by
    intro items hitems
    induction items with
    | nil => rfl
    | cons item items ih =>
      obtain ⟨hshort, hfingerprint⟩ := hwritable item (hitems item List.mem_cons_self)
      have hsecret := ne_nil_of_validateSecret (h.valid item (hitems item List.mem_cons_self))
      rw [List.map_cons, List.map_cons, List.mapM_cons, secretOf_secretDict hshort hsecret hfingerprint,
        ih fun item hitem => hitems item (List.mem_cons_of_mem _ hitem)]
      rfl
  have hreduce : ∀ items : List ManagedSecret, (items.map some).reduceOption = items := by
    intro items
    induction items with
    | nil => rfl
    | cons item items ih => rw [List.map_cons, List.reduceOption_cons_of_some, ih]
  rw [secretsOf, hfound secrets fun _ hitem => hitem]
  show normalizeSecrets (secrets.map some).reduceOption = _
  rw [hreduce, h.normalize]

theorem isPlaceholder_secretDict (p : Interpreter) (h : item.Short) :
    isPlaceholder (secretDict item).sorted = decide (item.fingerprint = emptyPlaceholder) := by
  have hfield : ∀ k, (secretDict item).sorted.field k = ((secretDict item).field k).sorted :=
    fun k => field_sorted (readable_secretDict (p := p) h 0) k
  obtain ⟨-, h₂, h₃, -, -⟩ := field_secretDict item
  rw [isPlaceholder, hfield, hfield, h₂, h₃]
  rfl

theorem secretsOf_runtime (h : Normalized secrets) (hwritable : Writable secrets) :
    secretsOf p (((secrets.map secretDict).map Json.sorted).filter fun item => !isPlaceholder item) =
      .ok (secrets.filter fun item => item.fingerprint ≠ emptyPlaceholder) := by
  have hfilter : ((secrets.map secretDict).map Json.sorted).filter (fun item => !isPlaceholder item) =
      ((secrets.filter fun item => item.fingerprint ≠ emptyPlaceholder).map secretDict).map Json.sorted := by
    rw [List.map_map, List.map_map, List.filter_map]
    refine congrArg _ (List.filter_congr fun item hitem => ?_)
    show (!isPlaceholder (secretDict item).sorted) = _
    rw [isPlaceholder_secretDict p (hwritable item hitem).1]
    simp
  rw [hfilter]
  exact secretsOf_map_secretDict (h.filter _) fun item hitem => hwritable item (List.mem_of_mem_filter hitem)

/-! ### The document -/

variable {generation : ℤ} {runtime : List Json} {current document : Json}

/-- Items that can be written and read in one of the lists of a document. -/
def Items (p : Interpreter) (items : List Json) : Prop :=
  ∀ item ∈ items, Readable (IsWritten p.float) (p.limit - 2) item

theorem items_map_secretDict (hwritable : Writable secrets) : Items p (secrets.map secretDict) := by
  intro v hv
  obtain ⟨item, hitem, rfl⟩ := List.mem_map.1 hv
  have hlimit := p.three_le_limit
  obtain ⟨k, hk⟩ : ∃ k, p.limit - 2 = k + 1 := ⟨p.limit - 3, by omega⟩
  rw [hk]
  exact readable_secretDict (hwritable item hitem).1 k

theorem readable_documentOf {items : List Json} (hgeneration : Short generation) (hitems : Items p items)
    (hruntime : Items p runtime) : Read p.limit p.float (documentOf generation items runtime) := by
  have hlimit := p.three_le_limit
  obtain ⟨k, hk⟩ : ∃ k, p.limit = k + 2 := ⟨p.limit - 2, by omega⟩
  unfold Items at hitems hruntime
  rw [hk, Nat.add_sub_cancel] at hitems hruntime
  rw [Read, hk]
  refine ⟨by simp, fun f hf => ?_⟩
  simp only [List.mem_cons, List.not_mem_nil, or_false] at hf
  rcases hf with rfl | rfl | rfl | rfl | rfl
  · exact isWritten_intText p.float (show Short 1 by norm_num [Short, maxStrDigits])
  · exact isWritten_intText p.float hgeneration
  · trivial
  · exact hitems
  · exact hruntime

theorem isObj_of_keepsPlaceholder {v : Json} (h : keepsPlaceholder v = true) : v.isObj = true := by
  rw [keepsPlaceholder, Bool.and_eq_true, Bool.and_eq_true] at h
  exact h.1.1

theorem isText_of_keepsPlaceholder {v : Json} (h : keepsPlaceholder v = true) :
    isStr (v.field "purpose".toList) emptyPlaceholder = true := by
  rw [keepsPlaceholder, Bool.and_eq_true, Bool.and_eq_true] at h
  exact h.1.2

theorem keepsPlaceholder_sorted {k : ℕ} {q : Text → Prop} {v : Json} (h : Readable q k v) :
    keepsPlaceholder v.sorted = keepsPlaceholder v := by
  rw [keepsPlaceholder, keepsPlaceholder, field_sorted h, field_sorted h, isStr_sorted, truthy_sorted, sorted_isObj]

theorem keepsPlaceholder_newPlaceholder {token : Text} (h : token ≠ []) :
    keepsPlaceholder (newPlaceholder token) = true := by
  cases token with
  | nil => exact absurd rfl h
  | cons c token => rfl

theorem items_of_field? {k : Text} {items : List Json} (hcurrent : Read p.limit p.float current)
    (h : current.field? k = some (.arr items)) : Items p items := by
  have hlimit := p.three_le_limit
  obtain ⟨m, hm⟩ : ∃ m, p.limit = m + 2 := ⟨p.limit - 2, by omega⟩
  rw [Read, hm] at hcurrent
  rw [Items, hm, Nat.add_sub_cancel]
  cases current with
  | obj fields =>
    have hvalue : (k, Json.arr items) ∈ fields := by
      rw [field?, Option.map_eq_some_iff] at h
      obtain ⟨f, hf, hvalue⟩ := h
      have hname := List.find?_some hf
      rw [decide_eq_true_eq] at hname
      have hmem := List.mem_of_find?_eq_some hf
      rwa [← hname, ← hvalue]
    exact hcurrent.2 _ hvalue
  | _ => cases h

theorem emptyRuntimePlaceholder_eq_ok {token : Text} {placeholder : Json} (hcurrent : Read p.limit p.float current)
    (htoken : token ≠ []) (h : emptyRuntimePlaceholder token current = .ok placeholder) :
    Items p [placeholder] ∧ keepsPlaceholder placeholder = true := by
  have hnew : Items p [newPlaceholder token] := by
    intro v hv
    have hlimit := p.three_le_limit
    obtain ⟨k, hk⟩ : ∃ k, p.limit - 2 = k + 1 := ⟨p.limit - 3, by omega⟩
    rw [List.mem_singleton.1 hv, hk]
    refine readable_of_flat (by simp) fun f hf => ?_
    simp only [List.mem_cons, List.not_mem_nil, or_false] at hf
    rcases hf with rfl | rfl | rfl <;> trivial
  have hkeeps := keepsPlaceholder_newPlaceholder htoken
  unfold emptyRuntimePlaceholder at h
  split at h
  · cases h
    exact ⟨hnew, hkeeps⟩
  · rename_i items hfield
    obtain rfl := Except.ok.inj h
    cases hfind : items.find? keepsPlaceholder with
    | none => exact ⟨hnew, hkeeps⟩
    | some item =>
      refine ⟨fun v hv => ?_, List.find?_some hfind⟩
      rw [List.mem_singleton.1 hv]
      exact items_of_field? hcurrent hfield item (List.mem_of_find?_eq_some hfind)
  · cases h
    exact ⟨hnew, hkeeps⟩
  · cases h
    exact ⟨hnew, hkeeps⟩
  · cases h

/-! ### The text of the file -/

theorem ne_return_of_isNumberChar {c : Char} (h : isNumberChar c = true) : c ≠ '\r' := by
  rintro rfl
  revert h
  decide

theorem not_mem_hexChar {m : ℕ} (h : m < 16) : hexChar m ≠ '\r' := by
  interval_cases m <;> decide

theorem not_mem_escapeChar (c : Char) : '\r' ∉ escapeChar c := by
  unfold escapeChar
  split_ifs with _ _ _ hreturn _ _ _ hcontrol
  · decide
  · decide
  · decide
  · decide
  · decide
  · decide
  · decide
  · have hdiv : c.toNat / 16 < 16 := by omega
    have hmod : c.toNat % 16 < 16 := by omega
    simp [(not_mem_hexChar hdiv).symm, (not_mem_hexChar hmod).symm]
  · exact fun hmem => hreturn (List.mem_singleton.1 hmem).symm

theorem not_mem_stringText (t : Text) : '\r' ∉ stringText t := by
  rw [stringText, List.mem_cons, List.mem_append, List.mem_flatMap]
  rintro (h | ⟨c, -, hc⟩ | h)
  · revert h
    decide
  · exact not_mem_escapeChar c hc
  · revert h
    decide

theorem not_mem_newline (level : ℕ) : '\r' ∉ newline level := by
  rw [newline, List.mem_cons]
  rintro (h | h)
  · revert h
    decide
  · have hspace := List.eq_of_mem_replicate h
    revert hspace
    decide

theorem not_mem_itemLines {close : Char} (hclose : close ≠ '\r') (level : ℕ) {ts : List Text}
    (h : ∀ t ∈ ts, '\r' ∉ t) : '\r' ∉ itemLines close level ts := by
  induction ts with
  | nil =>
    rw [itemLines]
    simp [not_mem_newline, hclose.symm]
  | cons t ts ih =>
    have ht := h t List.mem_cons_self
    cases ts with
    | nil =>
      rw [itemLines]
      simp [not_mem_newline, ht, hclose.symm]
    | cons t' ts =>
      have hrest := ih fun u hu => h u (List.mem_cons_of_mem _ hu)
      have hlines : itemLines close level (t :: t' :: ts) =
          newline (level + 1) ++ t ++ ',' :: itemLines close level (t' :: ts) := rfl
      rw [hlines]
      simp [not_mem_newline, ht, hrest]

theorem not_mem_containerText {first close : Char} (hfirst : first ≠ '\r') (hclose : close ≠ '\r') (level : ℕ)
    {ts : List Text} (h : ∀ t ∈ ts, '\r' ∉ t) : '\r' ∉ containerText first close level ts := by
  rw [containerText, List.mem_cons, not_or]
  refine ⟨hfirst.symm, ?_⟩
  split_ifs
  · simpa using hclose.symm
  · exact not_mem_itemLines hclose level h

theorem not_mem_of_isToken {r : Text} (h : IsToken r) : '\r' ∉ r := by
  rcases h with h | h
  · exact fun hmem => ne_return_of_isNumberChar ((exists_of_numberOf h).2.1 _ hmem) rfl
  · simp only [List.mem_cons, List.not_mem_nil, or_false] at h
    rcases h with rfl | rfl | rfl <;> decide

/-- No carriage return is written. -/
theorem not_mem_dumpsAt {k : ℕ} {v : Json} (h : Readable IsToken k v) (level : ℕ) : '\r' ∉ dumpsAt level v := by
  have hscalar : ∀ {k : ℕ} {v : Json} (level : ℕ), Readable IsToken k v → (∀ items, v ≠ .arr items) →
      (∀ fields, v ≠ .obj fields) → '\r' ∉ dumpsAt level v := by
    intro k v level h harr hobj
    cases v with
    | arr items => exact absurd rfl (harr items)
    | obj fields => exact absurd rfl (hobj fields)
    | null =>
      show '\r' ∉ "null".toList
      decide
    | bool b =>
      cases b
      · show '\r' ∉ "false".toList
        decide
      · show '\r' ∉ "true".toList
        decide
    | num r =>
      cases k <;> exact not_mem_of_isToken h
    | str t => exact not_mem_stringText t
  induction k generalizing v level with
  | zero =>
    refine hscalar level h ?_ ?_
    · rintro items rfl
      exact h
    · rintro fields rfl
      exact h
  | succ k ih =>
    cases v with
    | arr items =>
      rw [dumpsAt, itemTexts_eq]
      refine not_mem_containerText (by decide) (by decide) level fun t ht => ?_
      obtain ⟨v, hv, rfl⟩ := List.mem_map.1 ht
      exact ih (h v hv) (level + 1)
    | obj fields =>
      rw [dumpsAt, fieldTexts_eq]
      refine not_mem_containerText (by decide) (by decide) level fun t ht => ?_
      obtain ⟨f, hf, rfl⟩ := List.mem_map.1 ht
      obtain ⟨f', hf', rfl⟩ := List.mem_map.1 ((perm_sortFields _).mem_iff.1 hf)
      simp only [List.mem_append, List.mem_cons, not_or]
      exact ⟨not_mem_stringText _, by decide, by decide, ih (h.2 f' hf') (level + 1)⟩
    | _ => exact hscalar level h (fun _ h => by cases h) fun _ h => by cases h

theorem not_mem_jsonDump (h : Read p.limit p.float document) : '\r' ∉ jsonDump document := by
  rw [jsonDump, List.mem_append, not_or]
  exact ⟨not_mem_dumpsAt (h.mono fun _ hr => hr.1) 0, by decide⟩

theorem read_jsonDump (h : Read p.limit p.float document) :
    Json.read p.limit p.float (Warp.universalNewlines (jsonDump document)) = .ok document.sorted := by
  rw [Warp.universalNewlines_eq_self (not_mem_jsonDump h), jsonDump, read_dumps h]

theorem readStoreDocument_jsonDump (h : Read p.limit p.float document) (hobj : document.isObj = true) :
    readStoreDocument p (some (jsonDump document)) = .ok document.sorted := by
  rw [readStoreDocument, read_jsonDump h]
  show (if document.sorted.isObj then _ else _) = _
  rw [sorted_isObj, hobj]
  rfl

theorem read_of_readStoreDocument {file : Option Text} (h : readStoreDocument p file = .ok document) :
    Read p.limit p.float document ∧ document.isObj = true := by
  unfold readStoreDocument at h
  cases file with
  | none =>
    obtain rfl := Except.ok.inj h
    have hlimit := p.three_le_limit
    obtain ⟨k, hk⟩ : ∃ k, p.limit = k + 2 := ⟨p.limit - 2, by omega⟩
    rw [Read, hk]
    refine ⟨⟨by simp, fun f hf => ?_⟩, rfl⟩
    simp only [List.mem_cons, List.not_mem_nil, or_false] at hf
    rcases hf with rfl | rfl | rfl | rfl
    · exact isWritten_intText p.float (show Short 1 by norm_num [Short, maxStrDigits])
    · exact isWritten_intText p.float (show Short 0 by norm_num [Short, maxStrDigits])
    · exact fun v hv => by cases hv
    · exact fun v hv => by cases hv
  | some text =>
    dsimp only at h
    cases hread : Json.read p.limit p.float (Warp.universalNewlines text) with
    | error e =>
      rw [hread] at h
      cases h
    | ok data =>
      rw [hread] at h
      dsimp only at h
      split_ifs at h with hobj
      obtain rfl := Except.ok.inj h
      exact ⟨read_of_read hread, hobj⟩

theorem eq_zero_of_not_truthy (h : Short n) (htruthy : (number n).truthy = false) : n = 0 := by
  have hparse := parseInt_intText h
  have htoken := isIntToken_intText n
  have hmem : intText n ∈ ["0".toList, "0.0".toList, "-0.0".toList] := by
    rw [number, truthy, Bool.not_eq_false'] at htruthy
    exact List.contains_iff_mem.1 htruthy
  simp only [List.mem_cons, List.not_mem_nil, or_false] at hmem
  rcases hmem with hzero | hzero | hzero
  · have heq : parseInt "0".toList = some 0 := by decide
    rw [hzero, heq] at hparse
    exact (Option.some.inj hparse).symm
  · rw [hzero] at htoken
    exact absurd htoken (by decide)
  · rw [hzero] at htoken
    exact absurd htoken (by decide)

theorem generationOf_documentOf (hgeneration : Short generation) {v : Json}
    (hv : v.field "generation".toList = number generation) : generationOf p v = .ok generation := by
  unfold generationOf
  rw [hv]
  dsimp only
  split_ifs with htruthy
  · rw [eq_zero_of_not_truthy hgeneration (by simpa using htruthy)]
  · rw [int_number hgeneration]

/-- What `_store_document` has made of the secrets in order. -/
structure Stored (p : Interpreter) (normalized : List ManagedSecret) (generation : ℤ) (runtime : List Json) : Prop where
  short : Short generation
  canonical : Normalized normalized
  writable : Writable normalized
  items : Items p runtime
  placeholder : normalized = [] → ∃ placeholder, runtime = [placeholder] ∧ keepsPlaceholder placeholder = true
  secrets : normalized ≠ [] → runtime = normalized.map secretDict

theorem stored_of_storeDocument {token : Text} {g : Option ℤ} (hcurrent : Read p.limit p.float current)
    (hg : ∀ n ∈ g, Short n) (htoken : token ≠ []) (hwritable : Writable secrets)
    (h : storeDocument p token secrets current g = .ok document) :
    ∃ normalized generation runtime, normalizeSecrets secrets = .ok normalized ∧
      g.elim (generationOf p current) .ok = .ok generation ∧
      document = documentOf generation (normalized.map secretDict) runtime ∧
      Stored p normalized generation runtime := by
  unfold storeDocument at h
  obtain ⟨normalized, hnormalized, h⟩ := bind_eq_ok.1 h
  obtain ⟨generation, hgeneration, h⟩ := bind_eq_ok.1 h
  obtain ⟨hcanonical, hmem⟩ := normalized_of_normalizeSecrets hnormalized
  have hwritable' : Writable normalized := fun item hitem => hwritable item (hmem item hitem)
  have hshort : Short generation := by
    cases g with
    | some n =>
      obtain rfl := Except.ok.inj hgeneration
      exact hg n rfl
    | none => exact short_generationOf hgeneration
  refine ⟨normalized, generation, ?_⟩
  dsimp only at h
  split_ifs at h with hempty
  · obtain ⟨placeholder, hplaceholder, h⟩ := bind_eq_ok.1 h
    have hnil : normalized = [] := by simpa using hempty
    obtain ⟨hitems, hkeeps⟩ := emptyRuntimePlaceholder_eq_ok hcurrent htoken hplaceholder
    exact ⟨[placeholder], hnormalized, hgeneration, (Except.ok.inj h).symm, hshort, hcanonical, hwritable', hitems,
      fun _ => ⟨placeholder, rfl, hkeeps⟩, fun hne => absurd hnil hne⟩
  · have hne : normalized ≠ [] := by simpa using hempty
    exact ⟨normalized.map secretDict, hnormalized, hgeneration, (Except.ok.inj h).symm, hshort, hcanonical, hwritable',
      items_map_secretDict hwritable', fun hnil => absurd hnil hne, fun _ => rfl⟩

namespace Stored

theorem read (h : Stored p normalized generation runtime) :
    Read p.limit p.float (documentOf generation (normalized.map secretDict) runtime) :=
  readable_documentOf h.short (items_map_secretDict h.writable) h.items

theorem fields (h : Stored p normalized generation runtime) :
    (documentOf generation (normalized.map secretDict) runtime).sorted.field? "secrets".toList =
        some (.arr ((normalized.map secretDict).map Json.sorted)) ∧
      (documentOf generation (normalized.map secretDict) runtime).sorted.field? "runtime_secrets".toList =
        some (.arr (runtime.map Json.sorted)) ∧
      (documentOf generation (normalized.map secretDict) runtime).sorted.field? "generation".toList =
        some (number generation) := by
  have harr : ∀ items, (Json.arr items).sorted = .arr (items.map Json.sorted) := fun items => by
    rw [Json.sorted, sortedItems_eq]
  refine ⟨?_, ?_, ?_⟩
  · rw [field?_sorted h.read, ← harr]
    rfl
  · rw [field?_sorted h.read, ← harr]
    rfl
  · rw [field?_sorted h.read]
    rfl

theorem field (h : Stored p normalized generation runtime) :
    (documentOf generation (normalized.map secretDict) runtime).sorted.field "secrets".toList =
        .arr ((normalized.map secretDict).map Json.sorted) ∧
      (documentOf generation (normalized.map secretDict) runtime).sorted.field "runtime_secrets".toList =
        .arr (runtime.map Json.sorted) ∧
      (documentOf generation (normalized.map secretDict) runtime).sorted.field "generation".toList =
        number generation := by
  obtain ⟨hsecrets, hruntime, hgeneration⟩ := h.fields
  refine ⟨?_, ?_, ?_⟩
  · rw [Json.field, hsecrets]
    rfl
  · rw [Json.field, hruntime]
    rfl
  · rw [Json.field, hgeneration]
    rfl

theorem documentUserSecrets (h : Stored p normalized generation runtime) :
    documentUserSecrets p (documentOf generation (normalized.map secretDict) runtime).sorted = .ok normalized := by
  rw [MtProxy.documentUserSecrets, h.field.1]
  exact secretsOf_map_secretDict h.canonical h.writable

theorem runtimeSecrets (h : Stored p normalized generation runtime) :
    runtimeSecrets p (documentOf generation (normalized.map secretDict) runtime).sorted =
      .ok (normalized.filter fun item => item.fingerprint ≠ emptyPlaceholder) := by
  rw [MtProxy.runtimeSecrets, h.field.2.1]
  dsimp only
  by_cases hnil : normalized = []
  · obtain ⟨placeholder, rfl, hkeeps⟩ := h.placeholder hnil
    have hreadable := h.items placeholder List.mem_cons_self
    have hskipped : isPlaceholder placeholder.sorted = true := by
      rw [isPlaceholder, field_sorted hreadable, isStr_sorted, isText_of_keepsPlaceholder hkeeps, Bool.true_or]
    rw [hnil, List.map_singleton, List.filter_cons_of_neg (by simp [hskipped])]
    rfl
  · rw [h.secrets hnil]
    exact secretsOf_runtime h.canonical h.writable

theorem generationOf (h : Stored p normalized generation runtime) :
    generationOf p (documentOf generation (normalized.map secretDict) runtime).sorted = .ok generation :=
  generationOf_documentOf h.short h.field.2.2

theorem runtime_ne_nil (h : Stored p normalized generation runtime) : runtime ≠ [] := by
  by_cases hnil : normalized = []
  · obtain ⟨placeholder, rfl, -⟩ := h.placeholder hnil
    exact List.cons_ne_nil _ _
  · rw [h.secrets hnil]
    simpa using hnil

theorem placeholder_iff (h : Stored p normalized generation runtime) :
    (∃ item ∈ runtime, keepsPlaceholder item = true) ↔ normalized = [] := by
  by_cases hnil : normalized = []
  · obtain ⟨placeholder, rfl, hkeeps⟩ := h.placeholder hnil
    exact iff_of_true ⟨placeholder, List.mem_cons_self, hkeeps⟩ hnil
  · refine iff_of_false ?_ hnil
    rw [h.secrets hnil]
    rintro ⟨v, hv, hkeeps⟩
    obtain ⟨item, hitem, rfl⟩ := List.mem_map.1 hv
    have hpurpose := isText_of_keepsPlaceholder hkeeps
    rw [(field_secretDict item).2.2.1] at hpurpose
    cases hpurpose

theorem again (h : Stored p normalized generation runtime) (token : Text) {g : Option ℤ}
    (hg : ∀ n ∈ g, n = generation) :
    ∃ again, storeDocument p token normalized (documentOf generation (normalized.map secretDict) runtime).sorted g =
        .ok again ∧
      jsonDump again = jsonDump (documentOf generation (normalized.map secretDict) runtime) := by
  have hgeneration : g.elim (MtProxy.generationOf p
      (documentOf generation (normalized.map secretDict) runtime).sorted) .ok = .ok generation := by
    cases g with
    | none => exact h.generationOf
    | some n => rw [hg n rfl]; rfl
  have hmake : ∀ again, (if (normalized.map secretDict).isEmpty = true then do
        let placeholder ← emptyRuntimePlaceholder token
          (documentOf generation (normalized.map secretDict) runtime).sorted
        return documentOf generation (normalized.map secretDict) [placeholder]
      else return documentOf generation (normalized.map secretDict) (normalized.map secretDict)) = Except.ok again →
      storeDocument p token normalized (documentOf generation (normalized.map secretDict) runtime).sorted g =
        .ok again :=
    fun again hagain => bind_eq_ok.2 ⟨normalized, h.canonical.normalize, bind_eq_ok.2 ⟨generation, hgeneration, hagain⟩⟩
  by_cases hnil : normalized = []
  · obtain ⟨placeholder, rfl, hkeeps⟩ := h.placeholder hnil
    have hreadable := h.items placeholder List.mem_cons_self
    have hcarried : emptyRuntimePlaceholder token
        (documentOf generation (normalized.map secretDict) [placeholder]).sorted = .ok placeholder.sorted := by
      have hfound : (List.find? keepsPlaceholder [placeholder.sorted]) = some placeholder.sorted :=
        List.find?_cons_of_pos ((keepsPlaceholder_sorted hreadable).trans hkeeps)
      rw [emptyRuntimePlaceholder, h.fields.2.1]
      show Except.ok ((List.find? keepsPlaceholder [placeholder.sorted]).getD _) = _
      rw [hfound]
      rfl
    refine ⟨documentOf generation (normalized.map secretDict) [placeholder.sorted], hmake _ ?_, ?_⟩
    · rw [if_pos (by simp [hnil]), hcarried]
      rfl
    · have hsorted : (documentOf generation (normalized.map secretDict) [placeholder.sorted]).sorted =
          (documentOf generation (normalized.map secretDict) [placeholder]).sorted := by
        simp only [documentOf, Json.sorted, sortedFields, sortedItems, sorted_sorted]
      rw [jsonDump, jsonDump, dumps_congr hsorted]
  · refine ⟨documentOf generation (normalized.map secretDict) runtime, hmake _ ?_, rfl⟩
    rw [if_neg (by simp [hnil]), h.secrets hnil]
    rfl

end Stored

/-! ### The file -/

theorem readStoreDocument_of_stored (h : Stored p normalized generation runtime) :
    readStoreDocument p (some (jsonDump (documentOf generation (normalized.map secretDict) runtime))) =
      .ok (documentOf generation (normalized.map secretDict) runtime).sorted :=
  readStoreDocument_jsonDump h.read rfl

/-- What is read back of a file: the secrets of the two lists, and the generation. -/
structure ReadsBack (p : Interpreter) (text : Text) (normalized : List ManagedSecret) (generation : ℤ) : Prop where
  canonical : Normalized normalized
  current : readCurrentManagedSecrets p (some text) = .ok normalized
  runtime : readRuntimeManagedSecrets p (some text) =
    .ok (normalized.filter fun item => item.fingerprint ≠ emptyPlaceholder)
  generation : (readStoreDocument p (some text) >>= generationOf p) = .ok generation

theorem readsBack_of_stored (h : Stored p normalized generation runtime) :
    ReadsBack p (jsonDump (documentOf generation (normalized.map secretDict) runtime)) normalized generation where
  canonical := h.canonical
  current := bind_eq_ok.2 ⟨_, readStoreDocument_of_stored h, h.documentUserSecrets⟩
  runtime := bind_eq_ok.2 ⟨_, readStoreDocument_of_stored h, h.runtimeSecrets⟩
  generation := bind_eq_ok.2 ⟨_, readStoreDocument_of_stored h, h.generationOf⟩

/-- **The file that is written is read back as the secrets in order**, with the generation of the file before.  The
runtime never has an empty list, and a secret without an owner is put there exactly where there are no secrets.  When
what has been read is written again the file does not change. -/
theorem readsBack_writeManagedSecrets {token token' text : Text} {file : Option Text} (htoken : token ≠ [])
    (hwritable : Writable secrets) (h : writeManagedSecrets p token secrets file = .ok text) :
    ∃ normalized generation, normalizeSecrets secrets = .ok normalized ∧
      (readStoreDocument p file >>= generationOf p) = .ok generation ∧ ReadsBack p text normalized generation ∧
      writeManagedSecrets p token' normalized (some text) = .ok text ∧
      ∃ runtime, (readStoreDocument p (some text)).map (·.field "runtime_secrets".toList) = .ok (.arr runtime) ∧
        runtime ≠ [] ∧ ((∃ item ∈ runtime, keepsPlaceholder item = true) ↔ normalized = []) := by
  obtain ⟨current, hcurrent, h⟩ := bind_eq_ok.1 h
  obtain ⟨document, hdocument, h⟩ := bind_eq_ok.1 h
  obtain rfl := Except.ok.inj h
  obtain ⟨normalized, generation, runtime, hnormalized, hgeneration, rfl, hstored⟩ :=
    stored_of_storeDocument (read_of_readStoreDocument hcurrent).1 (by simp) htoken hwritable hdocument
  refine ⟨normalized, generation, hnormalized, bind_eq_ok.2 ⟨current, hcurrent, hgeneration⟩,
    readsBack_of_stored hstored, ?_, runtime.map Json.sorted, ?_, by simpa using hstored.runtime_ne_nil, ?_⟩
  · obtain ⟨again, hagain, htext⟩ := hstored.again token' (fun n (hn : n ∈ none) => by cases hn)
    exact bind_eq_ok.2 ⟨_, readStoreDocument_of_stored hstored, bind_eq_ok.2 ⟨again, hagain, congrArg Except.ok htext⟩⟩
  · rw [readStoreDocument_of_stored hstored]
    exact congrArg Except.ok hstored.field.2.1
  · rw [← hstored.placeholder_iff]
    constructor
    · rintro ⟨v, hv, hkeeps⟩
      obtain ⟨item, hitem, rfl⟩ := List.mem_map.1 hv
      exact ⟨item, hitem, (keepsPlaceholder_sorted (hstored.items item hitem)).symm.trans hkeeps⟩
    · rintro ⟨item, hitem, hkeeps⟩
      exact ⟨item.sorted, List.mem_map_of_mem hitem,
        (keepsPlaceholder_sorted (hstored.items item hitem)).trans hkeeps⟩

/-- An interpreter with few open containers. -/
def plain : Interpreter where
  limit := 3
  three_le_limit := le_rfl
  float :=
    { repr := fun r => if isIntToken r then "0.0".toList else r
      token := fun r hr => by
        split_ifs
        · exact .inl rfl
        · exact hr
      float := fun r => by
        split_ifs with h
        · rfl
        · simpa using h
      again := fun r => by
        by_cases h : isIntToken r = true
        · simp only [if_pos h]
          rfl
        · simp only [if_neg h] }
  containerText := fun _ => "[]".toList
  truncate := fun _ => 0
  truncate_short := fun _ => by norm_num [Short, maxStrDigits]

def secretOfSeven : ManagedSecret := ⟨List.replicate 32 'a', "f".toList, some 7, none⟩

theorem writable_secretOfSeven : Writable [secretOfSeven] := by
  intro item hitem
  rw [List.mem_singleton.1 hitem]
  have hseven : Short 7 := lt_of_lt_of_le (show 7 < 10 ^ 1 by decide) (Nat.pow_le_pow_right (by decide) (by decide))
  exact ⟨⟨fun n hn => by rwa [← Option.some.inj hn], fun n hn => by cases hn⟩, List.cons_ne_nil _ _⟩

theorem short_one : ∀ n ∈ some (1 : ℤ), Short n := by
  intro n hn
  rw [← Option.some.inj hn]
  norm_num [Short, maxStrDigits]

/-- The first secret is written where there is no file. -/
theorem readsBack_writeManagedSecrets_seven :
    ∃ normalized generation, normalizeSecrets [secretOfSeven] = .ok normalized ∧
      (readStoreDocument plain none >>= generationOf plain) = .ok generation ∧
      ReadsBack plain (jsonDump (documentOf 0 [secretDict secretOfSeven] [secretDict secretOfSeven])) normalized
        generation ∧
      writeManagedSecrets plain ['b'] normalized
          (some (jsonDump (documentOf 0 [secretDict secretOfSeven] [secretDict secretOfSeven]))) =
        .ok (jsonDump (documentOf 0 [secretDict secretOfSeven] [secretDict secretOfSeven])) ∧
      ∃ runtime, (readStoreDocument plain
            (some (jsonDump (documentOf 0 [secretDict secretOfSeven] [secretDict secretOfSeven])))).map
          (·.field "runtime_secrets".toList) = .ok (.arr runtime) ∧
        runtime ≠ [] ∧ ((∃ item ∈ runtime, keepsPlaceholder item = true) ↔ normalized = []) := by
  exact @readsBack_writeManagedSecrets plain [secretOfSeven] ['b'] ['b'] _ none (List.cons_ne_nil _ _)
    writable_secretOfSeven rfl

end VpnBot.MtProxy
