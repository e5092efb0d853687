import VpnBot.Redaction.Secrets

/-!
# When an occurrence of a secret is redacted

The patterns one after another.  Nothing is left of a hexadecimal secret (`hexSecret_redacted`).  Keys and tokens of
bots survive somewhere exactly when they lack the word boundary that their pattern asks for and hold no word of
hexadecimal digits (`wgKey_redacted_iff`, `botToken_redacted_iff`); there they survive already where nothing stands
around them.
-/

namespace VpnBot.Redaction

open Py Patterns

variable {L : Letters} {s : Text} {c : Char}

/-! ### What stands around -/

/-- What may stand before an occurrence. -/
def isRim (c : Char) : Bool := isDelimiter c || c = '*' || c = '@'

/-- What may stand behind an occurrence. -/
def isBehind (c : Char) : Bool := isDelimiter c || c = '*' || c = ':' || c = '='

/-- What may stand behind a token in an URL. -/
def isBehindUrl (c : Char) : Bool := isBehind c || c = '/'

def isBehindKey (c : Char) : Bool := isDelimiter c || c = '*'

theorem edge_of_rim (h : isRim c = true) : isEdge c = true := by
  simp only [isRim, isEdge, Bool.or_eq_true] at *
  tauto

theorem edge_of_behind (h : isBehind c = true) : isEdge c = true := by
  simp only [isBehind, isEdge, Bool.or_eq_true] at *
  tauto

theorem edge_of_behindKey (h : isBehindKey c = true) : isEdge c = true := by
  simp only [isBehindKey, isEdge, Bool.or_eq_true] at *
  tauto

theorem behindUrl_of_behindKey (h : isBehindKey c = true) : isBehindUrl c = true := by
  simp only [isBehindKey, isBehindUrl, isBehind, Bool.or_eq_true] at *
  tauto

theorem name_of_behind (h : isBehindUrl c = true) : isNameChar c = false := by
  simp [isBehindUrl, isBehind, isDelimiter, isQuote, isSpace, isNameChar, isLetterCaseless, isLetter, isCaseVariant,
    inRange, char_eq_iff] at h ⊢
  omega

theorem glue_of_rim (h : isRim c = true) : isGlue c = false := by
  simp [isRim, isDelimiter, isQuote, isSpace, isGlue, isNameChar, isLetterCaseless, isLetter, isCaseVariant,
    isAssignment, inRange, char_eq_iff] at h ⊢
  omega

theorem url_of_rim (h : isRim c = true) : isUrlChar c = false := by
  simp [isRim, isDelimiter, isQuote, isSpace, isUrlChar, isSchemeChar, isLetterCaseless, isLetter, isNumeral,
    isCaseVariant, inRange, char_eq_iff] at h ⊢
  omega

theorem glue_of_numeral (h : isNumeral c = true) : isGlue c = false := by
  simp [isGlue, isNameChar, isLetterCaseless, isLetter, isNumeral, isCaseVariant, isAssignment, inRange,
    char_eq_iff] at h ⊢
  omega

theorem assignment_of_base64 (h : isBase64 c = true) : isAssignment c = false := by
  simp [isBase64, isLetter, isNumeral, isAssignment, inRange, char_eq_iff] at h ⊢
  omega

theorem base64_of_hex (h : isHex c = true) : isBase64 c = true := by
  simp [isHex, isBase64, isLetter, isNumeral, inRange, char_eq_iff] at h ⊢
  omega

theorem base64_of_numeral (h : isNumeral c = true) : isBase64 c = true := by
  simp [isBase64, h]

theorem base64OrPad_of_behindKey (h : isBehindKey c = true) : isBase64OrPad c = false := by
  simp [isBehindKey, isDelimiter, isQuote, isSpace, isBase64OrPad, isBase64, isLetter, isNumeral, inRange,
    char_eq_iff] at h ⊢
  omega

/-- Between delimiters nothing is glued to an occurrence. -/
theorem apart_of_delimited (hhead : ∀ c, s.head? = some c → isBase64 c = true) : Apart isRim isBehind s where
  left := ⟨rfl, rfl⟩
  star := rfl
  name := fun c hc => name_of_behind (by rw [isBehindUrl, hc]; rfl)
  glue := fun x c hx _ hglue => by rw [glue_of_rim hx] at hglue; cases hglue
  head := fun c hc => assignment_of_base64 (hhead c hc)
  sign := .inl fun c hc => by
    rw [isAssignment, Bool.or_eq_true, decide_eq_true_eq, decide_eq_true_eq] at hc
    rcases hc with rfl | rfl <;> rfl

theorem apart_of_key (hhead : ∀ c, s.head? = some c → isBase64 c = true) (hlast : s.getLast? = some '=') :
    Apart isRim isBehindKey s where
  left := ⟨rfl, rfl⟩
  star := rfl
  name := fun c hc => name_of_behind (behindUrl_of_behindKey hc)
  glue := fun x c hx _ hglue => by rw [glue_of_rim hx] at hglue; cases hglue
  head := fun c hc => assignment_of_base64 (hhead c hc)
  sign := .inr fun c hc => by
    rw [hlast] at hc
    obtain rfl : '=' = c := Option.some.inj hc
    decide

theorem apart_of_numeral (hhead : ∀ c, s.head? = some c → isNumeral c = true) :
    Apart (fun _ => true) isBehindUrl s where
  left := ⟨rfl, rfl⟩
  star := rfl
  name := fun c hc => name_of_behind hc
  glue := fun x c _ hc _ => glue_of_numeral (hhead c hc)
  head := fun c hc => assignment_of_base64 (base64_of_numeral (hhead c hc))
  sign := .inl fun c hc => by
    rw [isAssignment, Bool.or_eq_true, decide_eq_true_eq, decide_eq_true_eq] at hc
    rcases hc with rfl | rfl <;> rfl

/-! ### Occurrences that do not survive -/

theorem not_survives_of_lost {m : Marked} (h : Lost s m) : ¬ marked s <:+: m := by
  intro hinfix
  have hle : marks (marked s) ≤ marks m := hinfix.sublist.countP_le
  rw [marks_marked] at hle
  exact absurd h (by rw [Lost]; omega)

/-- An occurrence in its place. -/
theorem stands_of_delimited {before after : Text} {l r : Char → Bool} (hl : ∀ c ∈ before.getLast?, l c = true)
    (hr : ∀ c ∈ after.head?, r c = true) : Stands l r s (unmarked before ++ (marked s ++ unmarked after)) := by
  refine ⟨unmarked before, unmarked after, rfl, marks_unmarked _, marks_unmarked _, fun x hx => ?_, fun x hx => ?_⟩
  · rw [unmarked, List.getLast?_map] at hx
    obtain ⟨c, hc, rfl⟩ := Option.map_eq_some_iff.1 hx
    exact hl c hc
  · rw [unmarked, List.head?_map] at hx
    obtain ⟨c, hc, rfl⟩ := Option.map_eq_some_iff.1 hx
    exact hr c hc

theorem rim_of_delimiter (h : isDelimiter c = true) : isRim c = true := by
  rw [isRim, h]
  rfl

theorem behind_of_delimiter (h : isDelimiter c = true) : isBehind c = true := by
  rw [isBehind, h]
  rfl

theorem behindKey_of_delimiter (h : isDelimiter c = true) : isBehindKey c = true := by
  rw [isBehindKey, h]
  rfl

theorem stands_delimited {before after : Text} (h : Delimited before after) :
    Stands isRim isBehind s (unmarked before ++ (marked s ++ unmarked after)) :=
  stands_of_delimited (fun c hc => rim_of_delimiter (h.1 c hc)) fun c hc => behind_of_delimiter (h.2 c hc)

theorem stands_delimitedKey {before after : Text} (h : Delimited before after) :
    Stands isRim isBehindKey s (unmarked before ++ (marked s ++ unmarked after)) :=
  stands_of_delimited (fun c hc => rim_of_delimiter (h.1 c hc)) fun c hc => behindKey_of_delimiter (h.2 c hc)

theorem stands_inBotUrl {before after : Text} (h : InBotUrl before after) :
    Stands (fun _ => true) isBehindUrl s (unmarked before ++ (marked s ++ unmarked after)) := by
  refine stands_of_delimited (fun _ _ => rfl) fun c hc => ?_
  rw [isBehindUrl, Bool.or_eq_true, decide_eq_true_eq]
  exact (h.2 c hc).imp behind_of_delimiter id

theorem frugal_of_split (before : List (Rule Char)) {after : List (Rule Char)} (h : patterns L = before ++ after) :
    ∀ R ∈ after, Frugal R := fun R hR => frugal_of_mem (L := L) (by rw [h]; exact List.mem_append_right _ hR)

/-- The first two patterns do not glue anything to an occurrence, and the third takes what it finds in it. -/
theorem lost_by_hexSecret {l r : Char → Bool} (happart : Apart l r s) {x h y : Text} (hs : s = x ++ (h ++ y))
    (hlength : 32 ≤ h.length) (hhex : ∀ c ∈ h, isHex c = true) (hx : ∀ c ∈ x.getLast?, L.word c = false)
    (hy : ∀ c ∈ y.head?, L.word c = false) (hl : x = [] → ∀ c, l c = true → L.word c = false)
    (hr : ∀ c, r c = true → L.word c = false) {m : Marked} (hm : Stands l r s m) : Lost s (redactMarked L m) := by
  have hne : s ≠ [] := by
    rintro rfl
    have hempty := congrArg List.length hs
    simp only [List.length_append, List.length_nil] at hempty
    omega
  refine lost_redactMarked [secretQuery, secretAssignment L] _ hne rfl (fun R hR => ?_)
    (frugal_of_split [secretQuery, secretAssignment L] rfl)
    (fun m hm => lost_of_hexWord hs hlength hhex hx hy hl hr hm) hm
  simp only [List.mem_cons, List.not_mem_nil, or_false] at hR
  rcases hR with rfl | rfl
  · exact secretQuery_loosens happart
  · exact secretAssignment_loosens happart

theorem redacted_of_hexWord (hhead : ∀ c, s.head? = some c → isBase64 c = true) (h : HexWord L s) :
    Redacted L Delimited s := by
  obtain ⟨x, h, y, hs, hlength, hhex, hx, hy⟩ := h
  intro before after hplace
  exact not_survives_of_lost (lost_by_hexSecret (apart_of_delimited hhead) hs hlength hhex hx hy
    (fun _ c hc => word_of_edge L (edge_of_rim hc)) (fun c hc => word_of_edge L (edge_of_behind hc))
    (stands_delimited hplace))

/-! ### Hexadecimal secrets -/

theorem hex_of_space (h : isSpace c = true) : isHex c = false := by
  simp [isSpace, isHex, isNumeral, inRange] at h ⊢
  omega

theorem hex_of_assignment (h : isAssignment c = true) : isHex c = false := by
  simp [isAssignment, isHex, isNumeral, inRange, char_eq_iff] at h ⊢
  omega

theorem queryValue_of_hex (h : isHex c = true) : isQueryValue c = true := by
  simp [isQueryValue, isSpace, isHex, isNumeral, inRange, char_eq_iff] at h ⊢
  omega

theorem assignedValue_of_hex (h : isHex c = true) : isAssignedValue c = true := by
  simp [isAssignedValue, isSpace, isHex, isNumeral, inRange, char_eq_iff] at h ⊢
  omega

theorem hex_of_caseless {p : Char} (hp : inRange 'g' 'z' p = true) (h : caseless p c = true) :
    isHex c = false ∧ isBehind c = false := by
  simp [caseless, inRange, isHex, isNumeral, isBehind, isDelimiter, isQuote, isSpace, char_eq_iff] at *
  omega

/-- Only the beginning of a match is kept, and what follows it is as long as it can be.  In the beginning no digit
follows what may stand before an occurrence, and one of its first two letters is none; or it is empty, and no digit
stands before the match. -/
def TakesWhole (R : Rule Char) : Prop :=
  ∀ left t groups rest, (marking R).first left t = some (groups, rest) → ∃ g v, groups.flatten = g ++ v ∧
    marks (put R groups) ≤ marks g ∧ (∀ x ∈ rest.head?, isHex x.1 = false) ∧
    (∀ d x y e, g = d ++ x :: y :: e → isRim x.1 = true → isHex y.1 = false) ∧
    ((g = [] ∧ ∀ x ∈ left, isHex x.1 = false) ∨
      ∃ y z e, g = y :: z :: e ∧ (isHex y.1 = false ∨ isHex z.1 = false ∧ isBehind z.1 = false))

theorem hex_of_head {value : Char → Bool} (hvalue : ∀ c, isHex c = true → value c = true) {rest : Marked}
    (h : (rest.map Prod.fst).head?.any value = false) : ∀ x ∈ rest.head?, isHex x.1 = false := by
  intro x hx
  rw [List.head?_map, Option.mem_def.1 hx] at h
  cases hhex : isHex x.1 with
  | false => rfl
  | true => exact (hvalue _ hhex).symm.trans h

/-- One of the first two letters of a word is no digit. -/
theorem start_of_spells {w : String} {p q : Char} {w' : Text} (hw : w.toList = p :: q :: w')
    (hletter : inRange 'g' 'z' p = true ∨ inRange 'g' 'z' q = true) {g : Marked}
    (hspells : Spells (caselessWord w) (g.map Prod.fst)) :
    ∃ y z e, g = y :: z :: e ∧ (isHex y.1 = false ∨ isHex z.1 = false ∧ isBehind z.1 = false) := by
  rw [caselessWord, hw] at hspells
  obtain ⟨c, u, hp, hu, hg⟩ := List.forall₂_cons_left_iff.1 hspells
  obtain ⟨d, u', hq, -, rfl⟩ := List.forall₂_cons_left_iff.1 hu
  obtain ⟨y, g, rfl, rfl, htail⟩ := List.map_eq_cons_iff.1 hg
  obtain ⟨z, g, rfl, rfl, -⟩ := List.map_eq_cons_iff.1 htail
  exact ⟨y, z, g, rfl, hletter.imp (fun h => (hex_of_caseless h hp).1) fun h => hex_of_caseless h hq⟩

theorem secretQuery_takesWhole : TakesWhole secretQuery := by
  intro left t groups rest hmatch
  obtain ⟨g, v, hgroups, -, hspells, -, -, hrest⟩ := secretQuery_of_first (first_of_marking hmatch)
  obtain ⟨G, V, rfl, rfl, rfl⟩ : ∃ G V : Marked, groups = [G, V] ∧ G.map Prod.fst = g ∧ V.map Prod.fst = v := by
    simpa [List.map_eq_cons_iff] using hgroups
  have hput : put secretQuery [G, V] = G ++ (unmarked stars ++ []) := rfl
  refine ⟨G, V, by simp, by rw [hput]; simp, hex_of_head (fun _ => queryValue_of_hex) hrest, ?_, .inr ?_⟩
  · rintro d x y e rfl hrim
    have hx := glue_of_secret (c := x.1) hspells (by simp)
    rw [glue_of_rim hrim] at hx
    cases hx
  · exact start_of_spells rfl (.inl rfl) hspells

theorem secretAssignment_takesWhole : TakesWhole (secretAssignment L) := by
  intro left t groups rest hmatch
  obtain ⟨k, w₁, sign, w₂, v, hflatten, hput, hname, -, hsign, -, hspace, hrest, name, hmem, hspells⟩ :=
    assignment_groups hmatch
  refine ⟨k ++ (w₁ ++ sign :: w₂), v, by simp [hflatten], ?_, hex_of_head (fun _ => assignedValue_of_hex) hrest, ?_,
    .inr ?_⟩
  · rw [hput]
    simp only [marks_append, marks_cons, marks_unmarked]
    omega
  · intro d x y e hd hrim
    have hbehind : ∀ z ∈ w₁ ++ sign :: w₂, isHex z.1 = false := by
      intro z hz
      rcases List.mem_append.1 hz with hz | hz
      · exact hex_of_space (hspace z (List.mem_append_left _ hz))
      · rcases List.mem_cons.1 hz with rfl | hz
        · exact hex_of_assignment hsign
        · exact hex_of_space (hspace z (List.mem_append_right _ hz))
    rcases List.append_eq_append_iff.1 hd with ⟨f, -, hf⟩ | ⟨f, rfl, hf⟩
    · exact hbehind y (by rw [hf]; simp)
    · cases f with
      | nil => exact hbehind y (by rw [← show x :: y :: e = w₁ ++ sign :: w₂ from hf]; simp)
      | cons z f =>
        obtain ⟨rfl, -⟩ := List.cons.inj hf
        have hglue := glue_of_rim hrim
        rw [isGlue, hname x (by simp)] at hglue
        cases hglue
  · obtain ⟨y, z, e, rfl, hstart⟩ : ∃ y z e, k = y :: z :: e ∧
        (isHex y.1 = false ∨ isHex z.1 = false ∧ isBehind z.1 = false) := by
      simp only [secretNames, List.mem_cons, List.not_mem_nil, or_false] at hmem
      rcases hmem with rfl | rfl | rfl | rfl | rfl | rfl | rfl | rfl
      · exact start_of_spells rfl (.inr rfl) hspells
      all_goals exact start_of_spells rfl (.inl rfl) hspells
    exact ⟨y, z, _, rfl, hstart⟩

theorem hexSecret_takesWhole : TakesWhole (hexSecret L) := by
  intro left t groups rest hmatch
  have hfirst := first_of_marking hmatch
  obtain ⟨hlength, hhex, hboundary, hend⟩ := hexSecret_mem_parse (Rule.mem_parse hfirst)
  have hput : marks (put (hexSecret L) groups) = 0 := hexSecret_drops.marks_put groups
  refine ⟨[], groups.flatten, rfl, hput.le, fun x hx => ?_, fun d _ _ _ hd => absurd hd.symm (by simp),
    .inl ⟨rfl, fun x hx => ?_⟩⟩
  · obtain ⟨z, hz, hbehind⟩ := @behind_eq_some _ (left.map Prod.fst) _ (Rule.ne_nil_of_first hfirst)
    rw [hbehind, isBoundary, List.head?_map, Option.mem_def.1 hx] at hend
    refine Bool.eq_false_iff.2 fun h => ?_
    simp [word_of_hex L (hhex z hz), word_of_hex L h] at hend
  · obtain ⟨c, u, hcu⟩ := List.exists_cons_of_ne_nil (Rule.ne_nil_of_first hfirst)
    rw [Rule.append_of_first hfirst, hcu, isBoundary, Option.mem_def.1 hx] at hboundary
    refine Bool.eq_false_iff.2 fun h => ?_
    simp [word_of_hex L (hhex c (by simp [hcu])), word_of_hex L h] at hboundary

section Whole

variable {R : Rule Char} {left : Option (Char × Bool)} {b u : Marked}

/-- A match that reaches into a hexadecimal secret takes what is left of it, and begins in it only at its start. -/
theorem TakesWhole.of_match (hwhole : TakesWhole R) {t d₁ d₂ rest : Marked} {groups : List Marked} {q : Text}
    (hmatch : (marking R).first left t = some (groups, rest)) (hd : groups.flatten = d₁ ++ d₂)
    (hq : marked q ++ b = d₂ ++ rest) (hhex : ∀ c ∈ q, isHex c = true) (hne : q ≠ [])
    (hd₁ : marks d₁ = 0) (hl : ∀ x ∈ d₁.getLast?, isRim x.1 = true) (hb : marks b = 0)
    (hr : ∀ x ∈ b.head?, isBehind x.1 = true) :
    marks (put R groups) = 0 ∧ marks rest = 0 ∧ (d₁ = [] → ∀ x ∈ left, isHex x.1 = false) := by
  obtain ⟨g, v, hflatten, hput, hrest, hapart, hstart⟩ := hwhole _ _ _ _ hmatch
  obtain ⟨c, q, rfl⟩ := List.exists_cons_of_ne_nil hne
  -- The beginning of the match ends before the secret.
  have hbefore : ∃ e, d₁ = g ++ e := by
    rcases List.append_eq_append_iff.1 (hflatten.symm.trans hd) with ⟨e, he, -⟩ | ⟨e, rfl, rfl⟩
    · exact ⟨e, he⟩
    · cases e with
      | nil => exact ⟨[], by simp⟩
      | cons y e =>
        obtain ⟨rfl, htail⟩ := List.cons.inj hq
        have hc := hhex c List.mem_cons_self
        rcases List.eq_nil_or_concat d₁ with rfl | ⟨d, x, rfl⟩
        · obtain ⟨h, -⟩ | ⟨y, z, e', h, hno⟩ := hstart
          · cases h
          · obtain ⟨rfl, rfl⟩ := List.cons.inj h
            rcases hno.resolve_left (by simp [hc]) with ⟨hhexz, hbehindz⟩
            cases q with
            | nil => exact absurd (hr z (by rw [show b = z :: (e' ++ v ++ rest) from htail]; rfl)) (by simp [hbehindz])
            | cons d q =>
              obtain ⟨rfl, -⟩ := List.cons.inj htail
              exact absurd (hhex d (by simp)) (by simp [hhexz])
        · rw [List.concat_eq_append] at hl hapart
          have hno := hapart d x (c, true) e (by simp) (hl x (by simp))
          rw [hc] at hno
          cases hno
  obtain ⟨e, rfl⟩ := hbefore
  refine ⟨?_, ?_, fun hnil => ?_⟩
  · rw [marks_append] at hd₁
    omega
  · rcases List.append_eq_append_iff.1 hq with ⟨e, -, rfl⟩ | ⟨e, he, rfl⟩
    · rw [marks_append] at hb
      omega
    · obtain ⟨p, q', hp, rfl, rfl⟩ := List.map_eq_append_iff.1 he
      cases q' with
      | nil => exact hb
      | cons c' q' =>
        have hno := hrest (c', true) rfl
        rw [hhex c' (by rw [hp]; simp)] at hno
        cases hno
  · obtain ⟨-, hleft⟩ | ⟨y, z, e', rfl, -⟩ := hstart
    · exact hleft
    · cases hnil

theorem TakesWhole.length_le (hwhole : TakesWhole R) {x : Char × Bool} {q : Text} (hx : isHex x.1 = true)
    (hhex : ∀ c ∈ q, isHex c = true) (hb : marks b = 0) (hr : ∀ x ∈ b.head?, isBehind x.1 = true)
    (hscan : Scan (marking R) (some x) (marked q ++ b) [] u) : q.length ≤ marks u := by
  induction q generalizing x u with
  | nil => exact Nat.zero_le _
  | cons c q ih =>
    cases hscan with
    | keep _ hrest =>
      have hle := ih (hhex c List.mem_cons_self) (fun d hd => hhex d (List.mem_cons_of_mem c hd)) hrest
      simpa using hle
    | cut hmatch ht _ hrest =>
      rw [List.append_nil] at hmatch
      obtain ⟨-, -, hleft⟩ := hwhole.of_match hmatch (List.nil_append _).symm ht hhex (List.cons_ne_nil c q)
        (marks_unmarked []) (by simp) hb hr
      rw [hleft rfl x rfl] at hx
      cases hx

/-- **A hexadecimal secret is taken as a whole, or left standing.** -/
theorem TakesWhole.erased_or_stands (hwhole : TakesWhole R) (hloosens : Loosens isRim isBehind s R) (hs : IsHexSecret s)
    {m : Marked} (hm : Stands isRim isBehind s m) :
    marks ((marking R).sub m) = 0 ∨ Stands isRim isBehind s ((marking R).sub m) := by
  have hne : s ≠ [] := by
    rintro rfl
    exact absurd hs.1 (by decide)
  refine or_iff_not_imp_right.2 fun hnot => ?_
  have hlost := (stands_sub hloosens hne hm).resolve_right hnot
  obtain ⟨a, b, rfl, ha, hb, hl, hr⟩ := hm
  rcases (scan_sub (marking R) (a ++ (marked s ++ b))).split with ⟨u₁, u, hu, h₁, hrest⟩ |
    ⟨a₁, d₁, d₂, b₂, groups, u₁, u₂, rfl, hb₂, hd₁, hd₂, hd, hmatch, hu, h₁, h₂⟩
  · have hle₁ := hloosens.frugal.marks_le h₁
    rw [Lost, hu, marks_append] at hlost
    rw [hu, marks_append]
    generalize ht : marked s ++ b = t at hrest
    cases hrest with
    | nil =>
      rw [ha] at hle₁
      exact Nat.le_zero.1 hle₁
    | @keep _ x t _ u _ hrest =>
      obtain ⟨c, s, rfl⟩ := List.exists_cons_of_ne_nil hne
      obtain ⟨rfl, rfl⟩ := List.cons.inj ht
      have hle := hwhole.length_le (hs.2 c List.mem_cons_self) (fun d hd => hs.2 d (List.mem_cons_of_mem c hd)) hb hr
        hrest
      rw [marks_cons, if_pos rfl, List.length_cons] at hlost
      omega
    | cut hmatch hd hput hrest =>
      rw [List.append_nil] at hmatch
      obtain ⟨hkept, hzero, -⟩ := hwhole.of_match hmatch (List.nil_append _).symm (ht.trans hd) hs.2 hne
        (marks_unmarked []) (by simp) hb hr
      have hle := hloosens.frugal.marks_le hrest
      rw [put] at hkept
      rw [hput, marks_append]
      omega
  · simp only [List.append_nil] at hmatch
    rw [marks_append] at ha
    obtain ⟨hkept, hzero, -⟩ := hwhole.of_match hmatch hd hb₂ hs.2 hne (by omega)
      (fun x hx => hl x (by rw [List.getLast?_append, Option.mem_def.1 hx]; rfl)) hb hr
    have hle₁ := hloosens.frugal.marks_le h₁
    have hle₂ := hloosens.frugal.marks_le h₂
    rw [put] at hkept
    rw [hu, marks_append, marks_append]
    omega

end Whole

/-- **A hexadecimal secret does not survive, and nothing of it is left.** -/
theorem hexSecret_redacted (h : IsHexSecret s) : Redacted L Delimited s ∧ Erased L Delimited s := by
  have hhead : ∀ c, s.head? = some c → isBase64 c = true := fun c hc => base64_of_hex (h.2 c (List.mem_of_mem_head? hc))
  have hword : HexWord L s := ⟨[], s, [], by simp, h.1, h.2, by simp, by simp⟩
  refine ⟨redacted_of_hexWord hhead hword, fun before after hplace => ?_⟩
  have happart : Apart isRim isBehind s := apart_of_delimited hhead
  have hrest : ∀ {rules : List (Rule Char)} {m : Marked}, rules ⊆ patterns L → marks m = 0 →
      marks (rules.foldl (fun text R => (marking R).sub text) m) = 0 := fun hrules hm =>
    Nat.le_zero.1 (hm ▸ marks_foldl_le _ (fun R hR => frugal_of_mem (hrules hR)) _)
  rw [redactMarked, patterns, List.foldl_cons]
  rcases secretQuery_takesWhole.erased_or_stands (secretQuery_loosens happart) h (stands_delimited hplace)
    with hzero | hstands
  · exact hrest (by simp [patterns]) hzero
  rw [List.foldl_cons]
  rcases secretAssignment_takesWhole.erased_or_stands (secretAssignment_loosens happart) h hstands with hzero | hstands
  · exact hrest (by simp [patterns]) hzero
  have hedge : ∀ c, isBehind c = true → isEdge c = true := fun c hc => edge_of_behind hc
  have hlost := lost_of_hexWord (L := L) (by simp) h.1 h.2 (x := []) (y := []) (by simp) (by simp)
    (fun _ c hc => word_of_edge L (edge_of_rim hc)) (fun c hc => word_of_edge L (hedge c hc)) hstands
  rw [List.foldl_cons]
  rcases hexSecret_takesWhole.erased_or_stands (hexSecret_loosens happart hedge) h hstands with hzero | ⟨a, b, hm, -⟩
  · exact hrest (by simp [patterns]) hzero
  · exact absurd ⟨a, b, by rw [hm, List.append_assoc]⟩ (not_survives_of_lost hlost)

theorem hexSecret_redacted_zeros :
    Redacted .ascii Delimited (List.replicate 32 '0') ∧ Erased .ascii Delimited (List.replicate 32 '0') :=
  hexSecret_redacted ⟨by decide, List.all_eq_true.1 (by decide)⟩

/-! ### Texts that no pattern matches -/

theorem redactMarked_eq_self {m : Marked} (h : ∀ R ∈ patterns L, ∀ a b, m.map Prod.fst = a ++ b → ∀ q,
    R.first (behind none a) b ≠ some q) : redactMarked L m = m := by
  have hsub : ∀ R ∈ patterns L, (marking R).sub m = m := by
    intro R hR
    refine Rule.sub_eq_self fun a b hab groups rest hfirst => ?_
    refine absurd (first_of_marking hfirst) ?_
    rw [behind_map]
    exact h R hR _ _ (by rw [hab, List.map_append]) _
  have hfold : ∀ rules : List (Rule Char), (∀ R ∈ rules, (marking R).sub m = m) →
      rules.foldl (fun text R => (marking R).sub text) m = m := by
    intro rules hrules
    induction rules with
    | nil => rfl
    | cons R rules ih =>
      rw [List.foldl_cons, hrules R List.mem_cons_self]
      exact ih fun R' hR' => hrules R' (List.mem_cons_of_mem R hR')
  exact hfold _ hsub

/-! ### Tokens of bots -/

section BotToken

variable {d k : Text}

theorem head_of_token (hd : 8 ≤ d.length) (hnumerals : ∀ c ∈ d, isNumeral c = true) (t : Text) :
    ∀ c, (d ++ ':' :: t).head? = some c → isNumeral c = true := by
  obtain ⟨c, d, rfl⟩ := List.exists_cons_of_ne_nil (List.ne_nil_of_length_pos (by omega : 0 < d.length))
  intro c' hc'
  obtain rfl : c = c' := Option.some.inj hc'
  exact hnumerals c List.mem_cons_self

theorem digit_of_numeral (L : Letters) (h : isNumeral c = true) : L.digit c = true := by
  have hascii : c.toNat < 128 := by
    simp [isNumeral, inRange] at h
    omega
  rw [L.digit_ascii c hascii, h]

theorem word_of_tokenChar (L : Letters) (h : isTokenChar c = true) (hc : c ≠ '-') : L.word c = true := by
  have hascii : c.toNat < 128 ∧ (isLetter c || isNumeral c || c = '_') = true := by
    simp [isTokenChar, isLetter, isNumeral, inRange, char_eq_iff] at h hc ⊢
    omega
  rw [L.word_ascii c hascii.1, hascii.2]

theorem botToken_redacted (h : IsBotToken s) (hlast : s.getLast? ≠ some '-') : Redacted L Delimited s := by
  obtain ⟨d, k, rfl, hleast, hmost, hnumerals, hlength, hchars⟩ := h
  have hhead := head_of_token hleast hnumerals k
  have happart : Apart isRim isBehind (d ++ ':' :: k) :=
    apart_of_delimited fun c hc => base64_of_numeral (hhead c hc)
  have hedge : ∀ c, isBehind c = true → isEdge c = true := fun c hc => edge_of_behind hc
  have hkne : k ≠ [] := List.ne_nil_of_length_pos (by omega)
  have hword : L.word (k.getLast hkne) = true := by
    refine word_of_tokenChar L (hchars _ (List.getLast_mem hkne)) fun hminus => hlast ?_
    rw [List.getLast?_append, List.getLast?_cons, List.getLast?_eq_getLast_of_ne_nil hkne, hminus]
    rfl
  intro before after hplace
  refine not_survives_of_lost (lost_redactMarked [secretQuery, secretAssignment L, hexSecret L] _ (by simp) rfl
    (fun R hR => ?_) (frugal_of_split [secretQuery, secretAssignment L, hexSecret L] rfl) ?_
    (stands_delimited hplace))
  · simp only [List.mem_cons, List.not_mem_nil, or_false] at hR
    rcases hR with rfl | rfl | rfl
    · exact secretQuery_loosens happart
    · exact secretAssignment_loosens happart
    · exact hexSecret_loosens happart hedge
  · rintro m ⟨a, b, rfl, ha, hb, hla, hrb⟩
    obtain ⟨c, d, rfl⟩ := List.exists_cons_of_ne_nil (List.ne_nil_of_length_pos (by omega : 0 < d.length))
    refine lost_of_first tgBotToken_drops (x := []) (y := d ++ ':' :: k) rfl ha hb ?_
    refine fun hnone => first_eq_none_iff.1 hnone ([[], c :: d, [':'], k, []], b.map Prod.fst) ?_
    refine tgBotToken_mem_parse.2 ⟨c :: d, k, rfl, by simp, ⟨fun c' hc' => digit_of_numeral L (hnumerals c' hc'),
      hleast, hmost, hchars, hlength⟩, ?_, ?_⟩
    · refine isBoundary_of_left (fun z hz => ?_) (word_of_numeral L (hnumerals c List.mem_cons_self)) _
      rw [behind_none, List.append_nil, List.getLast?_map] at hz
      obtain ⟨w, hw, rfl⟩ := Option.map_eq_some_iff.1 hz
      exact word_of_edge L (edge_of_rim (hla w hw))
    · rw [behind_append_cons, behind, List.getLast?_eq_getLast_of_ne_nil hkne]
      refine isBoundary_of_right hword fun z hz => ?_
      rw [List.head?_map] at hz
      obtain ⟨w, hw, rfl⟩ := Option.map_eq_some_iff.1 hz
      exact word_of_edge L (edge_of_behind (hrb w hw))

/-- What stands before a token: nothing, or `/bot`. -/
def TokenFront (L : Letters) (p : Text) : Prop :=
  (∀ c ∈ p, c ≠ ':' ∧ c ≠ '=' ∧ isSpace c = false ∧ L.digit c = false)

theorem colon_of_token {p x y : Text} (hp : ':' ∉ p) (hnumerals : ∀ c ∈ d, isNumeral c = true)
    (hchars : ∀ c ∈ k, isTokenChar c = true) (h : p ++ (d ++ ':' :: k) = x ++ ':' :: y) : p ++ d = x ∧ k = y := by
  have hx : ':' ∉ p ++ d := by
    intro hmem
    rcases List.mem_append.1 hmem with hmem | hmem
    · exact hp hmem
    · exact absurd (hnumerals _ hmem) (by decide)
  have hy : ':' ∉ k := fun hmem => absurd (hchars _ hmem) (by decide)
  rw [← List.append_assoc] at h
  obtain ⟨hleft, -, hright⟩ := (List.append_cons_inj_of_notMem hx hy).1 h
  exact ⟨hleft, hright⟩

theorem token_untouched {p : Text} (hfront : TokenFront L p) (hleast : 8 ≤ d.length)
    (hnumerals : ∀ c ∈ d, isNumeral c = true) (hchars : ∀ c ∈ k, isTokenChar c = true) {R : Rule Char}
    (hR : R ∈ patterns L) (hhex : R ≠ hexSecret L) (htoken : R ≠ tgBotToken L) {a b : Text}
    (hab : p ++ (d ++ ':' :: k) = a ++ b) (q : List Text × Text) : R.first (behind none a) b ≠ some q := by
  obtain ⟨groups, rest⟩ := q
  intro hfirst
  have hmem := Rule.mem_parse hfirst
  have hpcolon : ':' ∉ p := fun hcolon => (hfront _ hcolon).1 rfl
  have hno : ∀ c ∈ a ++ b, c ≠ '=' ∧ isSpace c = false := by
    intro c hc
    rw [← hab] at hc
    rcases List.mem_append.1 hc with hc | hc
    · exact (hfront c hc).2.imp id And.left
    · rcases List.mem_append.1 hc with hc | hc
      · have hnumeral := hnumerals c hc
        simp [isNumeral, inRange, isSpace, char_eq_iff] at hnumeral ⊢
        omega
      · rcases List.mem_cons.1 hc with rfl | hc
        · decide
        · have hchar := hchars c hc
          simp [isTokenChar, isLetter, isNumeral, inRange, isSpace, char_eq_iff] at hchar ⊢
          omega
  simp only [patterns, List.mem_cons, List.not_mem_nil, or_false] at hR
  rcases hR with rfl | rfl | rfl | rfl | rfl | rfl | rfl
  · obtain ⟨g, v, -, rfl, hspells, -⟩ := secretQuery_mem_parse.1 hmem
    obtain ⟨w, rfl, -⟩ := secret_eq_append hspells
    exact (hno '=' (by simp)).1 rfl
  · obtain ⟨k', w₁, sign, w₂, v, -, rfl, -, hassigns, -⟩ := secretAssignment_mem_parse.1 hmem
    have hsign := hassigns.sign
    rw [isAssignment, Bool.or_eq_true, decide_eq_true_eq, decide_eq_true_eq] at hsign
    rcases hsign with rfl | rfl
    · -- The character before the colon is a numeral.
      have hsplit : p ++ (d ++ ':' :: k) = (a ++ (k' ++ w₁)) ++ ':' :: (w₂ ++ (v ++ rest)) := by
        rw [hab]
        simp
      obtain ⟨hfrontEq, -⟩ := colon_of_token hpcolon hnumerals hchars hsplit
      obtain ⟨d, x, rfl⟩ := (List.eq_nil_or_concat d).resolve_left (List.ne_nil_of_length_pos (by omega))
      have hx := hnumerals x (by simp)
      have hlast : (a ++ (k' ++ w₁)).getLast? = some x := by
        rw [← hfrontEq]
        simp
      have hne : k' ++ w₁ ≠ [] := fun hnil => hassigns.ne_nil (List.append_eq_nil_iff.1 hnil).1
      rw [List.getLast?_append, List.getLast?_eq_getLast_of_ne_nil hne] at hlast
      have hxmem : x ∈ k' ++ w₁ := by
        rw [← Option.some.inj hlast]
        exact List.getLast_mem hne
      rcases List.mem_append.1 hxmem with hxmem | hxmem
      · have hname := hassigns.nameChar hxmem
        have hglue := glue_of_numeral hx
        rw [isGlue, hname] at hglue
        cases hglue
      · have hspace := hassigns.before x hxmem
        simp [isNumeral, inRange, isSpace] at hx hspace
        omega
    · exact (hno '=' (by simp)).1 rfl
  · exact hhex rfl
  · exact htoken rfl
  · obtain ⟨b', w, v, -, rfl, -, hw, hspaces, -⟩ := bearerToken_mem_parse.1 hmem
    obtain ⟨c, w, rfl⟩ := List.exists_cons_of_ne_nil hw
    have hc := (hno c (by simp)).2
    rw [hspaces c List.mem_cons_self] at hc
    cases hc
  · obtain ⟨c, s', u, p', -, rfl, -⟩ := urlCredentials_mem_parse.1 hmem
    have hsplit : p ++ (d ++ ':' :: k) = (a ++ c :: s') ++ ':' :: ('/' :: '/' :: (u ++ ':' :: (p' ++ '@' :: rest))) := by
      rw [hab]
      simp [schemeText]
    obtain ⟨-, hk⟩ := colon_of_token hpcolon hnumerals hchars hsplit
    exact absurd (hchars '/' (by rw [hk]; exact List.mem_cons_self)) (by decide)
  · obtain ⟨k', e, -, rfl, hkey, -⟩ := wgPrivateKey_mem_parse.1 hmem
    have hpos := hkey.pad_pos
    obtain ⟨c, e, rfl⟩ := List.exists_cons_of_ne_nil (List.ne_nil_of_length_pos (by omega : 0 < e.length))
    exact (hno c (by simp)).1 (hkey.pad c List.mem_cons_self)

theorem hexWord_of_first {a b : Text} {q : List Text × Text} (h : (hexSecret L).first (behind none a) b = some q) :
    ∃ x y, b = x ++ y ∧ 32 ≤ x.length ∧ (∀ c ∈ x, isHex c = true) ∧ (∀ c ∈ a.getLast?, L.word c = false) ∧
      ∀ c ∈ y.head?, L.word c = false := by
  obtain ⟨groups, rest⟩ := q
  have hmem := Rule.mem_parse h
  obtain ⟨hlength, hhex, hboundary, hend⟩ := hexSecret_mem_parse hmem
  have happend := append_of_mem_parse hmem
  have hne : groups.flatten ≠ [] := List.ne_nil_of_length_pos (by omega)
  refine ⟨groups.flatten, rest, happend, hlength, hhex, fun c hc => ?_, fun c hc => ?_⟩
  · obtain ⟨x, t, ht⟩ := List.exists_cons_of_ne_nil hne
    have hx := word_of_hex L (hhex x (by rw [ht]; exact List.mem_cons_self))
    rw [happend, ht, behind_none, Option.mem_def.1 hc] at hboundary
    simpa [isBoundary, hx] using hboundary
  · obtain ⟨x, hx, hbehind⟩ : ∃ x ∈ groups.flatten, behind (behind none a) groups.flatten = some x := behind_eq_some hne
    have hx := word_of_hex L (hhex x hx)
    rw [hbehind] at hend
    cases rest with
    | nil => cases hc
    | cons y rest =>
      obtain rfl : y = c := Option.some.inj hc
      simpa [isBoundary, hx] using hend

theorem token_of_first {p a b : Text} {q : List Text × Text} (hp : ':' ∉ p) (hnumerals : ∀ c ∈ d, isNumeral c = true)
    (hlength : k.length = 35) (hchars : ∀ c ∈ k, isTokenChar c = true) (hab : p ++ (d ++ ':' :: k) = a ++ b)
    (h : (tgBotToken L).first (behind none a) b = some q) :
    ∃ d', p ++ d = a ++ d' ∧ b = d' ++ ':' :: k ∧ d' ≠ [] ∧ (∀ c ∈ d', L.digit c = true) ∧
      isBoundary L.word (behind none a) b = true ∧ isBoundary L.word k.getLast? [] = true := by
  obtain ⟨groups, rest⟩ := q
  obtain ⟨d', k', -, rfl, htoken, hboundary, hend⟩ := tgBotToken_mem_parse.1 (Rule.mem_parse h)
  have hsplit : p ++ (d ++ ':' :: k) = (a ++ d') ++ ':' :: (k' ++ rest) := by
    rw [hab, List.append_assoc]
  obtain ⟨hleft, rfl⟩ := colon_of_token hp hnumerals hchars hsplit
  obtain rfl : rest = [] := by
    rw [List.length_append, htoken.length] at hlength
    exact List.length_eq_zero_iff.1 (by omega)
  have hleast := htoken.atLeast
  have hkne : k' ≠ [] := List.ne_nil_of_length_pos (by rw [htoken.length]; omega)
  rw [List.append_nil] at hboundary ⊢
  refine ⟨d', hleft, rfl, List.ne_nil_of_length_pos (by omega), htoken.digits, hboundary, ?_⟩
  rw [behind_append_cons, behind, List.getLast?_eq_getLast_of_ne_nil hkne] at hend
  rw [List.getLast?_eq_getLast_of_ne_nil hkne]
  exact hend

theorem getLast?_token (hlength : k.length = 35) : (d ++ ':' :: k).getLast? = k.getLast? := by
  rw [List.getLast?_append, List.getLast?_cons]
  cases hk : k.getLast? with
  | none =>
    rw [List.getLast?_eq_none_iff.1 hk] at hlength
    cases hlength
  | some c => rfl

theorem base64_of_token (h : IsBotToken s) : ∀ c, s.head? = some c → isBase64 c = true := by
  obtain ⟨d, k, rfl, hleast, -, hnumerals, -⟩ := h
  exact fun c hc => base64_of_numeral (head_of_token hleast hnumerals k c hc)

/-- A token without a word of hexadecimal digits that ends with `-`, with nothing around it. -/
theorem botToken_survives (h : IsBotToken s) (hlast : s.getLast? = some '-') (hnoHex : ¬ HexWord L s) :
    Survives L [] s [] := by
  obtain ⟨d, k, rfl, hleast, -, hnumerals, hlength, hchars⟩ := h
  rw [getLast?_token hlength] at hlast
  rw [Survives, redactMarked_eq_self]
  · exact ⟨[], [], by simp [unmarked]⟩
  intro R hR a b hab q hfirst
  have hab' : d ++ ':' :: k = a ++ b := by
    simpa [unmarked, marked, Function.comp_def] using hab
  by_cases hhex : R = hexSecret L
  · subst hhex
    obtain ⟨x, y, rfl, hx, hxhex, hleft, hright⟩ := hexWord_of_first hfirst
    exact hnoHex ⟨a, x, y, hab', hx, hxhex, hleft, hright⟩
  by_cases htoken : R = tgBotToken L
  · subst htoken
    obtain ⟨-, -, -, -, -, -, hend⟩ := token_of_first (p := []) (by simp) hnumerals hlength hchars hab' hfirst
    rw [hlast] at hend
    rw [isBoundary, Option.any_some, L.word_ascii '-' (by decide)] at hend
    cases hend
  · exact token_untouched (p := []) (by simp [TokenFront]) hleast hnumerals hchars hR hhex htoken hab' q hfirst

/-- **A token is redacted between delimiters exactly when it does not end with `-` or holds a word of hexadecimal
digits**; another one survives already where nothing stands around it. -/
theorem botToken_redacted_iff (h : IsBotToken s) :
    (Redacted L Delimited s ↔ s.getLast? ≠ some '-' ∨ HexWord L s) ∧
      (¬ Redacted L Delimited s → Survives L [] s []) := by
  have hsurvives : ¬ (s.getLast? ≠ some '-' ∨ HexWord L s) → Survives L [] s [] := by
    intro hcon
    obtain ⟨hlast, hnoHex⟩ := not_or.1 hcon
    exact botToken_survives h (not_not.1 hlast) hnoHex
  have hiff : Redacted L Delimited s ↔ s.getLast? ≠ some '-' ∨ HexWord L s := by
    constructor
    · intro hredacted
      by_contra hcon
      exact hredacted [] [] ⟨by simp, by simp⟩ (hsurvives hcon)
    · rintro (hlast | hword)
      · exact botToken_redacted h hlast
      · exact redacted_of_hexWord (base64_of_token h) hword
  exact ⟨hiff, fun hnot => hsurvives fun hcond => hnot (hiff.2 hcond)⟩

/-- A token of capitals. -/
def dashToken : Text := "12345678:".toList ++ List.replicate 34 'A' ++ ['-']

theorem botToken_redacted_iff_dash :
    (Redacted .ascii Delimited dashToken ↔ dashToken.getLast? ≠ some '-' ∨ HexWord .ascii dashToken) ∧
      (¬ Redacted .ascii Delimited dashToken → Survives .ascii [] dashToken []) :=
  botToken_redacted_iff
    ⟨"12345678".toList, List.replicate 34 'A' ++ ['-'], by decide, by decide, by decide, List.all_eq_true.1 (by decide),
      by decide, List.all_eq_true.1 (by decide)⟩

/-- **Behind `/bot` a token is redacted exactly when it holds a word of hexadecimal digits.** -/
theorem botToken_inUrl_redacted_iff (h : IsBotToken s) : Redacted L InBotUrl s ↔ HexWord L s := by
  obtain ⟨d, k, rfl, hleast, hmost, hnumerals, hlength, hchars⟩ := h
  constructor
  · intro hredacted
    by_contra hnoHex
    have hfront : TokenFront L "/bot".toList := by
      intro c hc
      have hall : ("/bot".toList.all fun c => c.toNat < 128 && c != ':' && c != '=' && !isSpace c && !isNumeral c) =
        true := by decide
      have hc := List.all_eq_true.1 hall c hc
      simp only [Bool.and_eq_true, decide_eq_true_eq, bne_iff_ne, Bool.not_eq_true'] at hc
      exact ⟨hc.1.1.1.2, hc.1.1.2, hc.1.2, by rw [L.digit_ascii c hc.1.1.1.1]; exact hc.2⟩
    refine hredacted "/bot".toList [] ⟨⟨[], rfl⟩, by simp⟩ ?_
    rw [Survives, redactMarked_eq_self]
    · exact ⟨unmarked "/bot".toList, [], by simp [unmarked]⟩
    intro R hR a b hab q hfirst
    have hab' : "/bot".toList ++ (d ++ ':' :: k) = a ++ b := by
      simpa [unmarked, marked, Function.comp_def] using hab
    by_cases hhex : R = hexSecret L
    · subst hhex
      obtain ⟨x, y, rfl, hx, hxhex, hleft, hright⟩ := hexWord_of_first hfirst
      rcases List.append_eq_append_iff.1 hab' with ⟨a', rfl, hs⟩ | ⟨b', hbot, hs⟩
      · refine hnoHex ⟨a', x, y, hs, hx, hxhex, fun c hc => hleft c ?_, hright⟩
        rw [List.getLast?_append, Option.mem_def.1 hc]
        rfl
      · -- The digits cannot begin in the front, which ends with `t`.
        have hb' : b' = [] := by
          by_contra hne
          have hshort : b'.length ≤ 4 := by
            have hfour := congrArg List.length hbot
            rw [List.length_append] at hfour
            exact (Nat.le_add_left _ _).trans_eq hfour.symm
          have hinitial : b' <+: x := by
            have hwhole : b' <+: x ++ y := ⟨_, hs.symm⟩
            exact List.prefix_of_prefix_length_le hwhole (List.prefix_append x y) (by omega)
          have hlast : b'.getLast? = some 't' := by
            have hlastBot := congrArg List.getLast? hbot
            rw [List.getLast?_append, List.getLast?_eq_getLast_of_ne_nil hne] at hlastBot
            rw [List.getLast?_eq_getLast_of_ne_nil hne]
            exact hlastBot.symm
          exact absurd (hxhex 't' (hinitial.subset (List.mem_of_mem_getLast? hlast))) (by decide)
        subst hb'
        exact hnoHex ⟨[], x, y, hs.symm, hx, hxhex, by simp, hright⟩
    by_cases htoken : R = tgBotToken L
    · subst htoken
      obtain ⟨d', hleft, rfl, hne, hdigits, hboundary, -⟩ :=
        token_of_first (p := "/bot".toList) (by decide) hnumerals hlength hchars hab' hfirst
      obtain ⟨x, d', rfl⟩ := List.exists_cons_of_ne_nil hne
      have hx := L.word_of_digit x (hdigits x List.mem_cons_self)
      -- No boundary is before the number: a letter or a digit is.
      obtain ⟨a', rfl, ha'⟩ : ∃ a', a = "/bot".toList ++ a' ∧ ∀ c ∈ a', isNumeral c = true := by
        rcases List.append_eq_append_iff.1 hleft with ⟨a', rfl, hd⟩ | ⟨b', hbot, hd'⟩
        · exact ⟨a', rfl, fun c hc => hnumerals c (by rw [hd]; exact List.mem_append_left _ hc)⟩
        · cases b' with
          | nil => exact ⟨[], by rw [List.append_nil, hbot, List.append_nil], by simp⟩
          | cons y b' =>
            obtain ⟨rfl, -⟩ := List.cons.inj hd'
            have hdigit := (hfront x (by rw [hbot]; simp)).2.2.2
            rw [hdigits x List.mem_cons_self] at hdigit
            cases hdigit
      have hword : ∃ c, ("/bot".toList ++ a').getLast? = some c ∧ L.word c = true := by
        by_cases hnil : a' = []
        · subst hnil
          exact ⟨'t', rfl, by rw [L.word_ascii 't' (by decide)]; rfl⟩
        · refine ⟨a'.getLast hnil, ?_, word_of_numeral L (ha' _ (List.getLast_mem hnil))⟩
          rw [List.getLast?_append, List.getLast?_eq_getLast_of_ne_nil hnil]
          rfl
      obtain ⟨c, hlast, hc⟩ := hword
      rw [behind_none, hlast] at hboundary
      simp [isBoundary, hc, hx] at hboundary
    · exact token_untouched hfront hleast hnumerals hchars hR hhex htoken hab' q hfirst
  · rintro ⟨x, h, y, hs, hlen, hhex, hx, hy⟩
    have happart : Apart (fun _ => true) isBehindUrl (d ++ ':' :: k) :=
      apart_of_numeral (head_of_token hleast hnumerals k)
    intro before after hplace
    refine not_survives_of_lost (lost_by_hexSecret happart hs hlen hhex hx hy ?_ ?_ (stands_inBotUrl hplace))
    · rintro rfl
      -- The colon would be a hexadecimal digit.
      have hinitial : d ++ [':'] <+: h := by
        have hwhole : d ++ [':'] <+: d ++ ':' :: k := ⟨k, by simp⟩
        refine List.prefix_of_prefix_length_le hwhole ⟨y, hs.symm⟩ ?_
        rw [List.length_append, List.length_singleton]
        omega
      exact absurd (hhex ':' (hinitial.subset (by simp))) (by decide)
    · intro c hc
      rw [isBehindUrl, Bool.or_eq_true, decide_eq_true_eq] at hc
      rcases hc with hc | rfl
      · exact word_of_edge L (edge_of_behind hc)
      · rw [L.word_ascii '/' (by decide)]
        rfl

end BotToken

theorem botToken_inUrl_redacted_iff_letters :
    Redacted .ascii InBotUrl ("12345678:".toList ++ List.replicate 35 'A') ↔
      HexWord .ascii ("12345678:".toList ++ List.replicate 35 'A') :=
  botToken_inUrl_redacted_iff
    ⟨"12345678".toList, List.replicate 35 'A', by decide, by decide, by decide, List.all_eq_true.1 (by decide),
      by decide, List.all_eq_true.1 (by decide)⟩

/-! ### Keys -/

theorem wgKey_redacted (h : IsWgKey s) (hplus : s.head? ≠ some '+') (hslash : s.head? ≠ some '/') :
    Redacted L Delimited s := by
  obtain ⟨k, rfl, hlength, hchars⟩ := h
  obtain ⟨c, k, rfl⟩ := List.exists_cons_of_ne_nil (List.ne_nil_of_length_pos (by omega : 0 < k.length))
  have hc := hchars c List.mem_cons_self
  have hword : L.word c = true := by
    simp only [isBase64, Bool.or_eq_true, decide_eq_true_eq] at hc
    rcases hc with ((hc | hc) | rfl) | rfl
    · exact word_of_letterCaseless L (by rw [isLetterCaseless, hc]; rfl)
    · exact word_of_numeral L hc
    · exact absurd rfl hplus
    · exact absurd rfl hslash
  have happart : Apart isRim isBehindKey (c :: k ++ ['=']) := by
    refine apart_of_key (fun c' hc' => ?_) List.getLast?_concat
    obtain rfl : c = c' := Option.some.inj hc'
    exact hc
  have hedge : ∀ c, isBehindKey c = true → isEdge c = true := fun c hc => edge_of_behindKey hc
  intro before after hplace
  refine not_survives_of_lost (lost_redactMarked
    [secretQuery, secretAssignment L, hexSecret L, tgBotToken L, bearerToken L, urlCredentials] _ (by simp) rfl
    (fun R hR => ?_)
    (frugal_of_split [secretQuery, secretAssignment L, hexSecret L, tgBotToken L, bearerToken L, urlCredentials] rfl)
    ?_ (stands_delimitedKey hplace))
  · simp only [List.mem_cons, List.not_mem_nil, or_false] at hR
    rcases hR with rfl | rfl | rfl | rfl | rfl | rfl
    · exact secretQuery_loosens happart
    · exact secretAssignment_loosens happart
    · exact hexSecret_loosens happart hedge
    · exact tgBotToken_loosens happart hedge
    · exact bearerToken_loosens happart hedge
    · refine urlCredentials_loosens L happart hedge fun x c' hx _ hurl => ?_
      rw [url_of_rim hx] at hurl
      cases hurl
  · rintro m ⟨a, b, rfl, ha, hb, hla, hrb⟩
    refine lost_of_first wgPrivateKey_drops (x := []) (y := k ++ ['=']) rfl ha hb ?_
    refine fun hnone => first_eq_none_iff.1 hnone ([[], c :: k, ['='], []], b.map Prod.fst) ?_
    refine wgPrivateKey_mem_parse.2 ⟨c :: k, ['='], rfl, by simp, ⟨hchars, hlength, by simp, le_rfl, by simp⟩, ?_, ?_⟩
    · refine isBoundary_of_left (fun z hz => ?_) hword _
      rw [behind_none, List.append_nil, List.getLast?_map] at hz
      obtain ⟨w, hw, rfl⟩ := Option.map_eq_some_iff.1 hz
      exact word_of_edge L (edge_of_rim (hla w hw))
    · cases b with
      | nil => rfl
      | cons w b => exact base64OrPad_of_behindKey (hrb w rfl)

/-- **A key is redacted between delimiters exactly when it does not begin with `+` or `/`, or holds a word of
hexadecimal digits.** -/
theorem wgKey_redacted_iff (h : IsWgKey s) :
    Redacted L Delimited s ↔ (s.head? ≠ some '+' ∧ s.head? ≠ some '/') ∨ HexWord L s := by
  have hbase64 : ∀ c, s.head? = some c → isBase64 c = true := by
    obtain ⟨k, rfl, hlength, hchars⟩ := h
    obtain ⟨x, k, rfl⟩ := List.exists_cons_of_ne_nil (List.ne_nil_of_length_pos (by omega : 0 < k.length))
    intro c hc
    obtain rfl : x = c := Option.some.inj hc
    exact hchars x List.mem_cons_self
  constructor
  · intro hredacted
    by_contra hcon
    obtain ⟨hhead, hnoHex⟩ := not_or.1 hcon
    obtain ⟨k, rfl, hlength, hchars⟩ := h
    have hpad : '=' ∉ k := fun hmem => absurd (hchars _ hmem) (by decide)
    have hno : ∀ c ∈ k ++ ['='], c ≠ ':' ∧ isSpace c = false := by
      intro c hc
      rcases List.mem_append.1 hc with hc | hc
      · have hchar := hchars c hc
        simp [isBase64, isLetter, isNumeral, inRange, isSpace, char_eq_iff] at hchar ⊢
        omega
      · rw [List.mem_singleton.1 hc]
        decide
    -- Nothing is behind an equals sign.
    have hend : ∀ {x y : Text}, k ++ ['='] = x ++ '=' :: y → y = [] := fun heq =>
      ((List.append_cons_inj_of_notMem hpad (by simp)).1 heq).2.2.symm
    refine hredacted [] [] ⟨by simp, by simp⟩ ?_
    rw [Survives, redactMarked_eq_self]
    · exact ⟨[], [], by simp [unmarked]⟩
    intro R hR a b hab q hfirst
    have hab' : k ++ ['='] = a ++ b := by
      simpa [unmarked, marked, Function.comp_def] using hab
    rw [hab'] at hno
    obtain ⟨groups, rest⟩ := q
    have hmem := Rule.mem_parse hfirst
    simp only [patterns, List.mem_cons, List.not_mem_nil, or_false] at hR
    rcases hR with rfl | rfl | rfl | rfl | rfl | rfl | rfl
    · obtain ⟨g, v, -, rfl, hspells, hv, -⟩ := secretQuery_mem_parse.1 hmem
      obtain ⟨w, rfl, -⟩ := secret_eq_append hspells
      have hnil := hend (x := a ++ w) (y := v ++ rest) (by rw [hab']; simp)
      exact hv (List.append_eq_nil_iff.1 hnil).1
    · obtain ⟨k', w₁, sign, w₂, v, -, rfl, -, hassigns, hv, -⟩ := secretAssignment_mem_parse.1 hmem
      have hsign := hassigns.sign
      rw [isAssignment, Bool.or_eq_true, decide_eq_true_eq, decide_eq_true_eq] at hsign
      rcases hsign with rfl | rfl
      · exact (hno ':' (by simp)).1 rfl
      · have hnil := hend (x := a ++ (k' ++ w₁)) (y := w₂ ++ (v ++ rest)) (by rw [hab']; simp)
        exact hv (List.append_eq_nil_iff.1 (List.append_eq_nil_iff.1 hnil).2).1
    · obtain ⟨x, y, rfl, hx, hxhex, hleft, hright⟩ := hexWord_of_first hfirst
      exact hnoHex ⟨a, x, y, hab', hx, hxhex, hleft, hright⟩
    · obtain ⟨d, k', -, rfl, -⟩ := tgBotToken_mem_parse.1 hmem
      exact (hno ':' (by simp)).1 rfl
    · obtain ⟨b', w, v, -, rfl, -, hw, hspaces, -⟩ := bearerToken_mem_parse.1 hmem
      obtain ⟨c, w, rfl⟩ := List.exists_cons_of_ne_nil hw
      have hc := (hno c (by simp)).2
      rw [hspaces c List.mem_cons_self] at hc
      cases hc
    · obtain ⟨c, s', u, p', -, rfl, -⟩ := urlCredentials_mem_parse.1 hmem
      exact (hno ':' (by simp [schemeText])).1 rfl
    · -- The match is the whole key, which begins with no letter of words.
      obtain ⟨k', e, -, rfl, hkey, hboundary, -⟩ := wgPrivateKey_mem_parse.1 hmem
      have hsum := congrArg List.length hab'
      have hpos := hkey.pad_pos
      simp only [List.length_append, List.length_singleton, hkey.length, hlength] at hsum
      obtain rfl : a = [] := List.length_eq_zero_iff.1 (by omega)
      obtain ⟨x, k, rfl⟩ := List.exists_cons_of_ne_nil (List.ne_nil_of_length_pos (by omega : 0 < k.length))
      rw [← show x :: k ++ ['='] = k' ++ (e ++ rest) from hab'] at hboundary
      have hword : L.word x = false := by
        by_cases hplus : x = '+'
        · rw [hplus, L.word_ascii '+' (by decide)]
          rfl
        by_cases hslash : x = '/'
        · rw [hslash, L.word_ascii '/' (by decide)]
          rfl
        exact absurd ⟨fun heq => hplus (Option.some.inj heq), fun heq => hslash (Option.some.inj heq)⟩ hhead
      simp [isBoundary, hword] at hboundary
  · rintro (⟨hplus, hslash⟩ | hword)
    · exact wgKey_redacted h hplus hslash
    · exact redacted_of_hexWord hbase64 hword

theorem wgKey_redacted_iff_plus :
    Redacted .ascii Delimited ('+' :: List.replicate 42 'A' ++ ['=']) ↔
      (('+' :: List.replicate 42 'A' ++ ['=']).head? ≠ some '+' ∧
          ('+' :: List.replicate 42 'A' ++ ['=']).head? ≠ some '/') ∨
        HexWord .ascii ('+' :: List.replicate 42 'A' ++ ['=']) :=
  wgKey_redacted_iff ⟨'+' :: List.replicate 42 'A', rfl, by decide, List.all_eq_true.1 (by decide)⟩

end VpnBot.Redaction
