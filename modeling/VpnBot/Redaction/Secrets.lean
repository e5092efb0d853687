import VpnBot.Redaction.Marks

/-!
# Which secrets are redacted

The occurrences of keys, hexadecimal secrets and bot tokens that are delimited on both sides.  A hexadecimal secret is
always redacted.  The patterns for keys and tokens ask for a word boundary at either end, where a key that begins with
`+` or `/`, a token that ends with `-` and a token behind `/bot` have none; such a secret is only redacted where it
holds a word of hexadecimal digits, which the third pattern takes.
-/

namespace VpnBot.Redaction

open Py Patterns

variable {L : Letters} {R : Rule Char} {s : Text} {l r : Char → Bool} {c : Char} {m : Marked}

/-! ### Secrets -/

/-- A key of WireGuard: 44 characters of base64. -/
def IsWgKey (s : Text) : Prop := ∃ k, s = k ++ ['='] ∧ k.length = 43 ∧ ∀ c ∈ k, isBase64 c = true

/-- At least 32 hexadecimal digits; `dd` before them are digits too. -/
def IsHexSecret (s : Text) : Prop := 32 ≤ s.length ∧ ∀ c ∈ s, isHex c = true

/-- The token of a bot: the number, a colon and 35 characters. -/
def IsBotToken (s : Text) : Prop :=
  ∃ d k, s = d ++ ':' :: k ∧ 8 ≤ d.length ∧ d.length ≤ 12 ∧ (∀ c ∈ d, isNumeral c = true) ∧ k.length = 35 ∧
    ∀ c ∈ k, isTokenChar c = true

/-- A word of at least 32 hexadecimal digits in a text. -/
def HexWord (L : Letters) (s : Text) : Prop :=
  ∃ x h y, s = x ++ (h ++ y) ∧ 32 ≤ h.length ∧ (∀ c ∈ h, isHex c = true) ∧
    (∀ c ∈ x.getLast?, L.word c = false) ∧ ∀ c ∈ y.head?, L.word c = false

/-- A quote, single or double. -/
def isQuote (c : Char) : Bool := c.toNat = 34 || c.toNat = 39

def isDelimiter (c : Char) : Bool := isSpace c || isQuote c

/-- The occurrence is delimited on both sides. -/
def Delimited (before after : Text) : Prop :=
  (∀ c ∈ before.getLast?, isDelimiter c = true) ∧ ∀ c ∈ after.head?, isDelimiter c = true

/-- The occurrence follows `/bot`, and the path goes on or the text is delimited. -/
def InBotUrl (before after : Text) : Prop :=
  (∃ a, before = a ++ "/bot".toList) ∧ ∀ c ∈ after.head?, isDelimiter c = true ∨ c = '/'

/-- The occurrence survives: its characters are there, side by side. -/
def Survives (L : Letters) (before s after : Text) : Prop :=
  marked s <:+: redactMarked L (unmarked before ++ (marked s ++ unmarked after))

/-- **No occurrence of a secret in such a place survives.** -/
def Redacted (L : Letters) (place : Text → Text → Prop) (s : Text) : Prop :=
  ∀ before after, place before after → ¬ Survives L before s after

/-- **Nothing of an occurrence of a secret in such a place is left.** -/
def Erased (L : Letters) (place : Text → Text → Prop) (s : Text) : Prop :=
  ∀ before after, place before after → marks (redactMarked L (unmarked before ++ (marked s ++ unmarked after))) = 0

/-! ### Characters around an occurrence -/

/-- What stands at the edge of an occurrence: a delimiter, or what a replacement begins or ends with. -/
def isEdge (c : Char) : Bool := isDelimiter c || c = '*' || c = '@' || c = ':' || c = '='

theorem word_of_edge (L : Letters) (h : isEdge c = true) : L.word c = false := by
  by_cases hspace : isSpace c = true
  · exact L.word_of_space c hspace
  · have hascii : c.toNat < 128 ∧ (isLetter c || isNumeral c || c = '_') = false := by
      simp [isEdge, isDelimiter, hspace, isQuote, char_eq_iff, isLetter, isNumeral, inRange] at h ⊢
      omega
    rw [L.word_ascii c hascii.1, hascii.2]

theorem first_of_edge (hR : R ∈ patterns L) (h : isEdge c = true) (left : Option Char) (t : Text) :
    R.first left (c :: t) = none := by
  cases hfirst : R.first left (c :: t) with
  | none => rfl
  | some m =>
    rcases word_of_first hR hfirst with hword | rfl | rfl
    · rw [word_of_edge L h] at hword
      cases hword
    · exact absurd h (by decide)
    · exact absurd h (by decide)

/-! ### The patterns and an occurrence -/

/-- What the first two patterns keep of a match is made up of these. -/
def isGlue (c : Char) : Bool := isNameChar c || isAssignment c

/-- Around an occurrence nothing of it is glued to what is kept of a match of the first two patterns. -/
structure Apart (l r : Char → Bool) (s : Text) : Prop where
  left : l '*' = true ∧ l '@' = true
  star : r '*' = true
  name : ∀ c, r c = true → isNameChar c = false
  glue : ∀ x c, l x = true → s.head? = some c → isGlue x = true → isGlue c = false
  head : ∀ c, s.head? = some c → isAssignment c = false
  sign : (∀ c, isAssignment c = true → r c = true) ∨ ∀ c ∈ s.getLast?, isNameChar c = false

theorem secretQuery_first_of_not_nameChar (h : isNameChar c = false) (left : Option Char) (t : Text) :
    secretQuery.first left (c :: t) = none := by
  cases hfirst : secretQuery.first left (c :: t) with
  | none => rfl
  | some m =>
    obtain ⟨g, v, -, ht, hspells, -⟩ := secretQuery_mem_parse.1 (@Rule.mem_parse _ _ _ _ m.2 m.1 hfirst)
    obtain ⟨c', g', rfl, hletter⟩ := head_of_secret hspells
    obtain ⟨rfl, -⟩ := List.cons.inj ht
    rw [isNameChar, hletter] at h
    cases h

theorem secretAssignment_first_of_not_nameChar (h : isNameChar c = false) (left : Option Char) (t : Text) :
    (secretAssignment L).first left (c :: t) = none := by
  cases hfirst : (secretAssignment L).first left (c :: t) with
  | none => rfl
  | some m =>
    obtain ⟨k, w₁, sign, w₂, v, -, ht, -, hassigns, -⟩ :=
      secretAssignment_mem_parse.1 (@Rule.mem_parse _ _ _ _ m.2 m.1 hfirst)
    obtain ⟨c', k', rfl⟩ := List.exists_cons_of_ne_nil hassigns.ne_nil
    obtain ⟨rfl, -⟩ := List.cons.inj ht
    rw [hassigns.nameChar List.mem_cons_self] at h
    cases h

theorem glue_of_secret {g : Text} (h : Spells (caselessWord "secret=") g) (hc : c ∈ g) : isGlue c = true := by
  rw [isGlue, Bool.or_eq_true, isNameChar, Bool.or_eq_true, isAssignment, Bool.or_eq_true, decide_eq_true_eq,
    decide_eq_true_eq, decide_eq_true_eq]
  rcases char_of_secret h hc with hc | hc
  · exact .inl (.inl hc)
  · exact .inr (.inr hc)

theorem secretQuery_keeps : KeepsBeginning isGlue secretQuery := by
  intro left t groups rest hmatch
  obtain ⟨g, v, hgroups, -, hspells, hv, -⟩ := secretQuery_of_first (first_of_marking hmatch)
  obtain ⟨G, V, rfl, rfl, rfl⟩ : ∃ G V : Marked, groups = [G, V] ∧ G.map Prod.fst = g ∧ V.map Prod.fst = v := by
    simpa [List.map_eq_cons_iff] using hgroups
  refine ⟨G, V, ['*', '*'], by simp, ?_, fun hnil => hv (by rw [hnil]; rfl), fun x hx => ?_⟩
  · show G ++ (unmarked stars ++ []) = _
    rw [List.append_nil]
    rfl
  · exact glue_of_secret hspells (List.mem_map_of_mem hx)

theorem secretQuery_loosens (h : Apart l r s) : Loosens l r s secretQuery :=
  secretQuery_keeps.loosens (@endsIn_of_template _ _ [.group 0] ['*', '*'] '*' h.left.1 rfl)
    (fun left c t hc => secretQuery_first_of_not_nameChar (h.name c hc) left t) h.glue h.star

theorem assignment_groups {left : Option (Char × Bool)} {t rest : Marked} {groups : List Marked}
    (hmatch : (marking (secretAssignment L)).first left t = some (groups, rest)) :
    ∃ k w₁ sign w₂ v, groups.flatten = k ++ (w₁ ++ sign :: (w₂ ++ v)) ∧
      put (secretAssignment L) groups = k ++ (sign :: unmarked stars) ∧ (∀ x ∈ k, isNameChar x.1 = true) ∧ k ≠ [] ∧
      isAssignment sign.1 = true ∧ v ≠ [] ∧ (∀ x ∈ w₁ ++ w₂, isSpace x.1 = true) ∧
      (rest.map Prod.fst).head?.any isAssignedValue = false ∧
      ∃ name ∈ secretNames, Spells (caselessWord name) (k.map Prod.fst) := by
  obtain ⟨k, w₁, sign, w₂, v, hgroups, -, -, hassigns, hv, -, hrest⟩ :=
    secretAssignment_of_first (first_of_marking hmatch)
  obtain ⟨K, W₁, S, W₂, V, rfl, rfl, rfl, hsign, rfl, rfl⟩ : ∃ K W₁ S W₂ V : Marked,
      groups = [[], K, W₁, S, W₂, V] ∧ K.map Prod.fst = k ∧ W₁.map Prod.fst = w₁ ∧ S.map Prod.fst = [sign] ∧
        W₂.map Prod.fst = w₂ ∧ V.map Prod.fst = v := by
    simpa [List.map_eq_cons_iff] using hgroups
  obtain ⟨sign', S, rfl, rfl, hnil⟩ := List.map_eq_cons_iff.1 hsign
  obtain rfl := List.map_eq_nil_iff.1 hnil
  refine ⟨K, W₁, sign', W₂, V, by simp, ?_, fun x hx => hassigns.nameChar (List.mem_map_of_mem hx), ?_,
    hassigns.sign, fun hnil => hv (by rw [hnil]; rfl), fun x hx => ?_, hrest, hassigns.name⟩
  · simp [put, expand, marking, Rule.comap, secretAssignment, Piece.map, unmarked]
  · exact fun hnil => hassigns.ne_nil (by rw [hnil]; rfl)
  · rcases List.mem_append.1 hx with hx | hx
    · exact hassigns.before _ (List.mem_map_of_mem hx)
    · exact hassigns.behind _ (List.mem_map_of_mem hx)

theorem secretAssignment_frugal : Frugal (secretAssignment L) := by
  intro left t groups rest hmatch
  obtain ⟨k, w₁, sign, w₂, v, hflatten, hput, -⟩ := assignment_groups hmatch
  rw [hflatten, hput]
  simp only [marks_append, marks_cons, marks_unmarked]
  omega

theorem secretAssignment_loosens (h : Apart l r s) : Loosens l r s (secretAssignment L) where
  frugal := secretAssignment_frugal
  ends := @endsIn_of_template _ _ [.group 1, .group 3] ['*', '*'] '*' h.left.1 rfl
  start := fun left c t hc => secretAssignment_first_of_not_nameChar (h.name c hc) left t
  within := by
    intro left t groups rest p hmatch hp
    obtain ⟨k, w₁, sign, w₂, v, hflatten, hput, -, -, -, hv, -⟩ := assignment_groups hmatch
    have hpos : 0 < marks v := by
      refine marked_ne_nil_marks (m := k ++ (w₁ ++ sign :: w₂)) (hp.symm.trans (hflatten.trans ?_)) hv
      simp
    rw [hflatten, hput]
    simp only [marks_append, marks_cons, marks_unmarked]
    omega
  across := by
    intro left t groups rest d₁ x y c d₂ hmatch hd hs hl
    obtain ⟨k, w₁, sign, w₂, v, hflatten, hput, hname, -, hsign, -⟩ := assignment_groups hmatch
    -- The first character of the occurrence is no part of the name, and not the sign: it is dropped.
    have hmem : (c, true) ∈ w₁ ++ sign :: (w₂ ++ v) := by
      rw [hd, ← List.singleton_append, ← List.append_assoc] at hflatten
      rcases List.append_eq_append_iff.1 hflatten with ⟨a, hk, hv⟩ | ⟨a, -, hv⟩
      · cases a with
        | nil =>
          rw [← show (c, true) :: d₂ = w₁ ++ sign :: (w₂ ++ v) from hv]
          exact List.mem_cons_self
        | cons z a =>
          obtain ⟨rfl, -⟩ := List.cons.inj hv
          have hx : isGlue x = true := by
            rw [isGlue, hname (x, y) (by rw [hk]; simp)]
            rfl
          have hc := hname (c, true) (by rw [hk]; simp)
          have hnot := h.glue x c hl hs hx
          rw [isGlue, hc] at hnot
          cases hnot
      · rw [hv]
        simp
    have hpos : 0 < marks w₁ + (marks w₂ + marks v) := by
      rw [← marks_append, ← marks_append]
      refine List.countP_pos_iff.2 ⟨(c, true), ?_, rfl⟩
      rcases List.mem_append.1 hmem with hmem | hmem
      · exact List.mem_append_left _ hmem
      · rcases List.mem_cons.1 hmem with rfl | hmem
        · exact absurd hsign (by rw [h.head c hs]; exact Bool.false_ne_true)
        · exact List.mem_append_right _ hmem
    rw [hflatten, hput]
    simp only [marks_append, marks_cons, marks_unmarked]
    omega
  beyond := by
    intro left t groups rest x y d₂ p q hmatch hd hmarks hs hp hr
    obtain ⟨k, w₁, sign, w₂, v, hflatten, hput, hname, hk, hsign, hv, -⟩ := assignment_groups hmatch
    have hlast : k = marked p → ∃ z ∈ s.getLast?, isNameChar z = true := by
      rintro rfl
      have hne : p ≠ [] := hp
      refine ⟨p.getLast hne, ?_, hname _ (List.mem_map_of_mem (List.getLast_mem hne))⟩
      rw [hs, List.getLast?_append, List.getLast?_eq_getLast_of_ne_nil hne]
      rfl
    have hafter : k = marked p → r sign.1 = true := by
      intro hkp
      rcases h.sign with hr | hno
      · exact hr _ hsign
      · obtain ⟨z, hz, hzname⟩ := hlast hkp
        rw [hno z hz] at hzname
        cases hzname
    have hexact : k = marked p → marks (sign :: (w₂ ++ v)) = 0 →
        marks (put (secretAssignment L) groups) < marks groups.flatten ∨
        ∃ o, put (secretAssignment L) groups = marked p ++ o ∧ marks o = 0 ∧ o ≠ [] ∧ ∀ z ∈ o.head?, r z.1 = true := by
      intro hkp hzero
      refine .inr ⟨sign :: unmarked stars, by rw [hput, hkp], ?_, List.cons_ne_nil _ _, fun z hz => ?_⟩
      · simp only [marks_cons, marks_unmarked] at hzero ⊢
        omega
      · obtain rfl : sign = z := Option.some.inj hz
        exact hafter hkp
    rcases List.append_eq_append_iff.1 (hd.symm.trans hflatten) with ⟨a, hka, hrest⟩ | ⟨a, hpa, hrest⟩
    · have hzero : marks a = 0 ∧ marks (sign :: (w₂ ++ v)) = 0 := by
        rw [hrest] at hmarks
        simp only [marks_append] at hmarks
        omega
      cases a with
      | nil => exact hexact (by rw [hka, List.append_nil]) hzero.2
      | cons z a =>
        obtain ⟨rfl, -⟩ := List.cons.inj hrest
        refine .inr ⟨(x, y) :: a ++ sign :: unmarked stars, by rw [hput, hka, List.append_assoc], ?_,
          List.cons_ne_nil _ _, fun z hz => ?_⟩
        · have hzero' := hzero.2
          simp only [marks_append, marks_cons, marks_unmarked] at hzero hzero' ⊢
          omega
        · obtain rfl : (x, y) = z := Option.some.inj hz
          exact hr
    · obtain ⟨p₁, p₂, rfl, hp₁, rfl⟩ := List.map_eq_append_iff.1 hpa
      cases p₂ with
      | nil =>
        refine hexact (by rw [← hp₁, List.append_nil]; rfl) ?_
        rw [← show w₁ ++ sign :: (w₂ ++ v) = (x, y) :: d₂ from hrest] at hmarks
        rw [marks_append] at hmarks
        omega
      | cons z p₂ =>
        cases w₁ with
        | cons z' w₁ =>
          obtain ⟨rfl, -⟩ := List.cons.inj hrest
          refine .inl ?_
          rw [hflatten, hput]
          simp only [marks_append, marks_cons, marks_unmarked, if_true]
          omega
        | nil =>
          obtain ⟨rfl, htail⟩ := List.cons.inj hrest
          cases p₂ with
          | nil =>
            refine .inr ⟨unmarked stars, ?_, marks_unmarked stars, List.cons_ne_nil _ _, fun w hw => ?_⟩
            · rw [hput, ← hp₁]
              simp [marked]
            · obtain rfl : ('*', false) = w := Option.some.inj hw
              exact h.star
          | cons z' p₂ =>
            refine .inl ?_
            have hpos : 0 < marks (w₂ ++ v) := by
              have hcons : w₂ ++ v = (z', true) :: (marked p₂ ++ (x, y) :: d₂) := htail
              rw [hcons, marks_cons, if_pos rfl]
              exact Nat.succ_pos _
            rw [hflatten, hput]
            simp only [marks_append, marks_cons, marks_unmarked] at hpos ⊢
            omega

theorem hexSecret_drops : DropsAll (hexSecret L) := ⟨_, rfl⟩

theorem tgBotToken_drops : DropsAll (tgBotToken L) := ⟨_, rfl⟩

theorem bearerToken_drops : DropsAll (bearerToken L) := ⟨_, rfl⟩

theorem wgPrivateKey_drops : DropsAll (wgPrivateKey L) := ⟨_, rfl⟩

/-- A pattern of whose matches nothing is kept, and an occurrence with an edge behind it. -/
theorem dropsAll_loosens (hmem : R ∈ patterns L) (hdrops : DropsAll R) (hends : EndsIn l R)
    (hedge : ∀ c, r c = true → isEdge c = true) : Loosens l r s R :=
  hdrops.loosens hends fun left c t hc => first_of_edge hmem (hedge c hc) left t

theorem endsIn_stars (hl : l '*' = true) (h : R.template = [.literal stars]) : EndsIn l R :=
  @endsIn_of_template _ _ [] ['*', '*'] '*' hl h

theorem hexSecret_loosens (h : Apart l r s) (hedge : ∀ c, r c = true → isEdge c = true) :
    Loosens l r s (hexSecret L) :=
  dropsAll_loosens (L := L) (by simp [patterns]) hexSecret_drops (endsIn_stars h.left.1 rfl) hedge

theorem tgBotToken_loosens (h : Apart l r s) (hedge : ∀ c, r c = true → isEdge c = true) :
    Loosens l r s (tgBotToken L) :=
  dropsAll_loosens (L := L) (by simp [patterns]) tgBotToken_drops (endsIn_stars h.left.1 rfl) hedge

theorem bearerToken_loosens (h : Apart l r s) (hedge : ∀ c, r c = true → isEdge c = true) :
    Loosens l r s (bearerToken L) :=
  dropsAll_loosens (L := L) (by simp [patterns]) bearerToken_drops
    (@endsIn_of_template _ _ [] ("Bearer ".toList ++ ['*', '*']) '*' h.left.1 rfl) hedge

/-- The scheme of an URL with the slashes is made up of these. -/
def isUrlChar (c : Char) : Bool := isSchemeChar c || c = ':' || c = '/'

theorem urlCredentials_keeps : KeepsBeginning isUrlChar urlCredentials := by
  intro left t groups rest hmatch
  obtain ⟨c, s, u, p, hgroups, -, hurl⟩ := urlCredentials_mem_parse.1 (Rule.mem_parse (first_of_marking hmatch))
  obtain ⟨C, S, D, U, E, P, A, rfl, hC, rfl, hD, rfl, hE, rfl, hA⟩ : ∃ C S D U E P A : Marked,
      groups = [C, S, D, U, E, P, A] ∧ C.map Prod.fst = [c] ∧ S.map Prod.fst = s ∧ D.map Prod.fst = "://".toList ∧
        U.map Prod.fst = u ∧ E.map Prod.fst = [':'] ∧ P.map Prod.fst = p ∧ A.map Prod.fst = ['@'] := by
    simpa [List.map_eq_cons_iff] using hgroups
  refine ⟨C ++ (S ++ D), U ++ (E ++ (P ++ A)), ['*', '*', '@'], by simp, ?_, ?_, ?_⟩
  · simp [put, expand, marking, Rule.comap, urlCredentials, Piece.map, unmarked, stars]
  · exact fun hnil => hurl.user_ne_nil (by rw [(List.append_eq_nil_iff.1 hnil).1]; rfl)
  · intro x hx
    rw [isUrlChar, Bool.or_eq_true, Bool.or_eq_true, decide_eq_true_eq, decide_eq_true_eq]
    rcases List.mem_append.1 hx with hx | hx
    · have hletter : x.1 ∈ C.map Prod.fst := List.mem_map_of_mem hx
      rw [hC, List.mem_singleton] at hletter
      refine .inl (.inl ?_)
      rw [hletter, isSchemeChar, hurl.letter]
      rfl
    · rcases List.mem_append.1 hx with hx | hx
      · exact .inl (.inl (hurl.scheme _ (List.mem_map_of_mem hx)))
      · have hslash : x.1 ∈ D.map Prod.fst := List.mem_map_of_mem hx
        have hslash : x.1 = ':' ∨ x.1 = '/' := by simpa [hD] using hslash
        rcases hslash with hslash | hslash
        · exact .inl (.inr hslash)
        · exact .inr hslash

theorem urlCredentials_loosens (L : Letters) (h : Apart l r s) (hedge : ∀ c, r c = true → isEdge c = true)
    (hurl : ∀ x c, l x = true → s.head? = some c → isUrlChar x = true → isUrlChar c = false) :
    Loosens l r s urlCredentials := by
  have hmem : urlCredentials ∈ patterns L := by simp [patterns]
  exact urlCredentials_keeps.loosens (@endsIn_of_template _ _ [.group 0, .group 1, .group 2] stars '@' h.left.2 rfl)
    (fun left c t hc => first_of_edge hmem (hedge c hc) left t) hurl h.star

theorem frugal_of_mem (hR : R ∈ patterns L) : Frugal R := by
  simp only [patterns, List.mem_cons, List.not_mem_nil, or_false] at hR
  rcases hR with rfl | rfl | rfl | rfl | rfl | rfl | rfl
  · exact secretQuery_keeps.frugal
  · exact secretAssignment_frugal
  · exact hexSecret_drops.frugal
  · exact tgBotToken_drops.frugal
  · exact bearerToken_drops.frugal
  · exact urlCredentials_keeps.frugal
  · exact wgPrivateKey_drops.frugal

/-! ### The pattern that takes a secret -/

/-- A rule takes what it finds in an occurrence. -/
theorem lost_of_first (hdrops : DropsAll R) {x y : Text} (hc : s = x ++ c :: y) {a b : Marked} (ha : marks a = 0)
    (hb : marks b = 0)
    (hfirst : R.first (behind none (a.map Prod.fst ++ x)) (c :: (y ++ b.map Prod.fst)) ≠ none) :
    Lost s ((marking R).sub (a ++ (marked s ++ b))) := by
  have hsplit : a ++ (marked s ++ b) = (a ++ marked x) ++ (c, true) :: (marked y ++ b) := by
    simp [hc, marked]
  have hfirst' : (marking R).first (behind none (a ++ marked x)) ((c, true) :: (marked y ++ b)) ≠ none := by
    refine first_marking_ne_none ?_
    rw [behind_map]
    simpa [marked, Function.comp_def] using hfirst
  have hlt := lost_of_match hdrops hfirst'
  rw [← hsplit] at hlt
  refine lt_of_lt_of_eq hlt ?_
  simp [ha, hb]

theorem first_of_hexWord {x h y : Text} (hlength : 32 ≤ h.length) (hhex : ∀ c ∈ h, isHex c = true)
    (hx : ∀ c ∈ x.getLast?, L.word c = false) (hy : ∀ c ∈ y.head?, L.word c = false) :
    (hexSecret L).first (behind none x) (h ++ y) ≠ none := by
  obtain ⟨c, h, rfl⟩ := List.exists_cons_of_ne_nil (List.ne_nil_of_length_pos (by omega : 0 < h.length))
  have hword : ∀ c' ∈ c :: h, L.word c' = true := fun c' hc' => word_of_hex L (hhex c' hc')
  refine hexSecret_first_ne_none hhex hlength ?_ ?_
  · exact isBoundary_of_left (by rwa [behind_none]) (hword c List.mem_cons_self) _
  · obtain ⟨z, hz, hbehind⟩ : ∃ z ∈ c :: h, behind (behind none x) (c :: h) = some z :=
      behind_eq_some (List.cons_ne_nil c h)
    rw [hbehind]
    exact isBoundary_of_right (hword z hz) hy

theorem lost_of_hexWord {x h y : Text} (hs : s = x ++ (h ++ y)) (hlength : 32 ≤ h.length)
    (hhex : ∀ c ∈ h, isHex c = true) (hx : ∀ c ∈ x.getLast?, L.word c = false)
    (hy : ∀ c ∈ y.head?, L.word c = false) (hl : x = [] → ∀ c, l c = true → L.word c = false)
    (hr : ∀ c, r c = true → L.word c = false) (hm : Stands l r s m) : Lost s ((marking (hexSecret L)).sub m) := by
  obtain ⟨a, b, rfl, ha, hb, hla, hrb⟩ := hm
  have hleft : ∀ z ∈ (a.map Prod.fst ++ x).getLast?, L.word z = false := by
    intro z hz
    rw [List.getLast?_append] at hz
    cases hlast : x.getLast? with
    | some w =>
      rw [hlast] at hz
      exact hx z (by rw [hlast]; exact hz)
    | none =>
      rw [hlast, Option.none_or, List.getLast?_map] at hz
      obtain ⟨w, hw, rfl⟩ := Option.map_eq_some_iff.1 hz
      exact hl (List.getLast?_eq_none_iff.1 hlast) _ (hla w hw)
  have hright : ∀ z ∈ (y ++ b.map Prod.fst).head?, L.word z = false := by
    intro z hz
    cases y with
    | cons w y => exact hy z hz
    | nil =>
      rw [List.nil_append, List.head?_map] at hz
      obtain ⟨w, hw, rfl⟩ := Option.map_eq_some_iff.1 hz
      exact hr _ (hrb w hw)
  have hfirst := first_of_hexWord hlength hhex hleft hright
  obtain ⟨c, h, rfl⟩ := List.exists_cons_of_ne_nil (List.ne_nil_of_length_pos (by omega : 0 < h.length))
  refine lost_of_first hexSecret_drops (y := h ++ y) hs ha hb ?_
  rwa [List.append_assoc]

end VpnBot.Redaction
