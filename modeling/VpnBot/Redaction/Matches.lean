import VpnBot.Redaction.Rules

/-!
# What the patterns match

For each of the seven patterns what a match consists of, and with which letters a match begins.  For the first two
also what stands behind the match: their values end where they have to.
-/

namespace VpnBot.Redaction

open Py Patterns

variable {L : Letters} {left : Option Char} {t rest : Text} {groups : List Text} {c : Char}

/-! ### Items -/

theorem mem_ends_one {cls : Char → Bool} {piece : Text} :
    (piece, rest) ∈ (one cls).ends left t ↔ ∃ c, cls c = true ∧ piece = [c] ∧ t = c :: rest := by
  rw [one, mem_ends_many]
  constructor
  · rintro ⟨rfl, hcls, hleast, hmost⟩
    obtain ⟨c, rfl⟩ := List.length_eq_one_iff.1 (Nat.le_antisymm (hmost 1 rfl) hleast)
    exact ⟨c, hcls c List.mem_cons_self, rfl, rfl⟩
  · rintro ⟨c, hc, rfl, rfl⟩
    refine ⟨rfl, by simpa using hc, le_rfl, fun n hn => ?_⟩
    cases hn
    exact le_rfl

theorem mem_ends_atLeast {cls : Char → Bool} {atLeast : ℕ} {piece : Text} :
    (piece, rest) ∈ (Item.many atLeast none cls).ends left t ↔
      t = piece ++ rest ∧ (∀ c ∈ piece, cls c = true) ∧ atLeast ≤ piece.length := by
  rw [mem_ends_many]
  exact ⟨fun h => ⟨h.1, h.2.1, h.2.2.1⟩, fun h => ⟨h.1, h.2.1, h.2.2, fun n hn => by cases hn⟩⟩

theorem mem_ends_word {w : List (Char → Bool)} {piece : Text} :
    (piece, rest) ∈ (Item.oneOf [w]).ends left t ↔ t = piece ++ rest ∧ Spells w piece := by
  rw [mem_ends_oneOf]
  simp only [List.mem_singleton, exists_eq_left]

theorem spells_literally {w : String} {piece : Text} : Spells (literally w) piece ↔ piece = w.toList := by
  have hiff : ∀ (w piece : Text), Spells (w.map fun (p c : Char) => decide (c = p)) piece ↔ piece = w := by
    intro w
    induction w with
    | nil =>
      intro piece
      constructor
      · intro h
        cases h
        rfl
      · rintro rfl
        exact .nil
    | cons p w ih =>
      intro piece
      constructor
      · intro h
        cases h with
        | cons hp h => rw [of_decide_eq_true hp, (ih _).1 h]
      · rintro rfl
        exact .cons (decide_eq_true rfl) ((ih w).2 rfl)
  exact hiff w.toList piece

/-! ### The secret in a query -/

theorem secretQuery_mem_parse : (groups, rest) ∈ parse secretQuery.items left t ↔
    ∃ g v, groups = [g, v] ∧ t = g ++ (v ++ rest) ∧ Spells (caselessWord "secret=") g ∧ v ≠ [] ∧
      ∀ c ∈ v, isQueryValue c = true := by
  constructor
  · intro h
    obtain ⟨g, mid, groups, rfl, hg, h₁⟩ := mem_parse_cons.1 h
    obtain ⟨v, mid', groups, rfl, hv, h₂⟩ := mem_parse_cons.1 h₁
    obtain ⟨rfl, rfl⟩ := mem_parse_nil.1 h₂
    obtain ⟨rfl, hspells⟩ := mem_ends_word.1 hg
    obtain ⟨rfl, hvalue, hlength⟩ := mem_ends_atLeast.1 hv
    exact ⟨g, v, rfl, rfl, hspells, List.ne_nil_of_length_pos hlength, hvalue⟩
  · rintro ⟨g, v, rfl, rfl, hspells, hne, hvalue⟩
    refine mem_parse_cons.2 ⟨g, v ++ rest, [v], rfl, mem_ends_word.2 ⟨rfl, hspells⟩, ?_⟩
    refine mem_parse_cons.2 ⟨v, rest, [], rfl, ?_, mem_parse_nil.2 ⟨rfl, rfl⟩⟩
    exact mem_ends_atLeast.2 ⟨rfl, hvalue, List.length_pos_iff.2 hne⟩

theorem secretQuery_of_first (h : secretQuery.first left t = some (groups, rest)) :
    ∃ g v, groups = [g, v] ∧ t = g ++ (v ++ rest) ∧ Spells (caselessWord "secret=") g ∧ v ≠ [] ∧
      (∀ c ∈ v, isQueryValue c = true) ∧ rest.head?.any isQueryValue = false := by
  obtain ⟨g, v, hgroups, ht, hspells, hne, hvalue⟩ := secretQuery_mem_parse.1 (Rule.mem_parse h)
  exact ⟨g, v, hgroups, ht, hspells, hne, hvalue, @head_of_first Char [_] _ _ _ _ _ _ h⟩

/-! ### An assignment -/

/-- A name, white space, the sign, white space. -/
structure Assigns (k w₁ : Text) (sign : Char) (w₂ : Text) : Prop where
  name : ∃ name ∈ secretNames, Spells (caselessWord name) k
  before : ∀ c ∈ w₁, isSpace c = true
  sign : isAssignment sign = true
  behind : ∀ c ∈ w₂, isSpace c = true

theorem secretAssignment_mem_parse : (groups, rest) ∈ parse (secretAssignment L).items left t ↔
    ∃ k w₁ sign w₂ v, groups = [[], k, w₁, [sign], w₂, v] ∧ t = k ++ (w₁ ++ sign :: (w₂ ++ (v ++ rest))) ∧
      isBoundary L.word left t = true ∧ Assigns k w₁ sign w₂ ∧ v ≠ [] ∧ ∀ c ∈ v, isAssignedValue c = true := by
  constructor
  · intro h
    obtain ⟨_, mid, groups, rfl, hitem, h₁⟩ := mem_parse_cons.1 h
    obtain ⟨rfl, rfl, hboundary⟩ := mem_ends_boundary.1 hitem
    obtain ⟨k, mid, groups, rfl, hitem, h₂⟩ := mem_parse_cons.1 h₁
    obtain ⟨rfl, w, hw, hspells⟩ := mem_ends_oneOf.1 hitem
    obtain ⟨name, hname, rfl⟩ := List.mem_map.1 hw
    obtain ⟨w₁, mid, groups, rfl, hitem, h₃⟩ := mem_parse_cons.1 h₂
    obtain ⟨rfl, hw₁, -⟩ := mem_ends_atLeast.1 hitem
    obtain ⟨_, mid, groups, rfl, hitem, h₄⟩ := mem_parse_cons.1 h₃
    obtain ⟨sign, hsign, rfl, rfl⟩ := mem_ends_one.1 hitem
    obtain ⟨w₂, mid, groups, rfl, hitem, h₅⟩ := mem_parse_cons.1 h₄
    obtain ⟨rfl, hw₂, -⟩ := mem_ends_atLeast.1 hitem
    obtain ⟨v, mid, groups, rfl, hitem, h₆⟩ := mem_parse_cons.1 h₅
    obtain ⟨rfl, hv, hlength⟩ := mem_ends_atLeast.1 hitem
    obtain ⟨rfl, rfl⟩ := mem_parse_nil.1 h₆
    exact ⟨k, w₁, sign, w₂, v, rfl, rfl, hboundary, ⟨⟨name, hname, hspells⟩, hw₁, hsign, hw₂⟩,
      List.ne_nil_of_length_pos hlength, hv⟩
  · rintro ⟨k, w₁, sign, w₂, v, rfl, rfl, hboundary, ⟨⟨name, hname, hspells⟩, hw₁, hsign, hw₂⟩, hne, hv⟩
    refine mem_parse_cons.2 ⟨[], _, _, rfl, mem_ends_boundary.2 ⟨rfl, rfl, hboundary⟩, ?_⟩
    refine mem_parse_cons.2 ⟨k, _, _, rfl, mem_ends_oneOf.2 ⟨rfl, _, List.mem_map_of_mem hname, hspells⟩, ?_⟩
    refine mem_parse_cons.2 ⟨w₁, _, _, rfl, mem_ends_atLeast.2 ⟨rfl, hw₁, Nat.zero_le _⟩, ?_⟩
    refine mem_parse_cons.2 ⟨[sign], _, _, rfl, mem_ends_one.2 ⟨sign, hsign, rfl, rfl⟩, ?_⟩
    refine mem_parse_cons.2 ⟨w₂, _, _, rfl, mem_ends_atLeast.2 ⟨rfl, hw₂, Nat.zero_le _⟩, ?_⟩
    refine mem_parse_cons.2 ⟨v, rest, [], rfl, mem_ends_atLeast.2 ⟨rfl, hv, List.length_pos_iff.2 hne⟩, ?_⟩
    exact mem_parse_nil.2 ⟨rfl, rfl⟩

theorem secretAssignment_of_first (h : (secretAssignment L).first left t = some (groups, rest)) :
    ∃ k w₁ sign w₂ v, groups = [[], k, w₁, [sign], w₂, v] ∧ t = k ++ (w₁ ++ sign :: (w₂ ++ (v ++ rest))) ∧
      isBoundary L.word left t = true ∧ Assigns k w₁ sign w₂ ∧ v ≠ [] ∧ (∀ c ∈ v, isAssignedValue c = true) ∧
      rest.head?.any isAssignedValue = false := by
  obtain ⟨k, w₁, sign, w₂, v, hgroups, ht, hboundary, hassigns, hne, hv⟩ :=
    secretAssignment_mem_parse.1 (Rule.mem_parse h)
  exact ⟨k, w₁, sign, w₂, v, hgroups, ht, hboundary, hassigns, hne, hv, @head_of_first Char [_, _, _, _, _] _ _ _ _ _ _ h⟩

/-! ### Secrets and tokens -/

theorem hexSecret_mem_parse (h : (groups, rest) ∈ parse (hexSecret L).items left t) :
    32 ≤ groups.flatten.length ∧ (∀ c ∈ groups.flatten, isHex c = true) ∧ isBoundary L.word left t = true ∧
      isBoundary L.word (behind left groups.flatten) rest = true := by
  obtain ⟨_, mid, groups, rfl, hitem, h₁⟩ := mem_parse_cons.1 h
  obtain ⟨rfl, rfl, hboundary⟩ := mem_ends_boundary.1 hitem
  obtain ⟨d, mid, groups, rfl, hitem, h₂⟩ := mem_parse_cons.1 h₁
  obtain ⟨rfl, w, hw, hspells⟩ := mem_ends_oneOf.1 hitem
  obtain ⟨x, mid, groups, rfl, hitem, h₃⟩ := mem_parse_cons.1 h₂
  obtain ⟨rfl, hx, hlength⟩ := mem_ends_atLeast.1 hitem
  obtain ⟨_, mid, groups, rfl, hitem, h₄⟩ := mem_parse_cons.1 h₃
  obtain ⟨rfl, rfl, hend⟩ := mem_ends_boundary.1 hitem
  obtain ⟨rfl, rfl⟩ := mem_parse_nil.1 h₄
  have hd : ∀ c ∈ d, isHex c = true := by
    rcases List.mem_cons.1 hw with rfl | hw
    · obtain rfl := spells_literally.1 hspells
      exact List.all_eq_true.1 (show "dd".toList.all isHex = true from rfl)
    · rw [List.mem_singleton.1 hw] at hspells
      cases hspells
      exact fun c hc => absurd hc List.not_mem_nil
  simp only [List.flatten_cons, List.flatten_nil, List.nil_append, List.append_nil, behind_nil, ← behind_append]
    at hend ⊢
  refine ⟨?_, ?_, hboundary, hend⟩
  · rw [List.length_append]
    omega
  · intro c hc
    rcases List.mem_append.1 hc with hc | hc
    · exact hd c hc
    · exact hx c hc

theorem hexSecret_first_ne_none {x : Text} (hx : ∀ c ∈ x, isHex c = true) (hlength : 32 ≤ x.length)
    (hboundary : isBoundary L.word left (x ++ rest) = true) (hend : isBoundary L.word (behind left x) rest = true) :
    (hexSecret L).first left (x ++ rest) ≠ none := by
  refine fun hnone => first_eq_none_iff.1 hnone ([[], [], x, []], rest) ?_
  refine mem_parse_cons.2 ⟨[], _, _, rfl, mem_ends_boundary.2 ⟨rfl, rfl, hboundary⟩, ?_⟩
  refine mem_parse_cons.2 ⟨[], _, _, rfl, mem_ends_oneOf.2 ⟨rfl, [], by simp, .nil⟩, ?_⟩
  refine mem_parse_cons.2 ⟨x, _, _, rfl, mem_ends_atLeast.2 ⟨rfl, hx, hlength⟩, ?_⟩
  exact mem_parse_cons.2 ⟨[], _, _, rfl, mem_ends_boundary.2 ⟨rfl, rfl, hend⟩, mem_parse_nil.2 ⟨rfl, rfl⟩⟩

/-- A number of a bot, a colon and 35 letters. -/
structure TokenShape (L : Letters) (d k : Text) : Prop where
  digits : ∀ c ∈ d, L.digit c = true
  atLeast : 8 ≤ d.length
  atMost : d.length ≤ 12
  chars : ∀ c ∈ k, isTokenChar c = true
  length : k.length = 35

theorem tgBotToken_mem_parse : (groups, rest) ∈ parse (tgBotToken L).items left t ↔
    ∃ d k, groups = [[], d, [':'], k, []] ∧ t = d ++ ':' :: (k ++ rest) ∧ TokenShape L d k ∧
      isBoundary L.word left t = true ∧ isBoundary L.word (behind left (d ++ ':' :: k)) rest = true := by
  constructor
  · intro h
    obtain ⟨_, mid, groups, rfl, hitem, h₁⟩ := mem_parse_cons.1 h
    obtain ⟨rfl, rfl, hboundary⟩ := mem_ends_boundary.1 hitem
    obtain ⟨d, mid, groups, rfl, hitem, h₂⟩ := mem_parse_cons.1 h₁
    obtain ⟨rfl, hd, hleast, hmost⟩ := mem_ends_many.1 hitem
    obtain ⟨_, mid, groups, rfl, hitem, h₃⟩ := mem_parse_cons.1 h₂
    obtain ⟨c, hc, rfl, rfl⟩ := mem_ends_one.1 hitem
    obtain rfl := of_decide_eq_true hc
    obtain ⟨k, mid, groups, rfl, hitem, h₄⟩ := mem_parse_cons.1 h₃
    obtain ⟨rfl, hk, hkleast, hkmost⟩ := mem_ends_many.1 hitem
    obtain ⟨_, mid, groups, rfl, hitem, h₅⟩ := mem_parse_cons.1 h₄
    obtain ⟨rfl, rfl, hend⟩ := mem_ends_boundary.1 hitem
    obtain ⟨rfl, rfl⟩ := mem_parse_nil.1 h₅
    refine ⟨d, k, rfl, rfl, ⟨hd, hleast, hmost 12 rfl, hk, Nat.le_antisymm (hkmost 35 rfl) hkleast⟩, hboundary, ?_⟩
    rwa [behind_append_cons]
  · rintro ⟨d, k, rfl, rfl, ⟨hd, hleast, hmost, hk, hlength⟩, hboundary, hend⟩
    refine mem_parse_cons.2 ⟨[], _, _, rfl, mem_ends_boundary.2 ⟨rfl, rfl, hboundary⟩, ?_⟩
    refine mem_parse_cons.2 ⟨d, _, _, rfl, mem_ends_many.2 ⟨rfl, hd, hleast, fun n hn => ?_⟩, ?_⟩
    · cases hn
      exact hmost
    refine mem_parse_cons.2 ⟨[':'], _, _, rfl, mem_ends_one.2 ⟨':', rfl, rfl, rfl⟩, ?_⟩
    refine mem_parse_cons.2 ⟨k, _, _, rfl, mem_ends_many.2 ⟨rfl, hk, hlength.ge, fun n hn => ?_⟩, ?_⟩
    · cases hn
      exact hlength.le
    refine mem_parse_cons.2 ⟨[], rest, [], rfl, mem_ends_boundary.2 ⟨rfl, rfl, ?_⟩, mem_parse_nil.2 ⟨rfl, rfl⟩⟩
    rwa [behind_append_cons] at hend

theorem bearerToken_mem_parse : (groups, rest) ∈ parse (bearerToken L).items left t ↔
    ∃ b w v, groups = [[], b, w, v, []] ∧ t = b ++ (w ++ (v ++ rest)) ∧ Spells (caselessWord "bearer") b ∧
      w ≠ [] ∧ (∀ c ∈ w, isSpace c = true) ∧ 16 ≤ v.length ∧ (∀ c ∈ v, isBearerChar c = true) ∧
      isBoundary L.word left t = true ∧ isBoundary L.word (behind left (b ++ (w ++ v))) rest = true := by
  constructor
  · intro h
    obtain ⟨_, mid, groups, rfl, hitem, h₁⟩ := mem_parse_cons.1 h
    obtain ⟨rfl, rfl, hboundary⟩ := mem_ends_boundary.1 hitem
    obtain ⟨b, mid, groups, rfl, hitem, h₂⟩ := mem_parse_cons.1 h₁
    obtain ⟨rfl, hspells⟩ := mem_ends_word.1 hitem
    obtain ⟨w, mid, groups, rfl, hitem, h₃⟩ := mem_parse_cons.1 h₂
    obtain ⟨rfl, hw, hwlength⟩ := mem_ends_atLeast.1 hitem
    obtain ⟨v, mid, groups, rfl, hitem, h₄⟩ := mem_parse_cons.1 h₃
    obtain ⟨rfl, hv, hvlength⟩ := mem_ends_atLeast.1 hitem
    obtain ⟨_, mid, groups, rfl, hitem, h₅⟩ := mem_parse_cons.1 h₄
    obtain ⟨rfl, rfl, hend⟩ := mem_ends_boundary.1 hitem
    obtain ⟨rfl, rfl⟩ := mem_parse_nil.1 h₅
    refine ⟨b, w, v, rfl, rfl, hspells, List.ne_nil_of_length_pos hwlength, hw, hvlength, hv, hboundary, ?_⟩
    rwa [behind_append, behind_append]
  · rintro ⟨b, w, v, rfl, rfl, hspells, hwne, hw, hvlength, hv, hboundary, hend⟩
    refine mem_parse_cons.2 ⟨[], _, _, rfl, mem_ends_boundary.2 ⟨rfl, rfl, hboundary⟩, ?_⟩
    refine mem_parse_cons.2 ⟨b, _, _, rfl, mem_ends_word.2 ⟨rfl, hspells⟩, ?_⟩
    refine mem_parse_cons.2 ⟨w, _, _, rfl, mem_ends_atLeast.2 ⟨rfl, hw, List.length_pos_iff.2 hwne⟩, ?_⟩
    refine mem_parse_cons.2 ⟨v, _, _, rfl, mem_ends_atLeast.2 ⟨rfl, hv, hvlength⟩, ?_⟩
    refine mem_parse_cons.2 ⟨[], rest, [], rfl, mem_ends_boundary.2 ⟨rfl, rfl, ?_⟩, mem_parse_nil.2 ⟨rfl, rfl⟩⟩
    rwa [behind_append, behind_append] at hend

/-! ### Credentials in an URL -/

/-- `scheme://`, a name, a colon, a password. -/
structure UrlShape (c : Char) (s u p : Text) : Prop where
  letter : isLetterCaseless c = true
  scheme : ∀ c ∈ s, isSchemeChar c = true
  user : ∀ c ∈ u, isUserChar c = true
  user_ne_nil : u ≠ []
  password : ∀ c ∈ p, isPasswordChar c = true
  password_ne_nil : p ≠ []

/-- The scheme of an URL with the slashes. -/
def schemeText (c : Char) (s : Text) : Text := c :: (s ++ "://".toList)

theorem urlCredentials_mem_parse : (groups, rest) ∈ parse urlCredentials.items left t ↔
    ∃ c s u p, groups = [[c], s, "://".toList, u, [':'], p, ['@']] ∧
      t = schemeText c s ++ (u ++ ':' :: (p ++ '@' :: rest)) ∧ UrlShape c s u p := by
  constructor
  · intro h
    obtain ⟨_, mid, groups, rfl, hitem, h₁⟩ := mem_parse_cons.1 h
    obtain ⟨c, hc, rfl, rfl⟩ := mem_ends_one.1 hitem
    obtain ⟨s, mid, groups, rfl, hitem, h₂⟩ := mem_parse_cons.1 h₁
    obtain ⟨rfl, hs, -⟩ := mem_ends_atLeast.1 hitem
    obtain ⟨slashes, mid, groups, rfl, hitem, h₃⟩ := mem_parse_cons.1 h₂
    obtain ⟨rfl, hslashes⟩ := mem_ends_word.1 hitem
    obtain rfl := spells_literally.1 hslashes
    obtain ⟨u, mid, groups, rfl, hitem, h₄⟩ := mem_parse_cons.1 h₃
    obtain ⟨rfl, hu, hulength⟩ := mem_ends_atLeast.1 hitem
    obtain ⟨_, mid, groups, rfl, hitem, h₅⟩ := mem_parse_cons.1 h₄
    obtain ⟨colon, hcolon, rfl, rfl⟩ := mem_ends_one.1 hitem
    obtain rfl := of_decide_eq_true hcolon
    obtain ⟨p, mid, groups, rfl, hitem, h₆⟩ := mem_parse_cons.1 h₅
    obtain ⟨rfl, hp, hplength⟩ := mem_ends_atLeast.1 hitem
    obtain ⟨_, mid, groups, rfl, hitem, h₇⟩ := mem_parse_cons.1 h₆
    obtain ⟨sign, hsign, rfl, rfl⟩ := mem_ends_one.1 hitem
    obtain rfl := of_decide_eq_true hsign
    obtain ⟨rfl, rfl⟩ := mem_parse_nil.1 h₇
    refine ⟨c, s, u, p, rfl, ?_, hc, hs, hu, List.ne_nil_of_length_pos hulength, hp,
      List.ne_nil_of_length_pos hplength⟩
    simp [schemeText]
  · rintro ⟨c, s, u, p, rfl, rfl, hc, hs, hu, hune, hp, hpne⟩
    have ht : schemeText c s ++ (u ++ ':' :: (p ++ '@' :: rest)) =
        c :: (s ++ ("://".toList ++ (u ++ ':' :: (p ++ '@' :: rest)))) := by
      simp [schemeText]
    rw [ht]
    refine mem_parse_cons.2 ⟨[c], _, _, rfl, mem_ends_one.2 ⟨c, hc, rfl, rfl⟩, ?_⟩
    refine mem_parse_cons.2 ⟨s, _, _, rfl, mem_ends_atLeast.2 ⟨rfl, hs, Nat.zero_le _⟩, ?_⟩
    refine mem_parse_cons.2 ⟨_, _, _, rfl, mem_ends_word.2 ⟨rfl, spells_literally.2 rfl⟩, ?_⟩
    refine mem_parse_cons.2 ⟨u, _, _, rfl, mem_ends_atLeast.2 ⟨rfl, hu, List.length_pos_iff.2 hune⟩, ?_⟩
    refine mem_parse_cons.2 ⟨[':'], _, _, rfl, mem_ends_one.2 ⟨':', rfl, rfl, rfl⟩, ?_⟩
    refine mem_parse_cons.2 ⟨p, _, _, rfl, mem_ends_atLeast.2 ⟨rfl, hp, List.length_pos_iff.2 hpne⟩, ?_⟩
    exact mem_parse_cons.2 ⟨['@'], _, _, rfl, mem_ends_one.2 ⟨'@', rfl, rfl, rfl⟩, mem_parse_nil.2 ⟨rfl, rfl⟩⟩

/-! ### A key -/

/-- 43 characters of base64 and one or two equals signs. -/
structure KeyShape (k e : Text) : Prop where
  chars : ∀ c ∈ k, isBase64 c = true
  length : k.length = 43
  pad : ∀ c ∈ e, c = '='
  pad_pos : 1 ≤ e.length
  pad_le : e.length ≤ 2

theorem wgPrivateKey_mem_parse : (groups, rest) ∈ parse (wgPrivateKey L).items left t ↔
    ∃ k e, groups = [[], k, e, []] ∧ t = k ++ (e ++ rest) ∧ KeyShape k e ∧ isBoundary L.word left t = true ∧
      rest.head?.any isBase64OrPad = false := by
  constructor
  · intro h
    obtain ⟨_, mid, groups, rfl, hitem, h₁⟩ := mem_parse_cons.1 h
    obtain ⟨rfl, rfl, hboundary⟩ := mem_ends_boundary.1 hitem
    obtain ⟨k, mid, groups, rfl, hitem, h₂⟩ := mem_parse_cons.1 h₁
    obtain ⟨rfl, hk, hkleast, hkmost⟩ := mem_ends_many.1 hitem
    obtain ⟨e, mid, groups, rfl, hitem, h₃⟩ := mem_parse_cons.1 h₂
    obtain ⟨rfl, he, heleast, hemost⟩ := mem_ends_many.1 hitem
    obtain ⟨_, mid, groups, rfl, hitem, h₄⟩ := mem_parse_cons.1 h₃
    obtain ⟨rfl, rfl, hahead⟩ := mem_ends_notAhead.1 hitem
    obtain ⟨rfl, rfl⟩ := mem_parse_nil.1 h₄
    exact ⟨k, e, rfl, rfl, ⟨hk, Nat.le_antisymm (hkmost 43 rfl) hkleast, fun c hc => of_decide_eq_true (he c hc),
      heleast, hemost 2 rfl⟩, hboundary, hahead⟩
  · rintro ⟨k, e, rfl, rfl, ⟨hk, hlength, he, heleast, hemost⟩, hboundary, hahead⟩
    refine mem_parse_cons.2 ⟨[], _, _, rfl, mem_ends_boundary.2 ⟨rfl, rfl, hboundary⟩, ?_⟩
    refine mem_parse_cons.2 ⟨k, _, _, rfl, mem_ends_many.2 ⟨rfl, hk, hlength.ge, fun n hn => ?_⟩, ?_⟩
    · cases hn
      exact hlength.le
    refine mem_parse_cons.2 ⟨e, _, _, rfl,
      mem_ends_many.2 ⟨rfl, fun c hc => decide_eq_true (he c hc), heleast, fun n hn => ?_⟩, ?_⟩
    · cases hn
      exact hemost
    exact mem_parse_cons.2 ⟨[], rest, [], rfl, mem_ends_notAhead.2 ⟨rfl, rfl, hahead⟩, mem_parse_nil.2 ⟨rfl, rfl⟩⟩

/-! ### With which letters a match begins -/

theorem char_eq_iff {c d : Char} : c = d ↔ c.toNat = d.toNat := Char.toNat_inj.symm

theorem word_of_letterCaseless (L : Letters) (h : isLetterCaseless c = true) : L.word c = true := by
  rw [isLetterCaseless, Bool.or_eq_true] at h
  rcases h with h | h
  · have hascii : c.toNat < 128 := by
      simp [isLetter, inRange] at h
      omega
    rw [L.word_ascii c hascii, h]
    rfl
  · exact L.word_of_caseVariant c h

theorem word_of_numeral (L : Letters) (h : isNumeral c = true) : L.word c = true := by
  have hascii : c.toNat < 128 := by
    simp [isNumeral, inRange] at h
    omega
  rw [L.word_ascii c hascii, h]
  simp

theorem word_of_hex (L : Letters) (h : isHex c = true) : L.word c = true := by
  have hascii : c.toNat < 128 ∧ (isLetter c || isNumeral c || c = '_') = true := by
    simp [isHex, isLetter, isNumeral, inRange] at h ⊢
    omega
  rw [L.word_ascii c hascii.1, hascii.2]

theorem letterCaseless_of_caseless {p : Char} (hp : inRange 'a' 'z' p = true) (h : caseless p c = true) :
    isLetterCaseless c = true := by
  simp [caseless, inRange, isLetterCaseless, isLetter, isCaseVariant, char_eq_iff] at *
  omega

theorem mem_of_spells_caseless {w : String} {piece : Text} (h : Spells (caselessWord w) piece) (hc : c ∈ piece) :
    ∃ p ∈ w.toList, caseless p c = true := by
  have hmem : ∀ (w piece : Text), Spells (w.map caseless) piece → c ∈ piece → ∃ p ∈ w, caseless p c = true := by
    intro w
    induction w with
    | nil =>
      intro piece h hc
      cases h
      exact absurd hc List.not_mem_nil
    | cons p w ih =>
      intro piece h hc
      cases h with
      | cons hp h =>
        rcases List.mem_cons.1 hc with rfl | hc
        · exact ⟨p, List.mem_cons_self, hp⟩
        · obtain ⟨q, hq, hcq⟩ := ih _ h hc
          exact ⟨q, List.mem_cons_of_mem p hq, hcq⟩
  exact hmem w.toList piece h hc

/-- The letters of the names to which secrets are assigned. -/
def isNameChar (c : Char) : Bool := isLetterCaseless c || c = '_'

theorem word_of_nameChar (L : Letters) (h : isNameChar c = true) : L.word c = true := by
  rw [isNameChar, Bool.or_eq_true, decide_eq_true_eq] at h
  rcases h with h | rfl
  · exact word_of_letterCaseless L h
  · rw [L.word_ascii _ (by decide)]
    rfl

theorem nameChar_of_caseless {p : Char} (hp : (inRange 'a' 'z' p || p = '_') = true) (h : caseless p c = true) :
    isNameChar c = true := by
  rw [Bool.or_eq_true, decide_eq_true_eq] at hp
  rw [isNameChar, Bool.or_eq_true, decide_eq_true_eq]
  rcases hp with hp | rfl
  · exact .inl (letterCaseless_of_caseless hp h)
  · refine .inr ?_
    simpa [caseless, inRange] using h

theorem nameChar_of_name {name : String} {k : Text} (hname : name ∈ secretNames) (h : Spells (caselessWord name) k)
    (hc : c ∈ k) : isNameChar c = true := by
  obtain ⟨p, hp, hcp⟩ := mem_of_spells_caseless h hc
  have hall : (secretNames.all fun name => name.toList.all fun p => inRange 'a' 'z' p || p = '_') = true := by decide
  exact nameChar_of_caseless (List.all_eq_true.1 (List.all_eq_true.1 hall name hname) p hp) hcp

theorem Assigns.nameChar {k w₁ w₂ : Text} {sign : Char} (h : Assigns k w₁ sign w₂) (hc : c ∈ k) :
    isNameChar c = true := by
  obtain ⟨name, hname, hspells⟩ := h.name
  exact nameChar_of_name hname hspells hc

theorem Assigns.ne_nil {k w₁ w₂ : Text} {sign : Char} (h : Assigns k w₁ sign w₂) : k ≠ [] := by
  obtain ⟨name, hname, hspells⟩ := h.name
  rintro rfl
  have hall : (secretNames.all fun name => name.toList.length ≠ 0) = true := by decide
  have hlength := of_decide_eq_true (List.all_eq_true.1 hall name hname)
  exact hlength (by simpa [caselessWord] using hspells.length_eq)

theorem char_of_secret {g : Text} (h : Spells (caselessWord "secret=") g) (hc : c ∈ g) :
    isLetterCaseless c = true ∨ c = '=' := by
  obtain ⟨p, hp, hcp⟩ := mem_of_spells_caseless h hc
  have hall : ("secret=".toList.all fun p => inRange 'a' 'z' p || p = '=') = true := by decide
  have hletter := List.all_eq_true.1 hall p hp
  rw [Bool.or_eq_true, decide_eq_true_eq] at hletter
  rcases hletter with hletter | rfl
  · exact .inl (letterCaseless_of_caseless hletter hcp)
  · refine .inr ?_
    simpa [caseless, inRange] using hcp

theorem secret_eq_append {g : Text} (h : Spells (caselessWord "secret=") g) :
    ∃ w, g = w ++ ['='] ∧ Spells (caselessWord "secret") w := by
  obtain ⟨w, sign, rfl, hw, hsign⟩ := (@spells_append _ (caselessWord "secret") [caseless '='] g).1 h
  cases hsign with
  | @cons _ c _ _ hc hnil =>
    cases hnil
    have hsign : c = '=' := by simpa [caseless, inRange] using hc
    exact ⟨w, by rw [hsign], hw⟩

theorem head_of_secret {g : Text} (h : Spells (caselessWord "secret=") g) :
    ∃ c g', g = c :: g' ∧ isLetterCaseless c = true := by
  cases h with
  | cons hc _ => exact ⟨_, _, rfl, letterCaseless_of_caseless (by decide) hc⟩

theorem word_of_first {R : Rule Char} (hR : R ∈ patterns L) {m : List Text × Text}
    (h : R.first left (c :: t) = some m) : L.word c = true ∨ c = '+' ∨ c = '/' := by
  obtain ⟨groups, rest⟩ := m
  have hmem := Rule.mem_parse h
  simp only [patterns, List.mem_cons, List.not_mem_nil, or_false] at hR
  rcases hR with rfl | rfl | rfl | rfl | rfl | rfl | rfl
  · obtain ⟨g, v, -, ht, hspells, -⟩ := secretQuery_mem_parse.1 hmem
    obtain ⟨c', g', rfl, hletter⟩ := head_of_secret hspells
    obtain ⟨rfl, -⟩ := List.cons.inj ht
    exact .inl (word_of_letterCaseless L hletter)
  · obtain ⟨k, w₁, sign, w₂, v, -, ht, -, hassigns, -⟩ := secretAssignment_mem_parse.1 hmem
    obtain ⟨c', k', rfl⟩ := List.exists_cons_of_ne_nil hassigns.ne_nil
    obtain ⟨rfl, -⟩ := List.cons.inj ht
    exact .inl (word_of_nameChar L (hassigns.nameChar List.mem_cons_self))
  · obtain ⟨hlength, hhex, -⟩ := hexSecret_mem_parse hmem
    have happend := append_of_mem_parse hmem
    obtain ⟨c', x, hx⟩ := List.exists_cons_of_ne_nil (List.ne_nil_of_length_pos (by omega : 0 < groups.flatten.length))
    rw [hx] at happend hhex
    obtain ⟨rfl, -⟩ := List.cons.inj happend
    exact .inl (word_of_hex L (hhex c List.mem_cons_self))
  · obtain ⟨d, k, -, ht, htoken, -⟩ := tgBotToken_mem_parse.1 hmem
    have hleast := htoken.atLeast
    obtain ⟨c', d', rfl⟩ := List.exists_cons_of_ne_nil (List.ne_nil_of_length_pos (by omega : 0 < d.length))
    obtain ⟨rfl, -⟩ := List.cons.inj ht
    exact .inl (L.word_of_digit c (htoken.digits c List.mem_cons_self))
  · obtain ⟨b, w, v, -, ht, hspells, -⟩ := bearerToken_mem_parse.1 hmem
    cases hspells with
    | cons hc _ =>
      obtain ⟨rfl, -⟩ := List.cons.inj ht
      exact .inl (word_of_letterCaseless L (letterCaseless_of_caseless (by decide) hc))
  · obtain ⟨c', s, u, p, -, ht, hurl⟩ := urlCredentials_mem_parse.1 hmem
    obtain ⟨rfl, -⟩ := List.cons.inj ht
    exact .inl (word_of_letterCaseless L hurl.letter)
  · obtain ⟨k, e, -, ht, hkey, -⟩ := wgPrivateKey_mem_parse.1 hmem
    obtain ⟨c', k', rfl⟩ := List.exists_cons_of_ne_nil (List.ne_nil_of_length_pos (by rw [hkey.length]; omega))
    obtain ⟨rfl, -⟩ := List.cons.inj ht
    have hc := hkey.chars c List.mem_cons_self
    simp only [isBase64, Bool.or_eq_true, decide_eq_true_eq] at hc
    rcases hc with ((hc | hc) | hc) | hc
    · exact .inl (word_of_letterCaseless L (by rw [isLetterCaseless, hc]; rfl))
    · exact .inl (word_of_numeral L hc)
    · exact .inr (.inl hc)
    · exact .inr (.inr hc)

end VpnBot.Redaction
