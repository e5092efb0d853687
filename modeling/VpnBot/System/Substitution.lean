import VpnBot.System.Patterns

/-!
# Replacing the matches of a pattern

`Rule.sub` replaces the matches of a pattern from the left, each by what the template of the rule makes of its
pieces; the matches do not overlap, and what stands before a letter is read in the text that is replaced in.  The
pattern of a rule reads a letter at least (`Rule.consumes`), so that the replacing comes to an end.

`Scan` is the replacing as a relation that can be cut into parts: a stretch of text, what is behind it, and what is
made of it.  The parts of a text are replaced one after another unless a match lies across the cut (`Scan.split`).
-/

namespace Patterns

variable {α β : Type}

/-! ### Rules -/

/-- A part of a template: a group of the match, or a text. -/
inductive Piece (α : Type) where
  | group (index : ℕ)
  | literal (text : List α)

/-- What a template makes of the pieces of a match. -/
def expand (template : List (Piece α)) (groups : List (List α)) : List α :=
  template.flatMap fun
    | .group index => groups.getD index []
    | .literal text => text

/-- A pattern that reads a letter at least, and what its matches are replaced by. -/
structure Rule (α : Type) where
  items : List (Item α)
  template : List (Piece α)
  consumes : items.any Item.consumes = true

namespace Rule

variable (R : Rule α)

/-- The match at the start of a text. -/
def first (left : Option α) (t : List α) : Option (List (List α) × List α) := Patterns.first R.items left t

/-- The text with the matches replaced; the number counts the letters of a match that are still to be passed. -/
def subFrom : ℕ → Option α → List α → List α
  | _, _, [] => []
  | passed + 1, _, c :: t => subFrom passed (some c) t
  | 0, left, c :: t =>
    match R.first left (c :: t) with
    | some (groups, _) => expand R.template groups ++ subFrom (groups.flatten.length - 1) (some c) t
    | none => c :: subFrom 0 (some c) t

/-- The text with the matches replaced. -/
def sub (t : List α) : List α := R.subFrom 0 none t

end Rule

/-! ### Replacing in a part of a text -/

/-- `Scan R left t r u`: reading `t` with `left` before it and `r` behind it comes to the start of `r`, and makes `u`
of `t`. -/
inductive Scan (R : Rule α) : Option α → List α → List α → List α → Prop
  | nil {left r} : Scan R left [] r []
  | keep {left c t r u} : R.first left (c :: (t ++ r)) = none → Scan R (some c) t r u → Scan R left (c :: t) r (c :: u)
  | cut {left groups t t' r u u'} : R.first left (groups.flatten ++ (t ++ r)) = some (groups, t ++ r) →
      t' = groups.flatten ++ t → u' = expand R.template groups ++ u →
      Scan R (behind left groups.flatten) t r u → Scan R left t' r u'

variable {R : Rule α} {left : Option α} {t a b r u rest : List α} {groups : List (List α)}

theorem Rule.mem_parse (h : R.first left t = some (groups, rest)) : (groups, rest) ∈ parse R.items left t :=
  mem_parse_of_first h

theorem Rule.append_of_first (h : R.first left t = some (groups, rest)) : t = groups.flatten ++ rest :=
  append_of_mem_parse (R.mem_parse h)

theorem Rule.ne_nil_of_first (h : R.first left t = some (groups, rest)) : groups.flatten ≠ [] :=
  ne_nil_of_mem_parse R.consumes (R.mem_parse h)

/-- The letters of a match are passed. -/
theorem Rule.subFrom_append (d : List α) : R.subFrom d.length left (d ++ t) = R.subFrom 0 (behind left d) t := by
  induction d generalizing left with
  | nil => rfl
  | cons c d ih => rw [List.length_cons, List.cons_append, behind_cons, ← ih, Rule.subFrom]

theorem scan_subFrom (left : Option α) (t : List α) : Scan R left t [] (R.subFrom 0 left t) := by
  induction hn : t.length using Nat.strong_induction_on generalizing left t with
  | _ n ih =>
    cases t with
    | nil => exact .nil
    | cons c t =>
      rw [List.length_cons] at hn
      rw [Rule.subFrom]
      cases hfirst : R.first left (c :: t) with
      | none =>
        refine .keep (by rwa [List.append_nil]) (ih _ (by omega) _ _ rfl)
      | some m =>
        obtain ⟨groups, rest⟩ := m
        have happend := R.append_of_first hfirst
        have hne := R.ne_nil_of_first hfirst
        obtain ⟨c', d, hd⟩ := List.exists_cons_of_ne_nil hne
        obtain ⟨rfl, rfl⟩ : c = c' ∧ t = d ++ rest := by simpa [hd] using happend
        have hpass : R.subFrom (groups.flatten.length - 1) (some c) (d ++ rest) =
            R.subFrom 0 (behind left groups.flatten) rest := by
          rw [hd, List.length_cons, Nat.add_sub_cancel, Rule.subFrom_append, behind_cons]
        have hlength : rest.length < n := by
          rw [List.length_append] at hn
          omega
        refine .cut (t := rest) (by rwa [List.append_nil, ← happend]) happend ?_ (ih _ hlength _ _ rfl)
        exact congrArg (_ ++ ·) hpass

/-- **`sub` replaces from the left.** -/
theorem scan_sub (R : Rule α) (t : List α) : Scan R none t [] (R.sub t) := scan_subFrom none t

namespace Scan

/-- What is made of a text is determined. -/
theorem unique {u' : List α} (h : Scan R left t r u) (h' : Scan R left t r u') : u = u' := by
  induction h generalizing u' with
  | nil =>
    cases h' with
    | nil => rfl
    | cut hfirst hd =>
      exact absurd (List.append_eq_nil_iff.1 hd.symm).1 (R.ne_nil_of_first hfirst)
  | keep hnone _ ih =>
    cases h' with
    | keep _ hrest => rw [ih hrest]
    | cut hfirst hd => rw [← List.append_assoc, ← hd, List.cons_append, hnone] at hfirst; cases hfirst
  | @cut left groups t t' r u u₁ hfirst hd hu _ ih =>
    cases h' with
    | nil => exact absurd (List.append_eq_nil_iff.1 hd.symm).1 (R.ne_nil_of_first hfirst)
    | keep hnone =>
      rw [← List.append_assoc, ← hd, List.cons_append, hnone] at hfirst
      cases hfirst
    | cut hfirst' hd' hu' hrest' =>
      rw [← List.append_assoc, ← hd, hd', List.append_assoc, hfirst'] at hfirst
      obtain ⟨rfl, htail⟩ := Prod.mk.inj (Option.some.inj hfirst)
      obtain rfl := List.append_cancel_right htail
      rw [hu, hu', ih hrest']

/-- A text in two parts: they are read one after another, or a match lies across the cut. -/
theorem split (h : Scan R left (a ++ b) r u) :
    (∃ u₁ u₂, u = u₁ ++ u₂ ∧ Scan R left a (b ++ r) u₁ ∧ Scan R (behind left a) b r u₂) ∨
    ∃ a₁ d₁ d₂ b₂ groups u₁ u₂, a = a₁ ++ d₁ ∧ b = d₂ ++ b₂ ∧ d₁ ≠ [] ∧ d₂ ≠ [] ∧ groups.flatten = d₁ ++ d₂ ∧
      R.first (behind left a₁) (d₁ ++ (b ++ r)) = some (groups, b₂ ++ r) ∧
      u = u₁ ++ (expand R.template groups ++ u₂) ∧ Scan R left a₁ (d₁ ++ (b ++ r)) u₁ ∧
      Scan R (behind (behind left a) d₂) b₂ r u₂ := by
  generalize ht : a ++ b = t at h
  induction h generalizing a with
  | nil =>
    obtain ⟨rfl, rfl⟩ := List.append_eq_nil_iff.1 ht
    exact .inl ⟨[], [], rfl, .nil, .nil⟩
  | @keep left c t r u hnone hrest ih =>
    cases a with
    | nil =>
      subst ht
      exact .inl ⟨[], c :: u, rfl, .nil, .keep hnone hrest⟩
    | cons c' a =>
      obtain ⟨rfl, rfl⟩ := List.cons.inj ht
      rcases ih rfl with ⟨u₁, u₂, rfl, h₁, h₂⟩ |
        ⟨a₁, d₁, d₂, b₂, groups, u₁, u₂, rfl, rfl, hd₁, hd₂, hd, hfirst, rfl, h₁, h₂⟩
      · refine .inl ⟨c' :: u₁, u₂, rfl, .keep (by rwa [← List.append_assoc]) h₁, ?_⟩
        rwa [behind_cons]
      · have hnone' : R.first left (c' :: (a₁ ++ d₁ ++ (d₂ ++ b₂) ++ r)) = none := hnone
        rw [List.append_assoc, List.append_assoc] at hnone'
        refine .inr ⟨c' :: a₁, d₁, d₂, b₂, groups, c' :: u₁, u₂, rfl, rfl, hd₁, hd₂, hd, ?_, rfl,
          .keep hnone' h₁, ?_⟩
        · rwa [behind_cons]
        · rwa [behind_cons]
  | @cut left groups t t' r u u' hfirst hd hu hrest ih =>
    subst hd hu
    rcases List.append_eq_append_iff.1 ht with ⟨d₂, hd, rfl⟩ | ⟨a', rfl, rfl⟩
    · by_cases ha : a = []
      · subst ha
        obtain rfl : groups.flatten = d₂ := hd
        exact .inl ⟨[], _, rfl, .nil, .cut hfirst rfl rfl hrest⟩
      by_cases hd₂ : d₂ = []
      · subst hd₂
        rw [List.append_nil] at hd
        subst hd
        refine .inl ⟨expand R.template groups, u, rfl, ?_, ?_⟩
        · exact .cut (t := []) hfirst (List.append_nil _).symm (List.append_nil _).symm .nil
        · exact hrest
      · refine .inr ⟨[], a, d₂, t, groups, [], u, rfl, rfl, ha, hd₂, hd, ?_, rfl, .nil, ?_⟩
        · rwa [hd, List.append_assoc, ← List.append_assoc d₂] at hfirst
        · rwa [hd, behind_append] at hrest
    · rcases ih rfl with ⟨u₁, u₂, rfl, h₁, h₂⟩ |
        ⟨a₁, d₁, d₂, b₂, groups', u₁, u₂, rfl, rfl, hd₁, hd₂, hd, hfirst', rfl, h₁, h₂⟩
      · refine .inl ⟨_, u₂, (List.append_assoc _ _ _).symm, .cut ?_ rfl rfl h₁, ?_⟩
        · rwa [List.append_assoc] at hfirst
        · rwa [behind_append]
      · refine .inr ⟨groups.flatten ++ a₁, d₁, d₂, b₂, groups', expand R.template groups ++ u₁, u₂,
          (List.append_assoc _ _ _).symm, rfl, hd₁, hd₂, hd, ?_, (List.append_assoc _ _ _).symm, .cut ?_ rfl rfl h₁, ?_⟩
        · rwa [behind_append]
        · simpa only [List.append_assoc] using hfirst
        · rwa [behind_append]

/-- Where every match is replaced by itself nothing changes. -/
theorem eq_self (h : Scan R left t r u)
    (hself : ∀ a b, t = a ++ b → ∀ groups rest, R.first (behind left a) (b ++ r) = some (groups, rest) →
      expand R.template groups = groups.flatten) : u = t := by
  induction h with
  | nil => rfl
  | @keep left c t r u _ _ ih =>
    refine congrArg (c :: ·) (ih fun a b hab groups rest hfirst => ?_)
    exact hself (c :: a) b (congrArg (c :: ·) hab) groups rest (by rwa [behind_cons])
  | @cut left groups t t' r u u' hfirst hd hu _ ih =>
    subst hd hu
    have hwhole : R.first left (groups.flatten ++ t ++ r) = some (groups, t ++ r) := by rwa [List.append_assoc]
    rw [hself [] _ rfl groups (t ++ r) hwhole]
    refine congrArg (_ ++ ·) (ih fun a b hab groups' rest hfirst' => ?_)
    exact hself (groups.flatten ++ a) b (by rw [hab, List.append_assoc]) groups' rest (by rwa [behind_append])

/-- Where the replacements have no more letters of a kind than the matches, neither has the text. -/
theorem countP_le {p : α → Bool}
    (hp : ∀ left t groups rest, R.first left t = some (groups, rest) →
      (expand R.template groups).countP p ≤ groups.flatten.countP p) (h : Scan R left t r u) :
    u.countP p ≤ t.countP p := by
  induction h with
  | nil => exact le_rfl
  | keep _ _ ih =>
    rw [List.countP_cons, List.countP_cons]
    omega
  | cut hfirst hd hu _ ih =>
    have hle := hp _ _ _ _ hfirst
    rw [hd, hu, List.countP_append, List.countP_append]
    omega

end Scan

/-- A text in which every match would be replaced by itself is left as it is. -/
theorem Rule.sub_eq_self
    (hself : ∀ a b, t = a ++ b → ∀ groups rest, R.first (behind none a) b = some (groups, rest) →
      expand R.template groups = groups.flatten) : R.sub t = t := by
  refine (scan_sub R t).eq_self fun a b hab groups rest hfirst => ?_
  rw [List.append_nil] at hfirst
  exact hself a b hab groups rest hfirst

/-! ### Letters that carry more -/

/-- The part for letters that carry more; `g` says what the letters of a literal carry. -/
def Piece.map (g : α → β) : Piece α → Piece β
  | .group index => .group index
  | .literal text => .literal (text.map g)

/-- The rule for letters that carry more. -/
def Rule.comap (R : Rule α) (f : β → α) (g : α → β) : Rule β where
  items := R.items.map (Item.comap f)
  template := R.template.map (Piece.map g)
  consumes := by
    rw [List.any_map, ← R.consumes]
    exact congrArg (R.items.any ·) (funext (consumes_comap f))

section Comap

variable {f : β → α} {g : α → β}

theorem Rule.first_comap (R : Rule α) (f : β → α) (g : α → β) (left : Option β) (t : List β) :
    ((R.comap f g).first left t).map (plainMatch f) = R.first (left.map f) (t.map f) :=
  Patterns.first_comap f R.items left t

theorem map_expand (hfg : ∀ a, f (g a) = a) (template : List (Piece α)) (groups : List (List β)) :
    (expand (template.map (Piece.map g)) groups).map f = expand template (groups.map (List.map f)) := by
  induction template with
  | nil => rfl
  | cons part template ih =>
    rw [List.map_cons, expand, List.flatMap_cons, List.map_append, ← expand, ih, expand, expand, List.flatMap_cons]
    refine congrArg (· ++ _) ?_
    cases part with
    | group index =>
      show (groups.getD index []).map f = (groups.map (List.map f)).getD index []
      rw [List.getD_eq_getElem?_getD, List.getD_eq_getElem?_getD, List.getElem?_map]
      cases groups[index]? <;> rfl
    | literal text =>
      show (text.map g).map f = text
      rw [List.map_map, show f ∘ g = id from funext hfg, List.map_id]

/-- What the letters carry has no part in the replacing. -/
theorem Scan.map (hfg : ∀ a, f (g a) = a) {left : Option β} {t r u : List β} (h : Scan (R.comap f g) left t r u) :
    Scan R (left.map f) (t.map f) (r.map f) (u.map f) := by
  induction h with
  | nil => exact .nil
  | @keep left c t r u hnone _ ih =>
    refine .keep ?_ ih
    rw [← List.map_append, ← List.map_cons, ← Rule.first_comap R f g, hnone]
    rfl
  | @cut left groups t t' r u u' hfirst hd hu _ ih =>
    refine @Scan.cut _ R _ (groups.map (List.map f)) (t.map f) _ _ (u.map f) _ ?_ ?_ ?_ ?_
    · rw [← List.map_flatten, ← List.map_append, ← List.map_append, ← Rule.first_comap R f g, hfirst]
      rfl
    · rw [hd, List.map_append, List.map_flatten]
    · rw [hu, List.map_append]
      exact congrArg (· ++ _) (map_expand hfg R.template groups)
    · rwa [← List.map_flatten, ← behind_map]

theorem map_sub_comap (hfg : ∀ a, f (g a) = a) (t : List β) : ((R.comap f g).sub t).map f = R.sub (t.map f) :=
  ((scan_sub _ t).map hfg).unique (scan_sub R _)

end Comap

end Patterns
