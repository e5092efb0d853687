import VpnBot.Redaction.Matches

/-!
# An occurrence under the patterns

An occurrence is followed through the seven patterns by marks.  `Lost` says that some of its characters are gone,
`Stands` that all are there, side by side, with known characters around them.  A pattern that matches in an
occurrence loses some of it (`lost_of_match`); a pattern whose matches do not glue it to its surroundings loses some of
it or leaves it standing (`stands_sub`).
-/

namespace VpnBot.Redaction

open Py Patterns

variable {L : Letters} {R : Rule Char} {s : Text} {l r : Char → Bool}

/-- Characters with a mark, or without. -/
abbrev Marked := List (Char × Bool)

/-- A text without marks. -/
def unmarked (t : Text) : Marked := t.map (·, false)

def marked (t : Text) : Marked := t.map (·, true)

/-- How many characters have a mark. -/
def marks (m : Marked) : ℕ := m.countP Prod.snd

@[simp] theorem marks_append (m m' : Marked) : marks (m ++ m') = marks m + marks m' := List.countP_append

@[simp] theorem marks_cons (x : Char × Bool) (m : Marked) : marks (x :: m) = marks m + if x.2 then 1 else 0 :=
  List.countP_cons

@[simp] theorem marks_unmarked (t : Text) : marks (unmarked t) = 0 := by
  simp [marks, unmarked, List.countP_map]

@[simp] theorem marks_marked (t : Text) : marks (marked t) = t.length := by
  simp [marks, marked, List.countP_map]

/-- Some characters of the occurrence are gone. -/
def Lost (s : Text) (m : Marked) : Prop := marks m < s.length

/-- The occurrence is there; the character before it is in one class and the one behind it in another. -/
def Stands (l r : Char → Bool) (s : Text) (m : Marked) : Prop :=
  ∃ a b, m = a ++ (marked s ++ b) ∧ marks a = 0 ∧ marks b = 0 ∧ (∀ x ∈ a.getLast?, l x.1 = true) ∧
    ∀ x ∈ b.head?, r x.1 = true

/-! ### Matches and marks -/

variable {left : Option (Char × Bool)} {t rest u : Marked} {groups : List Marked}

theorem first_of_marking (h : (marking R).first left t = some (groups, rest)) :
    R.first (left.map Prod.fst) (t.map Prod.fst) = some (groups.map (List.map Prod.fst), rest.map Prod.fst) := by
  rw [← Rule.first_comap R Prod.fst (·, false)]
  exact congrArg (Option.map (plainMatch Prod.fst)) h

theorem first_marking_ne_none (h : R.first (left.map Prod.fst) (t.map Prod.fst) ≠ none) :
    (marking R).first left t ≠ none := by
  rw [← Rule.first_comap R Prod.fst (·, false)] at h
  exact fun hnone => h (Option.map_eq_none_iff.2 hnone)

/-- What the marked rule puts in the place of a match. -/
def put (R : Rule Char) (groups : List Marked) : Marked := expand (marking R).template groups

/-- Nothing of the matches is kept. -/
def DropsAll (R : Rule Char) : Prop := ∃ text, R.template = [.literal text]

theorem DropsAll.put_eq (h : DropsAll R) : ∃ text, ∀ groups, put R groups = unmarked text := by
  obtain ⟨text, htext⟩ := h
  refine ⟨text, fun groups => ?_⟩
  rw [put, marking, Rule.comap, htext]
  exact List.append_nil _

theorem DropsAll.marks_put (h : DropsAll R) (groups : List Marked) : marks (put R groups) = 0 := by
  obtain ⟨text, hput⟩ := h.put_eq
  rw [hput, marks_unmarked]

/-- No marks are added. -/
def Frugal (R : Rule Char) : Prop :=
  ∀ left t groups rest, (marking R).first left t = some (groups, rest) → marks (put R groups) ≤ marks groups.flatten

theorem DropsAll.frugal (h : DropsAll R) : Frugal R := fun _ _ groups _ _ => by
  rw [h.marks_put]
  exact Nat.zero_le _

theorem Frugal.marks_le (h : Frugal R) (hscan : Scan (marking R) left t rest u) : marks u ≤ marks t :=
  hscan.countP_le h

theorem Frugal.marks_lt (h : Frugal R) {a₁ b₂ u₁ u₂ r₁ r₂ : Marked} {left' : Option (Char × Bool)}
    (h₁ : Scan (marking R) left a₁ r₁ u₁) (h₂ : Scan (marking R) left' b₂ r₂ u₂)
    (hlt : marks (put R groups) < marks groups.flatten) :
    marks (u₁ ++ (put R groups ++ u₂)) < marks (a₁ ++ (groups.flatten ++ b₂)) := by
  have hle₁ := h.marks_le h₁
  have hle₂ := h.marks_le h₂
  simp only [marks_append]
  omega

/-- **A match that begins with a marked character takes it away.** -/
theorem lost_of_match (hdrops : DropsAll R) {p : Marked} {c : Char} {q : Marked}
    (hfirst : (marking R).first (behind none p) ((c, true) :: q) ≠ none) :
    marks ((marking R).sub (p ++ (c, true) :: q)) < marks (p ++ (c, true) :: q) := by
  have hpositive : ∀ {groups : List Marked} {d₁ d₂ rest : Marked}, groups.flatten = d₁ ++ d₂ → d₂ ≠ [] →
      (c, true) :: q = d₂ ++ rest → marks (put R groups) < marks groups.flatten := by
    intro groups d₁ d₂ rest hd hne hq
    obtain ⟨x, d, rfl⟩ := List.exists_cons_of_ne_nil hne
    obtain ⟨rfl, -⟩ := List.cons.inj hq
    rw [hdrops.marks_put, hd]
    simp
  rcases (scan_sub (marking R) (p ++ (c, true) :: q)).split with ⟨u₁, u₂, hu, h₁, h₂⟩ |
    ⟨a₁, d₁, d₂, b₂, groups, u₁, u₂, rfl, hb, hd₁, hd₂, hd, hmatch, hu, h₁, h₂⟩
  · rw [hu]
    generalize hq : (c, true) :: q = t at h₂ hfirst
    cases h₂ with
    | nil => cases hq
    | @keep _ _ _ _ _ hnone =>
      rw [List.append_nil] at hnone
      exact absurd hnone hfirst
    | @cut _ groups b₂ _ _ v u' hmatch ht hv h₂ =>
      have hlt := @hpositive groups [] _ _ rfl (Rule.ne_nil_of_first hmatch) (hq.trans ht)
      rw [hv, ht]
      exact hdrops.frugal.marks_lt h₁ h₂ hlt
  · rw [hu, hb, List.append_assoc, ← List.append_assoc d₁, ← hd]
    exact hdrops.frugal.marks_lt h₁ h₂ (hpositive hd hd₂ hb)

/-! ### One pattern -/

/-- The replacements end with a character of a class. -/
def EndsIn (l : Char → Bool) (R : Rule Char) : Prop :=
  ∃ c, l c = true ∧ ∀ groups : List Marked, (put R groups).getLast? = some (c, false)

theorem last_of_scan (hends : EndsIn l R) {a u : Marked} (h : Scan (marking R) left a rest u)
    (ha : ∀ x ∈ a.getLast?, l x.1 = true) : ∀ x ∈ u.getLast?, l x.1 = true := by
  obtain ⟨c, hc, hlast⟩ := hends
  induction h with
  | nil => exact ha
  | @keep left x t r u _ hscan ih =>
    intro y hy
    cases hu : u.getLast? with
    | none =>
      -- Nothing is made of what follows, for nothing follows.
      obtain rfl := List.getLast?_eq_none_iff.1 hu
      have ht : t = [] := by
        cases hscan with
        | nil => rfl
        | cut _ _ hput => exact absurd (hlast _) (by rw [put, (List.append_eq_nil_iff.1 hput.symm).1]; simp)
      subst ht
      exact ha y hy
    | some z =>
      rw [List.getLast?_cons, hu] at hy
      refine ih (fun w hw => ha w ?_) y (by rw [hu]; exact hy)
      rw [List.getLast?_cons, Option.mem_def.1 hw]
      rfl
  | @cut left groups t t' r u u' hmatch ht hu hscan ih =>
    intro y hy
    rw [hu, List.getLast?_append] at hy
    cases hlastu : u.getLast? with
    | none =>
      rw [hlastu] at hy
      have hput : some (c, false) = some y := (hlast groups).symm.trans hy
      rw [← Option.some.inj hput]
      exact hc
    | some z =>
      rw [hlastu] at hy
      refine ih (fun w hw => ha w ?_) y (by rw [hlastu]; exact hy)
      rw [ht, List.getLast?_append, Option.mem_def.1 hw]
      rfl

/-- What a pattern does to an occurrence: where a match lies across its start some of it goes, and where one lies
across its end some of it goes or what comes next is in the class of what may be behind. -/
structure Loosens (l r : Char → Bool) (s : Text) (R : Rule Char) : Prop where
  frugal : Frugal R
  ends : EndsIn l R
  /-- No match begins with what may be behind. -/
  start : ∀ left c t, r c = true → R.first left (c :: t) = none
  /-- A match that takes nothing but marked characters. -/
  within : ∀ {left t groups rest p}, (marking R).first left t = some (groups, rest) → groups.flatten = marked p →
    marks (put R groups) < marks groups.flatten
  /-- A match across the start. -/
  across : ∀ {left t groups rest d₁ x y c d₂}, (marking R).first left t = some (groups, rest) →
    groups.flatten = d₁ ++ (x, y) :: (c, true) :: d₂ → s.head? = some c → l x = true →
    marks (put R groups) < marks groups.flatten
  /-- A match across the end. -/
  beyond : ∀ {left t groups rest x y d₂ p q}, (marking R).first left t = some (groups, rest) →
    groups.flatten = marked p ++ (x, y) :: d₂ → marks ((x, y) :: d₂) = 0 → s = q ++ p → p ≠ [] → r x = true →
    marks (put R groups) < marks groups.flatten ∨
      ∃ o, put R groups = marked p ++ o ∧ marks o = 0 ∧ o ≠ [] ∧ ∀ z ∈ o.head?, r z.1 = true

/-- Nothing begins behind the occurrence. -/
theorem Loosens.head_of_scan (h : Loosens l r s R) {b u : Marked} (hscan : Scan (marking R) left b [] u)
    (hb : ∀ x ∈ b.head?, r x.1 = true) : ∀ x ∈ u.head?, r x.1 = true := by
  cases hscan with
  | nil => exact hb
  | keep => exact hb
  | @cut _ groups b₂ _ _ _ _ hmatch ht =>
    have hne := Rule.ne_nil_of_first hmatch
    have hmatch' := first_of_marking hmatch
    obtain ⟨x, d, hd⟩ := List.exists_cons_of_ne_nil hne
    rw [ht, hd] at hb
    rw [hd, List.cons_append, List.map_cons] at hmatch'
    rw [h.start _ _ _ (hb x rfl)] at hmatch'
    cases hmatch'

theorem Loosens.scan_marked (h : Loosens l r s R) {p : Text} {m u : Marked} (hscan : Scan (marking R) left m rest u)
    (hm : m = marked p) : u = marked p ∨ marks u < p.length := by
  induction hscan generalizing p with
  | nil => exact .inl hm
  | @keep left x t r u _ _ ih =>
    cases p with
    | nil => cases hm
    | cons c p =>
      obtain ⟨rfl, ht⟩ := List.cons.inj hm
      rcases ih ht with rfl | hlt
      · exact .inl rfl
      · refine .inr ?_
        rw [marks_cons, if_pos rfl, List.length_cons]
        omega
  | @cut left groups t t' r u u' hmatch ht hu hscan _ =>
    obtain ⟨p₁, p₂, rfl, hp₁, hp₂⟩ := List.map_eq_append_iff.1 (hm.symm.trans ht)
    have hlt := h.within hmatch hp₁.symm
    have hle := h.frugal.marks_le hscan
    have hsum : marks (groups.flatten ++ t) = (p₁ ++ p₂).length := by
      rw [← hp₁, ← hp₂, ← List.map_append]
      exact marks_marked _
    refine .inr ?_
    rw [marks_append] at hsum
    rw [hu, marks_append]
    show marks (put R groups) + marks u < _
    omega

/-- **An occurrence loses something or stands.** -/
theorem stands_sub (h : Loosens l r s R) (hs : s ≠ []) {m : Marked} (hstands : Stands l r s m) :
    Lost s ((marking R).sub m) ∨ Stands l r s ((marking R).sub m) := by
  obtain ⟨a, b, rfl, ha, hb, hl, hr⟩ := hstands
  have hmarks : marks (a ++ (marked s ++ b)) = s.length := by simp [ha, hb]
  rcases (scan_sub (marking R) (a ++ (marked s ++ b))).split with ⟨u₁, u, hu, h₁, hrest⟩ |
    ⟨a₁, d₁, d₂, b₂, groups, u₁, u₂, rfl, hb₂, hd₁, hd₂, hd, hmatch, hu, h₁, h₂⟩
  · have hu₁ : marks u₁ = 0 := Nat.le_zero.1 (ha ▸ h.frugal.marks_le h₁)
    have hlast := last_of_scan h.ends h₁ hl
    rw [hu]
    rcases hrest.split with ⟨u₂, u₃, rfl, h₂, h₃⟩ |
      ⟨p, d₁, d₂, b₂, groups, u₂, u₃, hp, rfl, hd₁, hd₂, hd, hmatch, rfl, h₂, h₃⟩
    · have hu₃ : marks u₃ = 0 := Nat.le_zero.1 (hb ▸ h.frugal.marks_le h₃)
      rcases h.scan_marked h₂ rfl with rfl | hlt
      · exact .inr ⟨u₁, u₃, rfl, hu₁, hu₃, hlast, h.head_of_scan h₃ hr⟩
      · refine .inl ?_
        rw [Lost, marks_append, marks_append]
        omega
    · -- A match lies across the end.
      obtain ⟨q, p', rfl, rfl, rfl⟩ := List.map_eq_append_iff.1 hp
      obtain ⟨⟨x, y⟩, d₂, rfl⟩ := List.exists_cons_of_ne_nil hd₂
      have hp' : p' ≠ [] := fun hnil => hd₁ (by rw [hnil]; rfl)
      rw [marks_append, Nat.add_eq_zero_iff] at hb
      obtain ⟨hd₂marks, hb₂⟩ := hb
      have hu₃ : marks u₃ = 0 := Nat.le_zero.1 (hb₂ ▸ h.frugal.marks_le h₃)
      have hflatten : marks groups.flatten = p'.length := by
        rw [hd, marks_append, hd₂marks]
        exact marks_marked p'
      have hput := h.frugal _ _ _ _ hmatch
      rcases h.beyond hmatch hd hd₂marks rfl hp' (hr _ rfl) with hlt | ⟨o, ho, homarks, hone, hohead⟩
      · refine .inl ?_
        have hu₂ := h.frugal.marks_le h₂
        rw [show marks (q.map (·, true)) = q.length from marks_marked q] at hu₂
        rw [Lost, List.length_append]
        show marks (u₁ ++ (u₂ ++ (put R groups ++ u₃))) < _
        simp only [marks_append]
        omega
      · rcases h.scan_marked h₂ rfl with rfl | hlt
        · refine .inr ⟨u₁, o ++ u₃, ?_, hu₁, by rw [marks_append, homarks, hu₃], hlast, ?_⟩
          · rw [show expand (marking R).template groups = put R groups from rfl, ho]
            simp [marked]
          · obtain ⟨z, o, rfl⟩ := List.exists_cons_of_ne_nil hone
            exact hohead
        · refine .inl ?_
          rw [Lost, List.length_append]
          show marks (u₁ ++ (u₂ ++ (put R groups ++ u₃))) < _
          simp only [marks_append]
          omega
  · -- A match lies across the start.
    refine .inl ?_
    rw [Lost, ← hmarks, hu, hb₂, List.append_assoc, ← List.append_assoc d₁, ← hd]
    refine h.frugal.marks_lt h₁ h₂ ?_
    obtain ⟨c, s', rfl⟩ := List.exists_cons_of_ne_nil hs
    obtain ⟨z, d₂, rfl⟩ := List.exists_cons_of_ne_nil hd₂
    obtain ⟨rfl, -⟩ := List.cons.inj hb₂
    obtain ⟨d₁, x, rfl⟩ := (List.eq_nil_or_concat d₁).resolve_left hd₁
    rw [List.concat_eq_append] at hd hl
    have hflatten : groups.flatten = d₁ ++ (x.1, x.2) :: (c, true) :: d₂ := by
      rw [hd, List.append_assoc]
      rfl
    refine h.across hmatch hflatten rfl (hl x ?_)
    rw [← List.append_assoc, List.getLast?_concat]
    rfl

/-! ### One pattern after another -/

theorem marks_foldl_le (rules : List (Rule Char)) (hrules : ∀ R ∈ rules, Frugal R) (m : Marked) :
    marks (rules.foldl (fun text R => (marking R).sub text) m) ≤ marks m := by
  induction rules generalizing m with
  | nil => exact le_rfl
  | cons R rules ih =>
    have hle := (hrules R List.mem_cons_self).marks_le (scan_sub (marking R) m)
    exact (ih (fun R' hR' => hrules R' (List.mem_cons_of_mem R hR')) _).trans hle

theorem lost_foldl (rules : List (Rule Char)) (hrules : ∀ R ∈ rules, Frugal R) {m : Marked} (hm : Lost s m) :
    Lost s (rules.foldl (fun text R => (marking R).sub text) m) :=
  (marks_foldl_le rules hrules m).trans_lt hm

theorem stands_foldl (hs : s ≠ []) (rules : List (Rule Char)) (hrules : ∀ R ∈ rules, Loosens l r s R) {m : Marked}
    (hm : Stands l r s m) :
    Lost s (rules.foldl (fun text R => (marking R).sub text) m) ∨
      Stands l r s (rules.foldl (fun text R => (marking R).sub text) m) := by
  induction rules generalizing m with
  | nil => exact .inr hm
  | cons R rules ih =>
    have hrest : ∀ R' ∈ rules, Loosens l r s R' := fun R' hR' => hrules R' (List.mem_cons_of_mem R hR')
    rcases stands_sub (hrules R List.mem_cons_self) hs hm with hlost | hstands
    · exact .inl (lost_foldl rules (fun R' hR' => (hrest R' hR').frugal) hlost)
    · exact ih hrest hstands

/-- **What one of the patterns takes is gone in the end**, where the patterns before it do not glue anything to it. -/
theorem lost_redactMarked (before after : List (Rule Char)) (hs : s ≠ []) (hpatterns : patterns L = before ++ R :: after)
    (hbefore : ∀ R' ∈ before, Loosens l r s R') (hafter : ∀ R' ∈ R :: after, Frugal R')
    (htakes : ∀ m, Stands l r s m → Lost s ((marking R).sub m)) {m : Marked} (hm : Stands l r s m) :
    Lost s (redactMarked L m) := by
  rw [redactMarked, hpatterns, List.foldl_append]
  rcases stands_foldl hs before hbefore hm with hlost | hstands
  · exact lost_foldl _ hafter hlost
  · exact lost_foldl after (fun R' hR' => hafter R' (List.mem_cons_of_mem R hR')) (htakes _ hstands)

/-! ### The kinds of patterns -/

theorem endsIn_of_template {front : List (Piece Char)} {text : Text} {c : Char} (hl : l c = true)
    (h : R.template = front ++ [.literal (text ++ [c])]) : EndsIn l R := by
  refine ⟨c, hl, fun groups => ?_⟩
  have hlast : put R groups = expand (front.map (Piece.map (·, false))) groups ++ (unmarked text ++ [(c, false)]) := by
    simp [put, marking, Rule.comap, h, expand, Piece.map, unmarked]
  rw [hlast, ← List.append_assoc, List.getLast?_concat]

theorem marked_ne_nil_marks {m : Marked} {p : Text} {d : Marked} (hm : marked p = m ++ d) (hd : d ≠ []) :
    0 < marks d := by
  obtain ⟨p₁, p₂, -, -, rfl⟩ := List.map_eq_append_iff.1 hm
  rw [show p₂.map (·, true) = marked p₂ from rfl, marks_marked]
  exact List.length_pos_iff.2 fun hnil => hd (by rw [hnil]; rfl)

/-- A pattern of whose matches nothing is kept. -/
theorem DropsAll.loosens (hdrops : DropsAll R) (hends : EndsIn l R)
    (hstart : ∀ left c t, r c = true → R.first left (c :: t) = none) : Loosens l r s R where
  frugal := hdrops.frugal
  ends := hends
  start := hstart
  within := by
    intro left t groups rest p hmatch hflatten
    rw [hdrops.marks_put]
    exact marked_ne_nil_marks (m := []) hflatten.symm (Rule.ne_nil_of_first hmatch)
  across := by
    intro left t groups rest d₁ x y c d₂ _ hflatten _ _
    rw [hdrops.marks_put, hflatten]
    simp
  beyond := by
    intro left t groups rest x y d₂ p q _ hflatten _ _ hp _
    refine .inl ?_
    rw [hdrops.marks_put, hflatten, marks_append, marks_marked]
    exact Nat.add_pos_left (List.length_pos_iff.2 hp) _

/-- The beginning of a match is kept, and made up of characters of a class; asterisks follow. -/
def KeepsBeginning (cls : Char → Bool) (R : Rule Char) : Prop :=
  ∀ left t groups rest, (marking R).first left t = some (groups, rest) → ∃ g v text,
    groups.flatten = g ++ v ∧ put R groups = g ++ unmarked ('*' :: text) ∧ v ≠ [] ∧ ∀ x ∈ g, cls x.1 = true

theorem KeepsBeginning.frugal {cls : Char → Bool} (hkeeps : KeepsBeginning cls R) : Frugal R := by
  intro left t groups rest hmatch
  obtain ⟨g, v, text, hflatten, hput, -⟩ := hkeeps _ _ _ _ hmatch
  rw [hflatten, hput, marks_append, marks_append, marks_unmarked]
  exact Nat.le_add_right _ _

theorem KeepsBeginning.loosens {cls : Char → Bool} (hkeeps : KeepsBeginning cls R) (hends : EndsIn l R)
    (hstart : ∀ left c t, r c = true → R.first left (c :: t) = none)
    (hapart : ∀ x c, l x = true → s.head? = some c → cls x = true → cls c = false) (hstar : r '*' = true) :
    Loosens l r s R where
  frugal := hkeeps.frugal
  ends := hends
  start := hstart
  within := by
    intro left t groups rest p hmatch hp
    obtain ⟨g, v, text, hflatten, hput, hv, -⟩ := hkeeps _ _ _ _ hmatch
    have hpos := marked_ne_nil_marks (hp.symm.trans hflatten) hv
    rw [hflatten, hput, marks_append, marks_append, marks_unmarked]
    omega
  across := by
    intro left t groups rest d₁ x y c d₂ hmatch hd hs hl
    obtain ⟨g, v, text, hflatten, hput, -, hcls⟩ := hkeeps _ _ _ _ hmatch
    have hpos : 0 < marks v := by
      rw [hd, ← List.singleton_append, ← List.append_assoc] at hflatten
      rcases List.append_eq_append_iff.1 hflatten with ⟨a, hg, hv⟩ | ⟨a, -, rfl⟩
      · cases a with
        | nil =>
          rw [← show (c, true) :: d₂ = v from hv]
          simp
        | cons z a =>
          obtain ⟨rfl, -⟩ := List.cons.inj hv
          have hx := hcls (x, y) (by rw [hg]; simp)
          have hc := hcls (c, true) (by rw [hg]; simp)
          rw [hapart x c hl hs hx] at hc
          cases hc
      · simp
    rw [hflatten, hput, marks_append, marks_append, marks_unmarked]
    omega
  beyond := by
    intro left t groups rest x y d₂ p q hmatch hd hmarks _ _ hr
    obtain ⟨g, v, text, hflatten, hput, -, -⟩ := hkeeps _ _ _ _ hmatch
    rcases List.append_eq_append_iff.1 (hd.symm.trans hflatten) with ⟨a, rfl, hv⟩ | ⟨a, hp, rfl⟩
    · refine .inr ⟨a ++ unmarked ('*' :: text), by rw [hput, List.append_assoc], ?_, by simp [unmarked], ?_⟩
      · rw [hv, marks_append] at hmarks
        rw [marks_append, marks_unmarked]
        omega
      · intro z hz
        cases a with
        | nil =>
          obtain rfl : ('*', false) = z := Option.some.inj hz
          exact hstar
        | cons w a =>
          obtain ⟨rfl, -⟩ := List.cons.inj hv
          obtain rfl : (x, y) = z := Option.some.inj hz
          exact hr
    · by_cases ha : a = []
      · subst ha
        rw [List.append_nil] at hp
        refine .inr ⟨unmarked ('*' :: text), by rw [hput, hp], marks_unmarked _, by simp [unmarked], fun z hz => ?_⟩
        obtain rfl : ('*', false) = z := Option.some.inj hz
        exact hstar
      · refine .inl ?_
        have hpos := marked_ne_nil_marks hp ha
        rw [hflatten, hput, marks_append, marks_append, marks_unmarked, marks_append]
        omega

end VpnBot.Redaction
