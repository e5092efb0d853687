import Mathlib.Data.List.Infix
import Mathlib.Data.List.Basic

/-!
# Replacing words one after another

`replaceFrom f old new` replaces the occurrences of a word from the left, each by `new`; the letters of the text may
carry more than the letter `f` that the word is compared with.  `coverFrom` leaves the text as it is and covers the
occurrences instead, those that share no letter with what is covered already.

As long as no occurrence of the word takes in a letter of `new` the two go together (`replaceFrom_collapse`): a text in
which words have been replaced one after another is the text with the places that `cover` covers collapsed
(`replaceAll_eq_collapse`).  `flags_coverAll` says that these places depend on nothing but where the words occur.
-/

namespace Covering

variable {α β γ : Type} [DecidableEq α]

/-! ### Replacing -/

/-- The text with the occurrences of a word replaced; the number counts the letters that are still to be skipped. -/
def replaceFrom (f : β → α) (old : List α) (new : List β) : ℕ → List β → List β
  | _, [] => []
  | skipped + 1, _ :: t => replaceFrom f old new skipped t
  | 0, b :: t =>
    if old <+: (b :: t).map f then new ++ replaceFrom f old new (old.length - 1) t
    else b :: replaceFrom f old new 0 t

/-- The text with the occurrences of words replaced, one word after another. -/
def replaceAll (f : β → α) (words : List (List α)) (new : List β) (t : List β) : List β :=
  words.foldl (fun t word => if word = [] then t else replaceFrom f word new 0 t) t

/-- What the letters carry is carried along. -/
theorem map_replaceFrom (f : β → α) (g : γ → β) (old : List α) (new : List γ) (skipped : ℕ) (t : List γ) :
    (replaceFrom (f ∘ g) old new skipped t).map g = replaceFrom f old (new.map g) skipped (t.map g) := by
  induction t generalizing skipped with
  | nil => cases skipped <;> rfl
  | cons b t ih =>
    cases skipped with
    | zero =>
      simp only [List.map_cons, replaceFrom, List.map_map, Function.comp_apply]
      split_ifs
      · rw [List.map_append, ih]
      · rw [List.map_cons, ih]
    | succ skipped => exact ih skipped

theorem map_replaceAll (f : β → α) (g : γ → β) (words : List (List α)) (new t : List γ) :
    (replaceAll (f ∘ g) words new t).map g = replaceAll f words (new.map g) (t.map g) := by
  induction words generalizing t with
  | nil => rfl
  | cons word words ih =>
    rw [replaceAll, List.foldl_cons, ← replaceAll, ih, replaceAll, replaceAll, List.foldl_cons]
    split_ifs
    · rfl
    · rw [map_replaceFrom]

variable {f : β → α} {new : List β} {old : List α} {words : List (List α)}

theorem length_replaceFrom_le (hold : old ≠ [])
    (h : new.length ≤ old.length) {skipped : ℕ} {t : List β} (hskipped : skipped ≤ t.length) :
    (replaceFrom f old new skipped t).length + skipped ≤ t.length := by
  have hpos := List.length_pos_iff.2 hold
  induction t generalizing skipped with
  | nil =>
    obtain rfl : skipped = 0 := Nat.le_zero.1 hskipped
    exact le_rfl
  | cons b t ih =>
    cases skipped with
    | zero =>
      rw [replaceFrom]
      split_ifs with hfits
      · have hle := hfits.length_le
        rw [List.length_map, List.length_cons] at hle
        have hrest := @ih (old.length - 1) (by omega)
        simp only [List.length_append, List.length_cons]
        omega
      · have hrest := ih (Nat.zero_le _)
        simp only [List.length_cons]
        omega
    | succ skipped =>
      rw [List.length_cons] at hskipped
      have hrest := @ih skipped (by omega)
      simp only [replaceFrom, List.length_cons]
      omega

theorem length_replaceAll_le (h : ∀ word ∈ words, new.length ≤ word.length) (t : List β) :
    (replaceAll f words new t).length ≤ t.length := by
  induction words generalizing t with
  | nil => exact le_rfl
  | cons word words ih =>
    obtain ⟨hword, hwords⟩ := List.forall_mem_cons.1 h
    rw [replaceAll, List.foldl_cons, ← replaceAll]
    split_ifs with hempty
    · exact ih hwords t
    · exact (ih hwords _).trans (length_replaceFrom_le hempty hword (Nat.zero_le _))

/-! ### Covering -/

/-- Whether a letter of the text is covered: it begins a covered place, or it is further on in one. -/
inductive Flag
  | shown
  | head
  | tail
  deriving DecidableEq

def shownLetter (f : β → α) (p : β × Flag) : Option α := if p.2 = .shown then some (f p.1) else none

/-- The text with the occurrences of a word covered. -/
def coverFrom (f : β → α) (old : List α) : ℕ → List (β × Flag) → List (β × Flag)
  | _, [] => []
  | skipped + 1, p :: t => (p.1, .tail) :: coverFrom f old skipped t
  | 0, p :: t =>
    if old.map some <+: (p :: t).map (shownLetter f) then
      (p.1, .head) :: coverFrom f old (old.length - 1) t
    else p :: coverFrom f old 0 t

/-- The text with the occurrences of words covered, one word after another. -/
def coverAll (f : β → α) (words : List (List α)) (t : List (β × Flag)) : List (β × Flag) :=
  words.foldl (fun t word => if word = [] then t else coverFrom f word 0 t) t

/-- A text that is not covered anywhere. -/
def uncovered (t : List β) : List (β × Flag) := t.map (·, .shown)

/-- What is left of a letter. -/
def leave (new : List β) (p : β × Flag) : List β :=
  match p.2 with
  | .shown => [p.1]
  | .head => new
  | .tail => []

/-- The text with its covered places collapsed. -/
def collapse (new : List β) (t : List (β × Flag)) : List β := t.flatMap (leave new)

variable {t : List (β × Flag)}

@[simp] theorem collapse_cons (new : List β) (p : β × Flag) (t : List (β × Flag)) :
    collapse new (p :: t) = leave new p ++ collapse new t := rfl

theorem collapse_uncovered (new t : List β) : collapse new (uncovered t) = t := by
  induction t with
  | nil => rfl
  | cons b t ih => exact congrArg (b :: ·) ih

theorem map_fst_coverFrom (f : β → α) (old : List α) (skipped : ℕ) (t : List (β × Flag)) :
    (coverFrom f old skipped t).map Prod.fst = t.map Prod.fst := by
  induction t generalizing skipped with
  | nil => cases skipped <;> rfl
  | cons p t ih =>
    cases skipped with
    | zero =>
      rw [coverFrom]
      split_ifs <;> exact congrArg (p.1 :: ·) (ih _)
    | succ skipped => exact congrArg (p.1 :: ·) (ih _)

/-- **The letters stay where they are.** -/
theorem map_fst_coverAll (f : β → α) (words : List (List α)) (t : List (β × Flag)) :
    (coverAll f words t).map Prod.fst = t.map Prod.fst := by
  induction words generalizing t with
  | nil => rfl
  | cons word words ih =>
    rw [coverAll, List.foldl_cons, ← coverAll, ih]
    split_ifs
    · rfl
    · exact map_fst_coverFrom f word 0 t

/-! ### Where a word is covered -/

omit [DecidableEq α] in
theorem prefix_shownLetter_iff :
    old.map some <+: t.map (shownLetter f) ↔
      old <+: t.map (f ∘ Prod.fst) ∧ ∀ flag ∈ (t.map Prod.snd).take old.length, flag = .shown := by
  induction old generalizing t with
  | nil => simp
  | cons c old ih =>
    cases t with
    | nil => simp
    | cons p t =>
      obtain ⟨b, flag⟩ := p
      cases flag <;> simp [shownLetter, ih, and_assoc, List.cons_prefix_cons]

/-- Where the words occur at the same places and the same letters are covered, the same letters are covered next. -/
theorem flags_coverFrom {g : γ → α} {old old' : List α} (hlength : old.length = old'.length)
    {t' : List (γ × Flag)} (hflags : t.map Prod.snd = t'.map Prod.snd)
    (hoccurs : ∀ i, old <+: (t.map (f ∘ Prod.fst)).drop i ↔ old' <+: (t'.map (g ∘ Prod.fst)).drop i)
    (skipped : ℕ) : (coverFrom f old skipped t).map Prod.snd = (coverFrom g old' skipped t').map Prod.snd := by
  induction t generalizing t' skipped with
  | nil =>
    obtain rfl : t' = [] := List.map_eq_nil_iff.1 hflags.symm
    cases skipped <;> rfl
  | cons p t ih =>
    cases t' with
    | nil => cases hflags
    | cons p' t' =>
      obtain ⟨hhead, htail⟩ := List.cons.inj hflags
      have hrest := ih htail fun i => hoccurs (i + 1)
      cases skipped with
      | zero =>
        have hfits : old.map some <+: (p :: t).map (shownLetter f) ↔
            old'.map some <+: (p' :: t').map (shownLetter g) := by
          rw [prefix_shownLetter_iff, prefix_shownLetter_iff, hlength, hflags]
          exact and_congr_left' (hoccurs 0)
        rw [coverFrom, coverFrom]
        simp only [hfits]
        split_ifs
        · simp only [List.map_cons, hlength, hrest]
        · simp only [List.map_cons, hhead, hrest]
      | succ skipped => simp only [coverFrom, List.map_cons, hrest]

/-- **The covered places depend on the places where the words occur**, and on the lengths of the words. -/
theorem flags_coverAll {g : γ → α} {words words' : List (List α)} {text text' : List α}
    (hwords : List.Forall₂ (fun word word' => word.length = word'.length ∧
      ∀ i, word <+: text.drop i ↔ word' <+: text'.drop i) words words')
    {t' : List (γ × Flag)} (hflags : t.map Prod.snd = t'.map Prod.snd)
    (ht : t.map (f ∘ Prod.fst) = text) (ht' : t'.map (g ∘ Prod.fst) = text') :
    (coverAll f words t).map Prod.snd = (coverAll g words' t').map Prod.snd := by
  induction hwords generalizing t t' with
  | nil => exact hflags
  | @cons word word' words words' hword hwords ih =>
    obtain ⟨hlength, hoccurs⟩ := hword
    have hnil : word = [] ↔ word' = [] := by rw [← List.length_eq_zero_iff, ← List.length_eq_zero_iff, hlength]
    rw [coverAll, coverAll, List.foldl_cons, List.foldl_cons, ← coverAll, ← coverAll]
    simp only [hnil]
    split_ifs with hempty
    · exact ih hflags ht ht'
    · refine ih (flags_coverFrom hlength hflags (fun i => ?_) 0) ?_ ?_
      · rw [ht, ht']
        exact hoccurs i
      · rw [← List.map_map, map_fst_coverFrom, List.map_map, ht]
      · rw [← List.map_map, map_fst_coverFrom, List.map_map, ht']

/-- What is left depends on the letters that are not covered. -/
theorem collapse_congr {t t' : List (β × Flag)}
    (h : List.Forall₂ (fun p p' => p.2 = p'.2 ∧ (p.2 = .shown → p.1 = p'.1)) t t') :
    collapse new t = collapse new t' := by
  induction h with
  | nil => rfl
  | @cons p p' t t' hp _ ih =>
    obtain ⟨b, flag⟩ := p
    obtain ⟨b', flag'⟩ := p'
    obtain ⟨rfl, hshown⟩ := hp
    rw [collapse_cons, collapse_cons, ih]
    cases flag with
    | shown =>
      obtain rfl : b = b' := hshown rfl
      rfl
    | _ => rfl

/-! ### Words that are found in what stands for others -/

/-- The collapsed text; its letters are told apart by whether they have been left. -/
def tell (new : List β) (t : List (β × Flag)) : List (β × Bool) :=
  collapse (new.map (·, false)) (t.map fun p => ((p.1, true), p.2))

/-- No occurrence of the word in the collapsed text takes in a letter of what stands for a covered place. -/
def Apart (f : β → α) (new : List β) (old : List α) (t : List (β × Flag)) : Prop :=
  ∀ i, old <+: ((tell new t).drop i).map (f ∘ Prod.fst) → ∀ p ∈ ((tell new t).drop i).take old.length, p.2 = true

/-- No word is found in what stands for the ones before it. -/
def AllApart (f : β → α) (new : List β) : List (List α) → List (β × Flag) → Prop
  | [], _ => True
  | word :: words, t => Apart f new word t ∧ AllApart f new words (if word = [] then t else coverFrom f word 0 t)

theorem tell_cons (new : List β) (p : β × Flag) (t : List (β × Flag)) :
    tell new (p :: t) = leave (new.map (·, false)) ((p.1, true), p.2) ++ tell new t := rfl

theorem map_fst_tell (new : List β) (t : List (β × Flag)) : (tell new t).map Prod.fst = collapse new t := by
  induction t with
  | nil => rfl
  | cons p t ih =>
    obtain ⟨b, flag⟩ := p
    rw [tell_cons, List.map_append, ih]
    cases flag <;> simp [leave, Function.comp_def]

theorem mem_new_of_tell {b : β} (h : (b, false) ∈ tell new t) : b ∈ new := by
  obtain ⟨p, hp, hb⟩ := List.mem_flatMap.1 h
  obtain ⟨⟨b', flag⟩, -, rfl⟩ := List.mem_map.1 hp
  cases flag <;> simp_all [leave]

omit [DecidableEq α] in
theorem apart_of_disjoint (h : ∀ b ∈ new, f b ∉ old) (t : List (β × Flag)) : Apart f new old t := by
  rintro i hprefix ⟨b, mark⟩ hp
  cases mark with
  | true => rfl
  | false =>
    have hmem : f b ∈ ((tell new t).drop i |>.map (f ∘ Prod.fst)).take old.length := by
      rw [← List.map_take]
      exact List.mem_map_of_mem hp
    rw [← List.prefix_iff_eq_take.1 hprefix] at hmem
    exact absurd hmem (h b (mem_new_of_tell (List.mem_of_mem_drop (List.mem_of_mem_take hp))))

omit [DecidableEq α] in
/-- **The first word** is found in nothing else. -/
theorem apart_uncovered (f : β → α) (new : List β) (old : List α) (t : List β) : Apart f new old (uncovered t) := by
  have htell : tell new (uncovered t) = t.map (·, true) := by
    rw [← collapse_uncovered (new.map (·, false)) (t.map (·, true)), tell, uncovered, uncovered, List.map_map,
      List.map_map]
    rfl
  intro i _ p hp
  rw [htell] at hp
  obtain ⟨b, -, rfl⟩ := List.mem_map.1 (List.mem_of_mem_drop (List.mem_of_mem_take hp))
  rfl

theorem allApart_of_disjoint
    (h : ∀ word ∈ words, ∀ b ∈ new, f b ∉ word) (t : List (β × Flag)) : AllApart f new words t := by
  induction words generalizing t with
  | nil => trivial
  | cons word words ih =>
    obtain ⟨hword, hwords⟩ := List.forall_mem_cons.1 h
    exact ⟨apart_of_disjoint hword t, ih hwords _⟩

/-- What the letters carry does not matter. -/
theorem map_coverFrom (f : β → α) (g : γ → β) (old : List α) (skipped : ℕ) (t : List (γ × Flag)) :
    (coverFrom (f ∘ g) old skipped t).map (Prod.map g id) = coverFrom f old skipped (t.map (Prod.map g id)) := by
  induction t generalizing skipped with
  | nil => cases skipped <;> rfl
  | cons p t ih =>
    cases skipped with
    | zero =>
      have hletters : ((p :: t).map (Prod.map g id)).map (shownLetter f) = (p :: t).map (shownLetter (f ∘ g)) := by
        rw [List.map_map]
        rfl
      rw [List.map_cons] at hletters
      rw [List.map_cons, coverFrom, coverFrom, hletters]
      split_ifs
      · exact congrArg _ (ih _)
      · exact congrArg _ (ih _)
    | succ skipped => exact congrArg _ (ih _)

theorem map_tell (g : γ → β) (new : List γ) (t : List (γ × Flag)) :
    (tell new t).map (Prod.map g id) = tell (new.map g) (t.map (Prod.map g id)) := by
  induction t with
  | nil => rfl
  | cons p t ih =>
    obtain ⟨b, flag⟩ := p
    rw [List.map_cons, tell_cons, tell_cons, List.map_append, ih]
    cases flag <;> simp [leave]

theorem AllApart.comap {g : γ → β} {new : List γ} {t : List (γ × Flag)}
    (h : AllApart f (new.map g) words (t.map (Prod.map g id))) : AllApart (f ∘ g) new words t := by
  induction words generalizing t with
  | nil => trivial
  | cons word words ih =>
    obtain ⟨hword, hwords⟩ := h
    refine ⟨fun i hprefix p hp => ?_, ih ?_⟩
    · refine hword i ?_ (Prod.map g id p) ?_
      · rwa [← map_tell, ← List.map_drop, List.map_map]
      · rw [← map_tell, ← List.map_drop, ← List.map_take]
        exact List.mem_map_of_mem hp
    · split_ifs at hwords ⊢
      · exact hwords
      · rwa [map_coverFrom]

/-! ### Replacing and covering -/

/-- A covered place begins with its first letter; the flag says whether a place may go on. -/
def Blocks : Bool → List (β × Flag) → Prop
  | _, [] => True
  | _, (_, .shown) :: t => Blocks false t
  | _, (_, .head) :: t => Blocks true t
  | goesOn, (_, .tail) :: t => goesOn = true ∧ Blocks true t

theorem Blocks.goesOn (h : Blocks false t) : Blocks true t := by
  cases t with
  | nil => trivial
  | cons p t =>
    obtain ⟨b, flag⟩ := p
    cases flag with
    | tail => exact absurd h.1 Bool.false_ne_true
    | _ => exact h

theorem blocks_uncovered (t : List β) : Blocks false (uncovered t) := by
  induction t with
  | nil => trivial
  | cons b t ih => exact ih

/-- Every letter of the list is shown. -/
def AllShown (t : List (β × Flag)) : Prop := ∀ p ∈ t, p.2 = .shown

omit [DecidableEq α] in
theorem allShown_of_begins (hold : old ≠ []) {p : β × Flag}
    (h : old.map some <+: (p :: t).map (shownLetter f)) :
    p.2 = .shown ∧ AllShown (t.take (old.length - 1)) := by
  have hflags := (prefix_shownLetter_iff.1 h).2
  obtain ⟨n, hn⟩ : ∃ n, old.length = n + 1 := Nat.exists_eq_succ_of_ne_zero (List.length_eq_zero_iff.not.2 hold)
  rw [hn, ← List.map_take, List.take_succ_cons, List.map_cons, List.forall_mem_cons] at hflags
  rw [hn, Nat.add_sub_cancel]
  exact ⟨hflags.1, fun q hq => hflags.2 q.2 (List.mem_map_of_mem hq)⟩

theorem blocks_coverFrom (hold : old ≠ []) {skipped : ℕ}
    {goesOn : Bool} (h : Blocks goesOn t) (hskipped : AllShown (t.take skipped))
    (hgoesOn : 0 < skipped → goesOn = true) : Blocks goesOn (coverFrom f old skipped t) := by
  induction t generalizing skipped goesOn with
  | nil => cases skipped <;> trivial
  | cons p t ih =>
    obtain ⟨b, flag⟩ := p
    have hnone : AllShown (t.take 0) := fun q hq => by cases hq
    cases skipped with
    | zero =>
      rw [coverFrom]
      split_ifs with hfits
      · obtain ⟨hflag, hall⟩ := allShown_of_begins hold hfits
        obtain rfl : flag = .shown := hflag
        exact ih (Blocks.goesOn h) hall fun _ => rfl
      · cases flag with
        | shown => exact ih (show Blocks false t from h) hnone (by omega)
        | head => exact ih (show Blocks true t from h) hnone (by omega)
        | tail => exact ⟨h.1, ih h.2 hnone (by omega)⟩
    | succ skipped =>
      obtain rfl : flag = .shown := hskipped (b, flag) List.mem_cons_self
      exact ⟨hgoesOn (by omega), ih (Blocks.goesOn h) (fun q hq => hskipped q (List.mem_cons_of_mem _ hq)) fun _ => rfl⟩

omit [DecidableEq α] in
theorem prefix_tell_iff (hnew : new ≠ []) (h : Blocks false t) :
    (old <+: (tell new t).map (f ∘ Prod.fst) ∧ ∀ p ∈ (tell new t).take old.length, p.2 = true) ↔
      old.map some <+: t.map (shownLetter f) := by
  induction t generalizing old with
  | nil => cases old <;> simp [tell, collapse]
  | cons p t ih =>
    cases old with
    | nil => simp
    | cons c old =>
      obtain ⟨b, flag⟩ := p
      cases flag with
      | shown =>
        have hrest := @ih old h
        simp [tell_cons, leave, shownLetter, List.cons_prefix_cons, ← hrest, and_assoc]
      | head =>
        obtain ⟨d, new, rfl⟩ := List.exists_cons_of_ne_nil hnew
        simp [tell_cons, leave, shownLetter, List.cons_prefix_cons]
      | tail => exact absurd h.1 Bool.false_ne_true

omit [DecidableEq α] in
theorem prefix_collapse_iff (hnew : new ≠ []) (hapart : Apart f new old t) (h : Blocks false t) :
    old <+: (collapse new t).map f ↔ old.map some <+: t.map (shownLetter f) := by
  rw [← prefix_tell_iff hnew h, ← map_fst_tell, List.map_map]
  exact (and_iff_left_of_imp (hapart 0)).symm

omit [DecidableEq α] in
theorem Apart.tail {p : β × Flag} (h : Apart f new old (p :: t)) : Apart f new old t := by
  intro i
  have hi := h ((leave (new.map (·, false)) ((p.1, true), p.2)).length + i)
  rwa [tell_cons, List.drop_append, List.drop_of_length_le (Nat.le_add_right _ _), List.nil_append,
    Nat.add_sub_cancel_left] at hi

/-- Letters at which no occurrence begins stay. -/
theorem replaceFrom_append {u t : List β} (new : List β)
    (hnot : ∀ i < u.length, ¬ old <+: ((u ++ t).drop i).map f) :
    replaceFrom f old new 0 (u ++ t) = u ++ replaceFrom f old new 0 t := by
  induction u with
  | nil => rfl
  | cons b u ih =>
    have hfirst : ¬ old <+: (b :: (u ++ t)).map f := hnot 0 (Nat.succ_pos _)
    rw [List.cons_append, replaceFrom, if_neg hfirst, ih fun i hi => hnot (i + 1) (Nat.succ_lt_succ hi),
      List.cons_append]

omit [DecidableEq α] in
/-- No occurrence begins in what stands for a covered place. -/
theorem Apart.not_prefix (hold : old ≠ []) {b : β}
    (h : Apart f new old ((b, .head) :: t)) {i : ℕ} (hi : i < new.length) :
    ¬ old <+: ((new ++ collapse new t).drop i).map f := by
  intro hprefix
  have htell : tell new ((b, .head) :: t) = new.map (·, false) ++ tell new t := rfl
  have hletters : (tell new ((b, .head) :: t)).map Prod.fst = new ++ collapse new t := map_fst_tell new _
  rw [← hletters, ← List.map_drop, List.map_map] at hprefix
  have hall := h i hprefix
  obtain ⟨c, old, rfl⟩ := List.exists_cons_of_ne_nil hold
  rw [htell, List.drop_append_of_le_length (by rw [List.length_map]; exact hi.le), ← List.map_drop,
    List.drop_eq_getElem_cons hi] at hall
  exact Bool.false_ne_true (hall _ List.mem_cons_self)

/-- **Replacing a word in the collapsed text covers it in the text.** -/
theorem replaceFrom_collapse (hold : old ≠ []) (hnew : new ≠ []) (hapart : Apart f new old t)
    {skipped : ℕ} {goesOn : Bool} (h : Blocks goesOn t) (hskipped : AllShown (t.take skipped)) :
    replaceFrom f old new skipped (collapse new t) = collapse new (coverFrom f old skipped t) := by
  induction t generalizing skipped goesOn with
  | nil => cases skipped <;> rfl
  | cons p t ih =>
    obtain ⟨b, flag⟩ := p
    have hnone : AllShown (t.take 0) := fun q hq => by cases hq
    have ih := @ih hapart.tail
    cases skipped with
    | zero =>
      cases flag with
      | shown =>
        have hcollapse : collapse new ((b, Flag.shown) :: t) = b :: collapse new t := rfl
        have hblocks : Blocks false ((b, Flag.shown) :: t) := h
        have hiff : old <+: (b :: collapse new t).map f ↔ old.map some <+: ((b, Flag.shown) :: t).map (shownLetter f) :=
          prefix_collapse_iff hnew hapart hblocks
        rw [hcollapse, replaceFrom, coverFrom]
        simp only [hiff]
        split_ifs with hfits
        · rw [ih h (allShown_of_begins hold hfits).2]
          rfl
        · rw [ih h hnone]
          rfl
      | head =>
        have hnot : ¬ old.map some <+: ((b, Flag.head) :: t).map (shownLetter f) := fun hfits =>
          absurd (allShown_of_begins hold hfits).1 (by simp)
        rw [coverFrom, if_neg hnot, collapse_cons, collapse_cons, ← ih h hnone]
        exact replaceFrom_append new fun i hi => hapart.not_prefix hold hi
      | tail =>
        have hnot : ¬ old.map some <+: ((b, Flag.tail) :: t).map (shownLetter f) := fun hfits =>
          absurd (allShown_of_begins hold hfits).1 (by simp)
        rw [coverFrom, if_neg hnot, collapse_cons, collapse_cons, ← ih h.2 hnone]
        rfl
    | succ skipped =>
      obtain rfl : flag = .shown := hskipped (b, flag) List.mem_cons_self
      exact ih h fun q hq => hskipped q (List.mem_cons_of_mem _ hq)

/-- **Words replaced one after another** are the text with its covered places collapsed. -/
theorem replaceAll_eq_collapse (hnew : new ≠ [])
    {t : List β} (h : AllApart f new words (uncovered t)) :
    replaceAll f words new t = collapse new (coverAll f words (uncovered t)) := by
  have hall : ∀ u : List (β × Flag), Blocks false u → AllApart f new words u →
      replaceAll f words new (collapse new u) = collapse new (coverAll f words u) := by
    clear h
    induction words with
    | nil => exact fun _ _ _ => rfl
    | cons word words ih =>
      rintro u hu ⟨hword, hwords⟩
      rw [replaceAll, coverAll, List.foldl_cons, List.foldl_cons, ← replaceAll, ← coverAll]
      split_ifs at hwords ⊢ with hempty
      · exact ih u hu hwords
      · have hnone : AllShown (u.take 0) := fun q hq => by cases hq
        rw [replaceFrom_collapse hempty hnew hword hu hnone]
        exact ih _ (blocks_coverFrom hempty hu hnone (by omega)) hwords
  have := hall (uncovered t) (blocks_uncovered t) h
  rwa [collapse_uncovered] at this

end Covering
