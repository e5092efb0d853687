import Mathlib.Data.List.Forall2
import Mathlib.Data.List.TakeWhile

/-!
# Patterns with backtracking

A pattern is a list of items that are read one after another: repetitions of a class, as long as possible first; one
of several words, the first that fits; word boundaries; a look at the next letter.  `parse` lists every way to read a
text from its start, in the order in which a backtracking matcher tries them, each with the pieces of the items and
with what is left behind; the match is the first of them.

Membership in `parse` says what was read and nothing of the order (`mem_parse_cons` with one lemma for each kind of
item).  Of the order only `head_of_first` is used: a repetition at the end of a pattern takes all it can.
-/

namespace Patterns

variable {α β : Type}

/-! ### Items -/

/-- The letter before what is still to be read, when a piece has been read. -/
def behind (left : Option α) (piece : List α) : Option α := piece.getLast?.or left

/-- Exactly one of the two letters around the place belongs to a word. -/
def isBoundary (word : α → Bool) (left : Option α) (t : List α) : Bool := left.any word != t.head?.any word

/-- The text begins with the word. -/
def begins : List (α → Bool) → List α → Bool
  | [], _ => true
  | _ :: _, [] => false
  | p :: w, c :: t => p c && begins w t

/-- What is read at one go: a class from so many to so many times, one of several words, nothing at a word boundary,
nothing where no letter of a class is ahead. -/
inductive Item (α : Type) where
  | many (atLeast : ℕ) (atMost : Option ℕ) (cls : α → Bool)
  | oneOf (words : List (List (α → Bool)))
  | boundary (word : α → Bool)
  | notAhead (cls : α → Bool)

namespace Item

/-- The ways to read the item: the piece and what is left, the preferred ones first. -/
def ends (left : Option α) (t : List α) : Item α → List (List α × List α)
  | many atLeast atMost cls =>
    let run := (t.takeWhile cls).length
    ((List.range (atMost.elim run (min run) + 1)).reverse.filter (atLeast ≤ ·)).map fun n => (t.take n, t.drop n)
  | oneOf words => (words.filter (begins · t)).map fun w => (t.take w.length, t.drop w.length)
  | boundary word => if isBoundary word left t then [([], t)] else []
  | notAhead cls => if t.head?.any cls then [] else [([], t)]

/-- The item for letters that carry more than the letter that is looked at. -/
def comap (f : β → α) : Item α → Item β
  | many atLeast atMost cls => many atLeast atMost (cls ∘ f)
  | oneOf words => oneOf (words.map (List.map (· ∘ f)))
  | boundary word => boundary (word ∘ f)
  | notAhead cls => notAhead (cls ∘ f)

/-- Nothing is read but by a letter at least. -/
def consumes : Item α → Bool
  | many atLeast _ _ => 0 < atLeast
  | oneOf words => words.all (!·.isEmpty)
  | _ => false

end Item

/-- The ways to read a text from its start: the pieces of the items and what is left. -/
def parse : List (Item α) → Option α → List α → List (List (List α) × List α)
  | [], _, t => [([], t)]
  | item :: items, left, t =>
    (item.ends left t).flatMap fun p => (parse items (behind left p.1) p.2).map fun q => (p.1 :: q.1, q.2)

/-- The match at the start of a text. -/
def first (items : List (Item α)) (left : Option α) (t : List α) : Option (List (List α) × List α) :=
  (parse items left t).head?

/-- Letter by letter in the classes of a word. -/
def Spells (w : List (α → Bool)) (piece : List α) : Prop := List.Forall₂ (fun p c => p c = true) w piece

/-! ### What was read -/

@[simp] theorem behind_nil (left : Option α) : behind left [] = left := rfl

@[simp] theorem behind_append_cons (left : Option α) (a : List α) (c : α) (b : List α) :
    behind left (a ++ c :: b) = behind (some c) b := by
  cases hb : b.getLast? with
  | none =>
    obtain rfl := List.getLast?_eq_none_iff.1 hb
    simp [behind]
  | some d => simp [behind, List.getLast?_append, List.getLast?_cons, hb]

theorem behind_cons (left : Option α) (c : α) (b : List α) : behind left (c :: b) = behind (some c) b :=
  behind_append_cons left [] c b

theorem behind_append (left : Option α) (a b : List α) : behind left (a ++ b) = behind (behind left a) b := by
  cases b with
  | nil => simp
  | cons c b => rw [behind_append_cons, behind_cons]

theorem behind_eq_some {left : Option α} {a : List α} (h : a ≠ []) : ∃ c ∈ a, behind left a = some c :=
  ⟨a.getLast h, List.getLast_mem h, by simp [behind, List.getLast?_eq_getLast_of_ne_nil h]⟩

@[simp] theorem behind_none (a : List α) : behind none a = a.getLast? := Option.or_none

theorem isBoundary_of_left {word : α → Bool} {left : Option α} {c : α} (hleft : ∀ x ∈ left, word x = false)
    (hc : word c = true) (t : List α) : isBoundary word left (c :: t) = true := by
  have hany : left.any word = false := by
    cases left with
    | none => rfl
    | some x => exact hleft x rfl
  rw [isBoundary, hany]
  simp [hc]

theorem isBoundary_of_right {word : α → Bool} {t : List α} {c : α} (hc : word c = true)
    (ht : ∀ x ∈ t.head?, word x = false) : isBoundary word (some c) t = true := by
  have hany : t.head?.any word = false := by
    cases t with
    | nil => rfl
    | cons x t => exact ht x rfl
  rw [isBoundary, hany]
  simp [hc]

@[simp] theorem begins_append_iff {w : List (α → Bool)} {t : List α} :
    begins w t = true ↔ ∃ piece rest, t = piece ++ rest ∧ Spells w piece := by
  induction w generalizing t with
  | nil => exact ⟨fun _ => ⟨[], t, rfl, .nil⟩, fun _ => rfl⟩
  | cons p w ih =>
    cases t with
    | nil =>
      refine ⟨fun h => absurd h (by simp [begins]), ?_⟩
      rintro ⟨piece, rest, ht, hw⟩
      obtain rfl := (List.append_eq_nil_iff.1 ht.symm).1
      cases hw
    | cons c t =>
      rw [begins, Bool.and_eq_true, ih]
      constructor
      · rintro ⟨hp, piece, rest, rfl, hw⟩
        exact ⟨c :: piece, rest, rfl, .cons hp hw⟩
      · rintro ⟨piece, rest, ht, hw⟩
        cases hw with
        | cons hp hw =>
          obtain ⟨rfl, rfl⟩ := List.cons.inj ht
          exact ⟨hp, _, rest, rfl, hw⟩

theorem Spells.length_eq {w : List (α → Bool)} {piece : List α} (h : Spells w piece) : w.length = piece.length :=
  List.Forall₂.length_eq h

theorem spells_append {w₁ w₂ : List (α → Bool)} {piece : List α} :
    Spells (w₁ ++ w₂) piece ↔ ∃ p₁ p₂, piece = p₁ ++ p₂ ∧ Spells w₁ p₁ ∧ Spells w₂ p₂ := by
  induction w₁ generalizing piece with
  | nil =>
    refine ⟨fun h => ⟨[], piece, rfl, .nil, h⟩, ?_⟩
    rintro ⟨p₁, p₂, rfl, h₁, h₂⟩
    cases h₁
    exact h₂
  | cons p w₁ ih =>
    constructor
    · intro h
      cases h with
      | @cons _ c _ _ hp h =>
        obtain ⟨p₁, p₂, rfl, h₁, h₂⟩ := ih.1 h
        exact ⟨c :: p₁, p₂, rfl, .cons hp h₁, h₂⟩
    · rintro ⟨p₁, p₂, rfl, h₁, h₂⟩
      cases h₁ with
      | cons hp h₁ => exact .cons hp (ih.2 ⟨_, p₂, rfl, h₁, h₂⟩)

section Items

variable {left : Option α} {t piece rest : List α}

theorem mem_ends_many {atLeast : ℕ} {atMost : Option ℕ} {cls : α → Bool} :
    (piece, rest) ∈ (Item.many atLeast atMost cls).ends left t ↔
      t = piece ++ rest ∧ (∀ c ∈ piece, cls c = true) ∧ atLeast ≤ piece.length ∧
        ∀ n ∈ atMost, piece.length ≤ n := by
  have hmost : ∀ n : ℕ, n ≤ atMost.elim (t.takeWhile cls).length (min (t.takeWhile cls).length) ↔
      n ≤ (t.takeWhile cls).length ∧ ∀ m ∈ atMost, n ≤ m := by
    intro n
    cases atMost with
    | none => simp
    | some m =>
      rw [Option.elim_some, Nat.le_min]
      simp
  simp only [Item.ends, List.mem_map, List.mem_filter, List.mem_reverse, List.mem_range, Nat.lt_succ_iff, hmost,
    decide_eq_true_eq, Prod.mk.injEq]
  constructor
  · rintro ⟨n, ⟨⟨hn, hatMost⟩, hatLeast⟩, rfl, rfl⟩
    have hlength : (t.take n).length = n :=
      List.length_take_of_le (hn.trans (List.takeWhile_prefix cls).length_le)
    refine ⟨(List.take_append_drop n t).symm, fun c hc => ?_, hlength.symm ▸ hatLeast, ?_⟩
    · have hinitial := List.prefix_of_prefix_length_le (List.take_prefix n t) (List.takeWhile_prefix cls)
        (hlength.symm ▸ hn)
      exact List.mem_takeWhile_imp (hinitial.subset hc)
    · simpa only [hlength] using hatMost
  · rintro ⟨rfl, hpiece, hatLeast, hatMost⟩
    refine ⟨piece.length, ⟨⟨?_, hatMost⟩, hatLeast⟩, List.take_left, List.drop_left⟩
    rw [List.takeWhile_append_of_pos hpiece, List.length_append]
    exact Nat.le_add_right _ _

theorem mem_ends_oneOf {words : List (List (α → Bool))} :
    (piece, rest) ∈ (Item.oneOf words).ends left t ↔ t = piece ++ rest ∧ ∃ w ∈ words, Spells w piece := by
  simp only [Item.ends, List.mem_map, List.mem_filter, begins_append_iff, Prod.mk.injEq]
  constructor
  · rintro ⟨w, ⟨hw, a, b, rfl, hspells⟩, rfl, rfl⟩
    rw [hspells.length_eq, List.take_left, List.drop_left]
    exact ⟨rfl, w, hw, hspells⟩
  · rintro ⟨rfl, w, hw, hspells⟩
    exact ⟨w, ⟨hw, piece, rest, rfl, hspells⟩, by rw [hspells.length_eq, List.take_left],
      by rw [hspells.length_eq, List.drop_left]⟩

theorem mem_ends_boundary {word : α → Bool} :
    (piece, rest) ∈ (Item.boundary word).ends left t ↔ piece = [] ∧ rest = t ∧ isBoundary word left t = true := by
  by_cases h : isBoundary word left t = true <;> simp [Item.ends, h]

theorem mem_ends_notAhead {cls : α → Bool} :
    (piece, rest) ∈ (Item.notAhead cls).ends left t ↔ piece = [] ∧ rest = t ∧ t.head?.any cls = false := by
  by_cases h : t.head?.any cls = true <;> simp [Item.ends, h]

/-- What is read stands at the start of the text. -/
theorem append_of_mem_ends {item : Item α} (h : (piece, rest) ∈ item.ends left t) : t = piece ++ rest := by
  cases item with
  | many atLeast atMost cls => exact (mem_ends_many.1 h).1
  | oneOf words => exact (mem_ends_oneOf.1 h).1
  | boundary word =>
    obtain ⟨rfl, rfl, -⟩ := mem_ends_boundary.1 h
    rfl
  | notAhead cls =>
    obtain ⟨rfl, rfl, -⟩ := mem_ends_notAhead.1 h
    rfl

theorem ne_nil_of_mem_ends {item : Item α} (hconsumes : item.consumes = true)
    (h : (piece, rest) ∈ item.ends left t) : piece ≠ [] := by
  cases item with
  | many atLeast atMost cls =>
    have hpos : 0 < atLeast := of_decide_eq_true hconsumes
    exact List.ne_nil_of_length_pos (hpos.trans_le (mem_ends_many.1 h).2.2.1)
  | oneOf words =>
    obtain ⟨-, w, hw, hspells⟩ := mem_ends_oneOf.1 h
    have hne : w ≠ [] := by simpa using List.all_eq_true.1 hconsumes w hw
    rintro rfl
    exact hne (List.length_eq_zero_iff.1 hspells.length_eq)
  | boundary word => exact absurd hconsumes Bool.false_ne_true
  | notAhead cls => exact absurd hconsumes Bool.false_ne_true

end Items

section Parse

variable {items : List (Item α)} {left : Option α} {t rest : List α} {groups : List (List α)}

@[simp] theorem mem_parse_nil : (groups, rest) ∈ parse [] left t ↔ groups = [] ∧ rest = t := by
  simp [parse]

theorem mem_parse_cons {item : Item α} : (groups, rest) ∈ parse (item :: items) left t ↔
    ∃ piece mid groups', groups = piece :: groups' ∧ (piece, mid) ∈ item.ends left t ∧
      (groups', rest) ∈ parse items (behind left piece) mid := by
  simp only [parse, List.mem_flatMap, List.mem_map, Prod.exists, Prod.mk.injEq]
  constructor
  · rintro ⟨piece, mid, hpiece, groups', rest', hrest, rfl, rfl⟩
    exact ⟨piece, mid, groups', rfl, hpiece, hrest⟩
  · rintro ⟨piece, mid, groups', rfl, hpiece, hrest⟩
    exact ⟨piece, mid, hpiece, groups', rest, hrest, rfl, rfl⟩

theorem append_of_mem_parse (h : (groups, rest) ∈ parse items left t) : t = groups.flatten ++ rest := by
  induction items generalizing left t groups with
  | nil =>
    obtain ⟨rfl, rfl⟩ := mem_parse_nil.1 h
    rfl
  | cons item items ih =>
    obtain ⟨piece, mid, groups', rfl, hpiece, hrest⟩ := mem_parse_cons.1 h
    rw [append_of_mem_ends hpiece, ih hrest, List.flatten_cons, List.append_assoc]

theorem ne_nil_of_mem_parse (hconsumes : items.any Item.consumes = true)
    (h : (groups, rest) ∈ parse items left t) : groups.flatten ≠ [] := by
  induction items generalizing left t groups with
  | nil => exact absurd hconsumes Bool.false_ne_true
  | cons item items ih =>
    obtain ⟨piece, mid, groups', rfl, hpiece, hrest⟩ := mem_parse_cons.1 h
    intro hnil
    obtain ⟨hpieceNil, hgroupsNil⟩ := List.append_eq_nil_iff.1 hnil
    rw [List.any_cons, Bool.or_eq_true] at hconsumes
    rcases hconsumes with hitem | hitems
    · exact ne_nil_of_mem_ends hitem hpiece hpieceNil
    · exact ih hitems hrest hgroupsNil

theorem mem_parse_of_first {m : List (List α) × List α} (h : first items left t = some m) : m ∈ parse items left t :=
  List.mem_of_mem_head? h

theorem first_eq_none_iff : first items left t = none ↔ ∀ m, m ∉ parse items left t := by
  rw [first, List.head?_eq_none_iff, List.eq_nil_iff_forall_not_mem]

/-- The longest repetition is the first one. -/
theorem head_of_head_ends {atLeast : ℕ} {cls : α → Bool} {piece : List α}
    (h : ((Item.many atLeast none cls).ends left t).head? = some (piece, rest)) : rest.head?.any cls = false := by
  rw [Item.ends, List.head?_map, Option.map_eq_some_iff] at h
  obtain ⟨n, hn, hrest⟩ := h
  have hlongest : n = (t.takeWhile cls).length := by
    rw [Option.elim_none, List.range_succ, List.reverse_append, List.reverse_singleton, List.singleton_append,
      List.filter_cons] at hn
    split_ifs at hn with hle
    · exact (Option.some.inj hn).symm
    · have hmem := List.mem_of_mem_head? hn
      simp only [List.mem_filter, List.mem_reverse, List.mem_range, decide_eq_true_eq] at hmem hle
      omega
  have hdrop : t.drop (t.takeWhile cls).length = t.dropWhile cls := by
    have hleft : (t.takeWhile cls ++ t.dropWhile cls).drop (t.takeWhile cls).length = t.dropWhile cls := List.drop_left
    rwa [List.takeWhile_append_dropWhile] at hleft
  obtain ⟨-, rfl⟩ := Prod.mk.inj hrest
  rw [hlongest, hdrop]
  have hhead := List.head?_dropWhile_not cls t
  cases hd : (t.dropWhile cls).head? with
  | none => rfl
  | some c => simpa [hd] using hhead

/-- **A repetition at the end takes all it can.** -/
theorem head_of_first {atLeast : ℕ} {cls : α → Bool}
    (h : first (items ++ [.many atLeast none cls]) left t = some (groups, rest)) : rest.head?.any cls = false := by
  induction items generalizing left t groups with
  | nil =>
    have hlast : parse [Item.many atLeast none cls] left t =
        ((Item.many atLeast none cls).ends left t).map fun p => ([p.1], p.2) := by
      simp [parse, ← List.map_eq_flatMap]
    rw [List.nil_append, first, hlast, List.head?_map, Option.map_eq_some_iff] at h
    obtain ⟨⟨piece, mid⟩, hhead, hmid⟩ := h
    obtain ⟨-, rfl⟩ := Prod.mk.inj hmid
    exact head_of_head_ends hhead
  | cons item items ih =>
    rw [List.cons_append, first, parse, List.head?_flatMap] at h
    obtain ⟨⟨piece, mid⟩, -, hmid⟩ := List.exists_of_findSome?_eq_some h
    rw [List.head?_map, Option.map_eq_some_iff] at hmid
    obtain ⟨⟨groups', rest'⟩, hfirst, hrest⟩ := hmid
    obtain ⟨-, rfl⟩ := Prod.mk.inj hrest
    exact ih hfirst

end Parse

/-! ### Letters that carry more -/

section Comap

variable (f : β → α)

theorem begins_comap (w : List (α → Bool)) (t : List β) : begins (w.map (· ∘ f)) t = begins w (t.map f) := by
  induction w generalizing t with
  | nil => rfl
  | cons p w ih =>
    cases t with
    | nil => rfl
    | cons c t => rw [List.map_cons, List.map_cons, begins, begins, ih, Function.comp_apply]

theorem isBoundary_comap (word : α → Bool) (left : Option β) (t : List β) :
    isBoundary (word ∘ f) left t = isBoundary word (left.map f) (t.map f) := by
  cases left <;> cases t <;> rfl

theorem behind_map (left : Option β) (piece : List β) :
    (behind left piece).map f = behind (left.map f) (piece.map f) := by
  rw [behind, behind, List.getLast?_map]
  cases piece.getLast? <;> rfl

/-- Pieces without what their letters carry besides. -/
def plain (p : List β × List β) : List α × List α := (p.1.map f, p.2.map f)

theorem ends_comap (item : Item α) (left : Option β) (t : List β) :
    ((item.comap f).ends left t).map (plain f) = item.ends (left.map f) (t.map f) := by
  cases item with
  | many atLeast atMost cls =>
    have hrun : (t.map f).takeWhile cls = (t.takeWhile (cls ∘ f)).map f := List.takeWhile_map
    simp [Item.comap, Item.ends, plain, hrun, List.map_take, List.map_drop, Function.comp_def]
  | oneOf words =>
    have hbegins : ∀ w : List (α → Bool), begins (w.map fun p c => p (f c)) t = begins w (t.map f) :=
      (begins_comap f · t)
    simp [Item.comap, Item.ends, plain, List.filter_map, hbegins, List.map_take, List.map_drop, Function.comp_def]
  | boundary word =>
    rw [Item.comap, Item.ends, Item.ends, isBoundary_comap]
    split_ifs <;> rfl
  | notAhead cls =>
    have hhead : (t.map f).head?.any cls = t.head?.any (cls ∘ f) := by cases t <;> rfl
    rw [Item.comap, Item.ends, Item.ends, hhead]
    split_ifs <;> rfl

/-- The pieces of a match without what their letters carry besides. -/
def plainMatch (q : List (List β) × List β) : List (List α) × List α := (q.1.map (List.map f), q.2.map f)

theorem parse_comap (items : List (Item α)) (left : Option β) (t : List β) :
    (parse (items.map (Item.comap f)) left t).map (plainMatch f) = parse items (left.map f) (t.map f) := by
  induction items generalizing left t with
  | nil => rfl
  | cons item items ih =>
    rw [List.map_cons, parse, parse, ← ends_comap, List.flatMap_map, List.map_flatMap]
    refine congrArg (List.flatMap · _) (funext fun p => ?_)
    simp only [plain, ← behind_map, ← ih, List.map_map]
    rfl

theorem first_comap (items : List (Item α)) (left : Option β) (t : List β) :
    (first (items.map (Item.comap f)) left t).map (plainMatch f) = first items (left.map f) (t.map f) := by
  rw [first, first, ← parse_comap, List.head?_map]

theorem consumes_comap (item : Item α) : (item.comap f).consumes = item.consumes := by
  cases item with
  | oneOf words => simp [Item.comap, Item.consumes, Function.comp_def]
  | _ => rfl

end Comap

end Patterns
