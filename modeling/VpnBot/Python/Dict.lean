import Mathlib.Data.List.Nodup
import Mathlib.Data.List.Lookmap
import Mathlib.Tactic.Common

/-!
# Insertion-ordered dictionaries

A `Dict κ ν` is a list of key-value pairs with pairwise distinct keys, in the order in which the
keys were first inserted; this is the `dict` of the Python language.  `set` replaces the value of
a key that is present in place and appends a key that is not; `erase` removes a key.
-/

namespace Py

/-- An insertion-ordered dictionary. -/
structure Dict (κ ν : Type) where
  items : List (κ × ν)
  nodup : (items.map Prod.fst).Nodup

namespace Dict

variable {κ ν : Type}

/-- The keys, in insertion order. -/
def keys (d : Dict κ ν) : List κ := d.items.map Prod.fst

/-- The values, in insertion order of their keys. -/
def values (d : Dict κ ν) : List ν := d.items.map Prod.snd

/-- The dictionary without entries. -/
def empty : Dict κ ν := ⟨[], List.nodup_nil⟩

@[ext] theorem ext {d e : Dict κ ν} (h : d.items = e.items) : d = e := by
  cases d; cases e; cases h; rfl

/-- A dictionary with one entry. -/
def singleton (k : κ) (v : ν) : Dict κ ν := ⟨[(k, v)], List.nodup_singleton k⟩

@[simp] theorem items_empty : (empty : Dict κ ν).items = [] := rfl
@[simp] theorem items_singleton (k : κ) (v : ν) : (singleton k v).items = [(k, v)] := rfl

/-- Two values stored under one key are equal. -/
theorem eq_of_mem_items {d : Dict κ ν} {k : κ} {v w : ν} (hv : (k, v) ∈ d.items)
    (hw : (k, w) ∈ d.items) : v = w := by
  have h := List.inj_on_of_nodup_map d.nodup hv hw rfl
  exact congrArg Prod.snd h

section Lookup

variable [DecidableEq κ]

/-- The value stored under a key. -/
def get? (d : Dict κ ν) (k : κ) : Option ν := (d.items.find? (fun p => p.1 = k)).map Prod.snd

theorem get?_eq_some_iff {d : Dict κ ν} {k : κ} {v : ν} :
    d.get? k = some v ↔ (k, v) ∈ d.items := by
  constructor
  · intro h
    obtain ⟨⟨k', v'⟩, hp, rfl⟩ := Option.map_eq_some_iff.1 h
    have hk : k' = k := by simpa using List.find?_some hp
    subst hk
    exact List.mem_of_find?_eq_some hp
  · intro h
    unfold get?
    cases hf : d.items.find? (fun p => p.1 = k) with
    | none => simpa using List.find?_eq_none.1 hf _ h
    | some p =>
      have hk : p.1 = k := by simpa using List.find?_some hf
      have hp : (k, p.2) ∈ d.items := by
        have := List.mem_of_find?_eq_some hf
        rwa [← hk]
      rw [Option.map_some, eq_of_mem_items hp h]

theorem get?_eq_none_iff {d : Dict κ ν} {k : κ} : d.get? k = none ↔ k ∉ d.keys := by
  unfold get? keys
  rw [Option.map_eq_none_iff, List.find?_eq_none]
  constructor
  · intro h hk
    obtain ⟨p, hp, rfl⟩ := List.mem_map.1 hk
    simpa using h p hp
  · intro h p hp
    simp only [decide_eq_true_eq]
    rintro rfl
    exact h (List.mem_map_of_mem hp)

@[simp] theorem get?_empty (k : κ) : (empty : Dict κ ν).get? k = none := rfl

/-- Membership of a key, as Python's `in`. -/
def contains (d : Dict κ ν) (k : κ) : Bool := (d.get? k).isSome

/-- Assignment `d[k] = v`: a present key keeps its place, a new key goes to the end. -/
def set (d : Dict κ ν) (k : κ) (v : ν) : Dict κ ν :=
  if h : k ∈ d.keys then
    ⟨d.items.map (fun p => if p.1 = k then (k, v) else p), by
      have : (d.items.map (fun p => if p.1 = k then (k, v) else p)).map Prod.fst
          = d.items.map Prod.fst := by
        rw [List.map_map]
        refine List.map_congr_left fun p _ => ?_
        simp only [Function.comp]
        split_ifs with hp
        · exact hp.symm
        · rfl
      rw [this]
      exact d.nodup⟩
  else
    ⟨d.items ++ [(k, v)], by
      rw [List.map_append, List.map_singleton]
      refine List.Nodup.append d.nodup (List.nodup_singleton k) ?_
      rw [List.disjoint_singleton]
      exact h⟩

theorem mem_items_set {d : Dict κ ν} {k k' : κ} {v v' : ν} :
    (k', v') ∈ (d.set k v).items ↔ (k' = k ∧ v' = v) ∨ (k' ≠ k ∧ (k', v') ∈ d.items) := by
  unfold set
  split_ifs with h
  · simp only [List.mem_map]
    constructor
    · rintro ⟨p, hp, he⟩
      split_ifs at he with hk
      · cases he; exact Or.inl ⟨rfl, rfl⟩
      · subst he; exact Or.inr ⟨hk, hp⟩
    · rintro (⟨rfl, rfl⟩ | ⟨hk, hm⟩)
      · obtain ⟨p, hp, hpk⟩ := List.mem_map.1 h
        exact ⟨p, hp, if_pos hpk⟩
      · exact ⟨_, hm, if_neg hk⟩
  · rw [List.mem_append, List.mem_singleton]
    constructor
    · rintro (hm | he)
      · refine Or.inr ⟨?_, hm⟩
        rintro rfl
        exact h (List.mem_map_of_mem hm)
      · cases he; exact Or.inl ⟨rfl, rfl⟩
    · rintro (⟨rfl, rfl⟩ | ⟨-, hm⟩)
      · exact Or.inr rfl
      · exact Or.inl hm

@[simp] theorem get?_set_self (d : Dict κ ν) (k : κ) (v : ν) : (d.set k v).get? k = some v :=
  get?_eq_some_iff.2 (mem_items_set.2 (Or.inl ⟨rfl, rfl⟩))

theorem get?_set_of_ne (d : Dict κ ν) {k k' : κ} (v : ν) (h : k' ≠ k) :
    (d.set k v).get? k' = d.get? k' := by
  refine Option.ext fun w => ?_
  rw [get?_eq_some_iff, get?_eq_some_iff, mem_items_set]
  simp [h]

theorem get?_set (d : Dict κ ν) (k k' : κ) (v : ν) :
    (d.set k v).get? k' = if k' = k then some v else d.get? k' := by
  split_ifs with h
  · subst h; exact get?_set_self d k' v
  · exact get?_set_of_ne d v h

/-- Assignment of a value that may be missing. -/
def setIfSome (d : Dict κ ν) (k : κ) : Option ν → Dict κ ν
  | some v => d.set k v
  | none => d

theorem get?_setIfSome (d : Dict κ ν) (k k' : κ) (v : Option ν) :
    (d.setIfSome k v).get? k' = if k' = k then v.or (d.get? k') else d.get? k' := by
  cases v with
  | none => simp [setIfSome]
  | some v => simp [setIfSome, get?_set]

theorem get?_singleton (k k' : κ) (v : ν) :
    (singleton k v).get? k' = if k' = k then some v else none := by
  simp only [get?, items_singleton, List.find?_cons, List.find?_nil]
  by_cases h : k = k'
  · simp [h]
  · simp [h, Ne.symm h]

/-- `d.update(e)`. -/
def update (d e : Dict κ ν) : Dict κ ν := e.items.foldl (fun d p => d.set p.1 p.2) d

@[simp] theorem update_empty (d : Dict κ ν) : d.update empty = d := rfl

theorem get?_foldl_set (l : List (κ × ν)) (hl : (l.map Prod.fst).Nodup) (d : Dict κ ν) (k : κ) :
    (l.foldl (fun d p => d.set p.1 p.2) d).get? k =
      ((l.find? fun p => p.1 = k).map Prod.snd).or (d.get? k) := by
  induction l generalizing d with
  | nil => rfl
  | cons p l ih =>
    rw [List.map_cons, List.nodup_cons] at hl
    rw [List.foldl_cons, ih hl.2, get?_set]
    by_cases hk : p.1 = k
    · have hnone : (l.find? fun q => q.1 = k) = none := by
        rw [List.find?_eq_none]
        intro q hq
        simp only [decide_eq_true_eq]
        intro he
        exact hl.1 (hk ▸ he ▸ List.mem_map_of_mem hq)
      rw [List.find?_cons_of_pos (by simpa using hk), hnone, if_pos hk.symm]
      rfl
    · rw [List.find?_cons_of_neg (by simpa using hk), if_neg (Ne.symm hk)]

theorem get?_update (d e : Dict κ ν) (k : κ) :
    (d.update e).get? k = (e.get? k).or (d.get? k) :=
  get?_foldl_set e.items e.nodup d k

/-- Removal `del d[k]`; a key that is not there is left alone. -/
def erase (d : Dict κ ν) (k : κ) : Dict κ ν :=
  ⟨d.items.filter (fun p => p.1 ≠ k), d.nodup.sublist (List.filter_sublist.map _)⟩

theorem mem_items_erase {d : Dict κ ν} {k : κ} {p : κ × ν} :
    p ∈ (d.erase k).items ↔ p ∈ d.items ∧ p.1 ≠ k := by
  simp [erase]

theorem get?_erase (d : Dict κ ν) (k k' : κ) :
    (d.erase k).get? k' = if k' = k then none else d.get? k' := by
  refine Option.ext fun w => ?_
  rw [get?_eq_some_iff, mem_items_erase]
  split_ifs with h
  · simp [h]
  · simp [get?_eq_some_iff, h]

theorem length_erase_lt {d : Dict κ ν} {k : κ} {v : ν} (h : d.get? k = some v) :
    (d.erase k).items.length < d.items.length := by
  refine List.length_filter_lt_length_iff_exists.2 ⟨(k, v), get?_eq_some_iff.1 h, ?_⟩
  simp

end Lookup

/-- The dictionary comprehension `{k: f(v) for k, v in d.items() if …}`. -/
def filterMap {μ : Type} (f : ν → Option μ) (d : Dict κ ν) : Dict κ μ :=
  ⟨d.items.filterMap (fun p => (f p.2).map (p.1, ·)), by
    have hsub : ((d.items.filterMap fun p => (f p.2).map (p.1, ·)).map Prod.fst).Sublist
        (d.items.map Prod.fst) := by
      induction d.items with
      | nil => exact List.Sublist.refl _
      | cons p l ih =>
        cases hf : f p.2 with
        | none => simpa [List.filterMap_cons, hf] using ih.cons p.1
        | some v => simpa [List.filterMap_cons, hf] using ih.cons_cons p.1
    exact d.nodup.sublist hsub⟩

theorem get?_filterMap [DecidableEq κ] {μ : Type} (f : ν → Option μ) (d : Dict κ ν) (k : κ) :
    (d.filterMap f).get? k = (d.get? k).bind f := by
  refine Option.ext fun w => ?_
  rw [get?_eq_some_iff, Option.bind_eq_some_iff]
  unfold filterMap
  simp only [List.mem_filterMap, Option.map_eq_some_iff, Prod.mk.injEq, Prod.exists]
  constructor
  · rintro ⟨k', v, hv, w', hw, rfl, rfl⟩
    exact ⟨v, get?_eq_some_iff.2 hv, hw⟩
  · rintro ⟨v, hv, hw⟩
    exact ⟨k, v, get?_eq_some_iff.1 hv, w, hw, rfl, rfl⟩

theorem mem_values_iff [DecidableEq κ] {d : Dict κ ν} {v : ν} :
    v ∈ d.values ↔ ∃ k, d.get? k = some v := by
  simp [values, get?_eq_some_iff]

end Dict

end Py
