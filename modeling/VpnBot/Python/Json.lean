import VpnBot.Python.Text

/-!
# JSON values

The values that Python's `json` reads: an object is a list of fields in the order of the document,
a number is kept as its `repr`.  `field` is `get` on a dictionary, with `null` for an absent key and
for a value that is no dictionary; `set` is the assignment to a key.
-/

namespace Py

inductive Json
  | null
  | bool (b : Bool)
  | num (repr : Text)
  | str (t : Text)
  | arr (items : List Json)
  | obj (fields : List (Text × Json))

namespace Json

/-- `bool(v)`. -/
def truthy : Json → Bool
  | .null => false
  | .bool b => b
  | .num r => !(["0".toList, "0.0".toList, "-0.0".toList].contains r)
  | .str t => !t.isEmpty
  | .arr l => !l.isEmpty
  | .obj fs => !fs.isEmpty

/-- `isinstance(v, dict)`. -/
def isObj : Json → Bool
  | .obj _ => true
  | _ => false

/-- `v == t` for a string `t`. -/
def isStr (v : Json) (t : Text) : Bool :=
  match v with
  | .str s => s = t
  | _ => false

/-- `isinstance(v, list)`, with the items. -/
def asArr : Json → Option (List Json)
  | .arr l => some l
  | _ => none

/-- The items of a list, none for another value. -/
def items (v : Json) : List Json := v.asArr.getD []

/-- The value of a key, if the key is there. -/
def field? : Json → Text → Option Json
  | .obj fs, k => (fs.find? fun p => p.1 = k).map Prod.snd
  | _, _ => none

/-- `v.get(k)` for a dictionary `v`. -/
def field (v : Json) (k : Text) : Json := (v.field? k).getD .null

/-- The first field of the key gets the value; a new key goes to the end. -/
def setField : List (Text × Json) → Text → Json → List (Text × Json)
  | [], k, v => [(k, v)]
  | p :: fs, k, v => if p.1 = k then (k, v) :: fs else p :: setField fs k v

/-- `d[k] = v` for a dictionary `d`. -/
def set : Json → Text → Json → Json
  | .obj fs, k, v => .obj (setField fs k v)
  | d, _, _ => d

@[simp] theorem items_arr (l : List Json) : (arr l).items = l := rfl

@[simp] theorem isObj_set (d : Json) (k : Text) (v : Json) : (d.set k v).isObj = d.isObj := by
  cases d <;> rfl

theorem find?_setField (fs : List (Text × Json)) (k k' : Text) (v : Json) :
    (setField fs k v).find? (fun p => p.1 = k') =
      if k' = k then some (k, v) else fs.find? fun p => p.1 = k' := by
  induction fs with
  | nil => by_cases h : k = k' <;> simp [setField, h, eq_comm]
  | cons p fs ih =>
    rw [setField]
    by_cases hp : p.1 = k
    · rw [if_pos hp]
      by_cases h : k' = k
      · rw [if_pos h, List.find?_cons_of_pos (by simp [h])]
      · rw [if_neg h, List.find?_cons_of_neg (by simpa using Ne.symm h),
          List.find?_cons_of_neg (by simpa [hp] using Ne.symm h)]
    · rw [if_neg hp]
      by_cases h : p.1 = k'
      · have hk : k' ≠ k := fun he => hp (h.trans he)
        rw [if_neg hk, List.find?_cons_of_pos (by simpa using h),
          List.find?_cons_of_pos (by simpa using h)]
      · rw [List.find?_cons_of_neg (by simpa using h), List.find?_cons_of_neg (by simpa using h), ih]

theorem field?_set {d : Json} (hd : d.isObj = true) (k k' : Text) (v : Json) :
    (d.set k v).field? k' = if k' = k then some v else d.field? k' := by
  cases d with
  | obj fs =>
    rw [set, field?, find?_setField]
    split_ifs <;> rfl
  | _ => cases hd

theorem field_set_self {d : Json} (hd : d.isObj = true) (k : Text) (v : Json) :
    (d.set k v).field k = v := by
  rw [field, field?_set hd, if_pos rfl, Option.getD_some]

theorem field_set_of_ne (d : Json) {k k' : Text} (v : Json) (h : k' ≠ k) :
    (d.set k v).field k' = d.field k' := by
  cases d with
  | obj fs => rw [field, field?_set rfl, if_neg h, field]
  | _ => rfl

end Json

end Py
