import Mathlib.Algebra.Order.Ring.Rat
import Mathlib.Tactic.SplitIfs

/-!
# JSON values and their checked access

The part of a JSON library that programs use to read a document and to change it: members of an
object with a default for those that are absent, conversions that fail on a value of another type,
and assignment to a member. `none` stands for the library's exceptions.

The members of an object are a list of pairs. `set` replaces the value of a member that is there
and appends one that is not, so every other member keeps its value.
-/

namespace JeogiAt

inductive Json
  | null
  | bool (b : Bool)
  | int (n : ℤ)
  | float (x : ℚ)
  | str (s : String)
  | arr (items : List Json)
  | obj (members : List (String × Json))

namespace Json

def find? (j : Json) (key : String) : Option Json :=
  match j with
  | obj members => members.lookup key
  | _ => none

/-- A missing key gives the default; a value that is no object, and a member of another type,
fail. -/
def value {α : Type*} (j : Json) (key : String) (default : α) (get : Json → Option α) : Option α :=
  match j with
  | obj members =>
      match members.lookup key with
      | some v => get v
      | none => some default
  | _ => none

def setMember (key : String) (v : Json) : List (String × Json) → List (String × Json)
  | [] => [(key, v)]
  | (k, w) :: rest => if k = key then (key, v) :: rest else (k, w) :: setMember key v rest

/-- Assignment to a member. `null` becomes an object, any other value fails. -/
def set (j : Json) (key : String) (v : Json) : Option Json :=
  match j with
  | obj members => some (obj (setMember key v members))
  | null => some (obj [(key, v)])
  | _ => none

/-- `operator[]` of a value that may change: a missing member is made, and is `null`. -/
def member (j : Json) (key : String) : Option Json :=
  match j with
  | obj members => some ((members.lookup key).getD null)
  | null => some null
  | _ => none

/-- What a loop over a value goes through: of an object the values of its members, in the order of
its map, and any other single value once. -/
def elements : Json → List Json
  | null => []
  | arr items => items
  | obj members => members.map Prod.snd
  | j => [j]

def getString : Json → Option String
  | str s => some s
  | _ => none

def getInt : Json → Option Int32
  | int n => some (Int32.ofInt n)
  | float x => some (Int32.ofInt (x.num.tdiv x.den))
  | bool b => some (if b then 1 else 0)
  | _ => none

/-- Conversion to `float`, without rounding. -/
def getFloat : Json → Option ℚ
  | int n => some n
  | float x => some x
  | bool b => some (if b then 1 else 0)
  | _ => none

def getFloats : Json → Option (List ℚ)
  | arr items => items.mapM getFloat
  | _ => none

theorem lookup_cons_eq {β : Type*} (key k : String) (v : β) (members : List (String × β)) :
    ((k, v) :: members).lookup key = if key = k then some v else members.lookup key := by
  by_cases h : key = k
  · rw [h, List.lookup_cons_self, if_pos rfl]
  · rw [List.lookup_cons, beq_false_of_ne h, if_neg h]

theorem lookup_setMember (key k : String) (v : Json) (members : List (String × Json)) :
    (setMember key v members).lookup k = if k = key then some v else members.lookup k := by
  induction members with
  | nil => rw [setMember, lookup_cons_eq]
  | cons member rest ih =>
    obtain ⟨name, w⟩ := member
    rw [setMember, lookup_cons_eq]
    by_cases hname : name = key
    · rw [if_pos hname, lookup_cons_eq, hname]
      split_ifs <;> rfl
    · rw [if_neg hname, lookup_cons_eq, ih]
      by_cases hk : k = name
      · rw [if_pos hk, if_pos hk, if_neg (hk ▸ hname)]
      · rw [if_neg hk, if_neg hk]

theorem setMember_of_lookup {key : String} {v : Json} {members : List (String × Json)}
    (h : members.lookup key = some v) : setMember key v members = members := by
  induction members with
  | nil => cases h
  | cons member rest ih =>
    obtain ⟨name, w⟩ := member
    rw [lookup_cons_eq] at h
    by_cases hname : key = name
    · rw [if_pos hname] at h
      rw [setMember, if_pos hname.symm, hname, Option.some.inj h]
    · rw [if_neg hname] at h
      rw [setMember, if_neg (Ne.symm hname), ih h]

/-- A member assigned has its new value, and every other one keeps its own. -/
theorem find?_set {key : String} {v j j' : Json} (h : j.set key v = some j') (k : String) :
    j'.find? k = if k = key then some v else j.find? k := by
  cases j with
  | obj members =>
    cases h
    exact lookup_setMember key k v members
  | null =>
    cases h
    exact lookup_cons_eq k key v []
  | bool b => cases h
  | int n => cases h
  | float x => cases h
  | str s => cases h
  | arr items => cases h

theorem exists_obj_of_set {key : String} {v j j' : Json} (h : j.set key v = some j') :
    ∃ members, j' = obj members := by
  cases j with
  | obj members => exact ⟨_, (Option.some.inj h).symm⟩
  | null => exact ⟨_, (Option.some.inj h).symm⟩
  | bool b => cases h
  | int n => cases h
  | float x => cases h
  | str s => cases h
  | arr items => cases h

theorem value_setMember {α : Type*} {key k : String} (hk : k ≠ key) (v : Json)
    (members : List (String × Json)) (default : α) (get : Json → Option α) :
    (obj (setMember key v members)).value k default get = (obj members).value k default get := by
  rw [value, lookup_setMember, if_neg hk]
  rfl

theorem exists_obj_of_value {α : Type*} {k : String} {j : Json} {default a : α}
    {get : Json → Option α} (h : j.value k default get = some a) :
    ∃ members, j = obj members := by
  cases j with
  | obj members => exact ⟨members, rfl⟩
  | null => cases h
  | bool b => cases h
  | int n => cases h
  | float x => cases h
  | str s => cases h
  | arr items => cases h

@[simp] theorem getInt_toInt (n : Int32) : (int n.toInt).getInt = some n := by
  rw [getInt, Int32.ofInt_toInt]

theorem getFloats_floats (xs : List ℚ) : (arr (xs.map float)).getFloats = some xs := by
  induction xs with
  | nil => rfl
  | cons x xs ih =>
    rw [getFloats] at ih ⊢
    rw [List.map_cons, List.mapM_cons, ih]
    rfl

end Json

end JeogiAt
