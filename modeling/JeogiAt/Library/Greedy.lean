import Mathlib.Algebra.BigOperators.Group.List.Lemmas
import Mathlib.Data.List.Infix
import Mathlib.Tactic.Ring

/-!
# Taking from the front within a budget

`takeWithin cost budget l` takes elements of `l` as long as their total cost stays within the
budget. It is the longest prefix of `l` that does (`longest_takeWithin`).
-/

namespace JeogiAt

variable {α : Type*}

/-- A prefix of `l` with the property, of which every other one is a prefix. -/
structure IsLongestPrefix (P : List α → Prop) (p l : List α) : Prop where
  initial : p <+: l
  property : P p
  longest : ∀ q, q <+: l → P q → q <+: p

def totalCost (cost : α → ℕ) (l : List α) : ℕ := (l.map cost).sum

variable {cost : α → ℕ} {budget : ℕ}

@[simp] theorem totalCost_nil : totalCost cost [] = 0 := rfl

@[simp] theorem totalCost_cons (x : α) (l : List α) :
    totalCost cost (x :: l) = cost x + totalCost cost l := List.sum_cons

theorem totalCost_append (l l' : List α) :
    totalCost cost (l ++ l') = totalCost cost l + totalCost cost l' := by
  rw [totalCost, List.map_append, List.sum_append]
  rfl

def takeWithin (cost : α → ℕ) : ℕ → List α → List α
  | _, [] => []
  | budget, x :: l => if cost x ≤ budget then x :: takeWithin cost (budget - cost x) l else []

theorem longest_takeWithin (cost : α → ℕ) (budget : ℕ) (l : List α) :
    IsLongestPrefix (fun p => totalCost cost p ≤ budget) (takeWithin cost budget l) l := by
  induction l generalizing budget with
  | nil => exact ⟨List.prefix_rfl, Nat.zero_le _, fun q hq _ => hq⟩
  | cons x l ih =>
    rw [takeWithin]
    split_ifs with hx
    · obtain ⟨hinitial, hcost, hlongest⟩ := ih (budget - cost x)
      refine ⟨(List.prefix_cons_inj x).mpr hinitial, ?_, fun q hq hcostq => ?_⟩
      · rw [totalCost_cons]
        omega
      · rcases List.prefix_cons_iff.mp hq with rfl | ⟨rest, rfl, hrest⟩
        · exact List.nil_prefix
        · rw [totalCost_cons] at hcostq
          exact (List.prefix_cons_inj x).mpr (hlongest rest hrest (by omega))
    · refine ⟨List.nil_prefix, Nat.zero_le _, fun q hq hcostq => ?_⟩
      rcases List.prefix_cons_iff.mp hq with rfl | ⟨rest, rfl, -⟩
      · exact List.nil_prefix
      · rw [totalCost_cons] at hcostq
        omega

end JeogiAt
