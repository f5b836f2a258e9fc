import Mathlib.Data.List.Induction
import Mathlib.Logic.Function.Basic

/-!
# Stores to memory

`write m l` is the memory `m` after the stores of `l`, each a cell and its new value, in order. What
`l` covers is settled by `l` alone, and a later list of stores erases an earlier one if it covers
all its cells.
-/

namespace JeogiAt.Stores

variable {ι α : Type*}

def cells (l : List (ι × α)) : List ι := l.map Prod.fst

variable {m m' : ι → α} {l l₁ l₂ : List (ι × α)} {i : ι} {v : α}

@[simp] theorem cells_append : cells (l₁ ++ l₂) = cells l₁ ++ cells l₂ := List.map_append

theorem cells_flatMap {β : Type*} (xs : List β) (f : β → List (ι × α)) :
    cells (xs.flatMap f) = xs.flatMap fun x => cells (f x) := List.map_flatMap

variable [DecidableEq ι]

def write (m : ι → α) (l : List (ι × α)) : ι → α :=
  l.foldl (fun m s => Function.update m s.1 s.2) m

theorem write_append : write m (l₁ ++ l₂) = write (write m l₁) l₂ := List.foldl_append

theorem write_concat (s : ι × α) : write m (l ++ [s]) = Function.update (write m l) s.1 s.2 :=
  write_append

theorem write_of_notMem (h : i ∉ cells l) : write m l i = m i := by
  induction l using List.reverseRecOn with
  | nil => rfl
  | append_singleton l s ih =>
    rw [cells_append, List.mem_append, not_or] at h
    have hne : i ≠ s.1 := fun heq => h.2 (heq ▸ List.mem_singleton_self s.1)
    rw [write_concat, Function.update_of_ne hne, ih h.1]

/-- What a list of stores covers does not depend on the memory before. -/
theorem write_of_mem (h : i ∈ cells l) : write m l i = write m' l i := by
  induction l using List.reverseRecOn with
  | nil => cases h
  | append_singleton l s ih =>
    rw [write_concat, write_concat]
    by_cases heq : i = s.1
    · rw [heq, Function.update_self, Function.update_self]
    · rw [Function.update_of_ne heq, Function.update_of_ne heq]
      rw [cells_append, List.mem_append] at h
      exact ih (h.resolve_right fun hs => heq (List.mem_singleton.mp hs))

theorem write_congr (h : i ∉ cells l → m i = m' i) : write m l i = write m' l i := by
  by_cases hi : i ∈ cells l
  · exact write_of_mem hi
  · rw [write_of_notMem hi, write_of_notMem hi, h hi]

theorem write_write (h : ∀ i ∈ cells l₁, i ∈ cells l₂) : write (write m l₁) l₂ = write m l₂ := by
  funext i
  exact write_congr fun hi => write_of_notMem fun hi₁ => hi (h i hi₁)

theorem write_eq_of_forall (h : i ∈ cells l) (hv : ∀ s ∈ l, s.1 = i → s.2 = v) :
    write m l i = v := by
  induction l using List.reverseRecOn with
  | nil => cases h
  | append_singleton l s ih =>
    rw [write_concat]
    by_cases heq : i = s.1
    · rw [heq, Function.update_self]
      exact hv s (List.mem_append_right l (List.mem_singleton_self s)) heq.symm
    · rw [Function.update_of_ne heq]
      rw [cells_append, List.mem_append] at h
      refine ih (h.resolve_right fun hs => heq (List.mem_singleton.mp hs)) fun t ht => ?_
      exact hv t (List.mem_append_left [s] ht)

end JeogiAt.Stores
