import Mathlib.Data.List.Basic

/-!
# Lines of a stream

`complete sep s` are the lines of the stream `s` that a separator ends, and `rest sep s` is what
follows the last separator. Both can be computed piece by piece: `complete_append` and
`rest_append` say that of what came before only the unfinished line matters.
-/

namespace JeogiAt.Lines

variable {α : Type*} [DecidableEq α] {sep : α}

def complete (sep : α) (s : List α) : List (List α) := (s.splitOn sep).dropLast

def rest (sep : α) (s : List α) : List α := (s.splitOn sep).getLast (List.splitOn_ne_nil sep s)

theorem splitOn_eq (sep : α) (s : List α) : s.splitOn sep = complete sep s ++ [rest sep s] :=
  (List.dropLast_concat_getLast _).symm

theorem complete_eq {s : List α} {lines : List (List α)} {last : List α}
    (h : s.splitOn sep = lines ++ [last]) : complete sep s = lines ∧ rest sep s = last := by
  rw [splitOn_eq] at h
  obtain ⟨hlines, hlast⟩ := List.append_inj' h rfl
  exact ⟨hlines, List.singleton_inj.mp hlast⟩

theorem complete_of_not_mem {s : List α} (h : sep ∉ s) :
    complete sep s = [] ∧ rest sep s = s :=
  complete_eq (List.splitOn_eq_singleton h)

theorem complete_line {line : List α} (h : sep ∉ line) (s : List α) :
    complete sep (line ++ sep :: s) = line :: complete sep s ∧
      rest sep (line ++ sep :: s) = rest sep s := by
  refine complete_eq ?_
  rw [List.splitOn_append_cons_self_of_not_mem h, splitOn_eq sep s, List.cons_append]

theorem splitOn_append (sep : α) (s t : List α) :
    (s ++ t).splitOn sep = complete sep s ++ (rest sep s ++ t).splitOn sep := by
  induction s with
  | nil => rfl
  | cons a s ih =>
    rw [List.cons_append, List.splitOn_cons_eq_if_modifyHead, ih]
    have hsplit := splitOn_eq sep (a :: s)
    rw [List.splitOn_cons_eq_if_modifyHead, splitOn_eq sep s] at hsplit
    by_cases ha : a = sep
    · rw [if_pos (beq_iff_eq.mpr ha)] at hsplit ⊢
      obtain ⟨hcomplete, hrest⟩ := @List.append_inj' _ ([] :: complete sep s) _ _ _ hsplit rfl
      rw [← hcomplete, ← List.singleton_inj.mp hrest, List.cons_append]
    · rw [if_neg (by simpa using ha)] at hsplit ⊢
      cases hlines : complete sep s with
      | nil =>
        rw [hlines] at hsplit
        obtain ⟨hcomplete, hrest⟩ := @List.append_inj' _ [] _ _ _ hsplit rfl
        rw [← hcomplete, ← List.singleton_inj.mp hrest, List.nil_append, List.nil_append,
          List.cons_append, List.splitOn_cons_eq_if_modifyHead, if_neg (by simpa using ha)]
      | cons line lines =>
        rw [hlines] at hsplit
        obtain ⟨hcomplete, hrest⟩ := @List.append_inj' _ ((a :: line) :: lines) _ _ _ hsplit rfl
        rw [← hcomplete, ← List.singleton_inj.mp hrest]
        rfl

theorem complete_append (sep : α) (s t : List α) :
    complete sep (s ++ t) = complete sep s ++ complete sep (rest sep s ++ t) := by
  have h := splitOn_append sep s t
  rw [splitOn_eq sep (rest sep s ++ t), ← List.append_assoc] at h
  exact (complete_eq h).1

theorem rest_append (sep : α) (s t : List α) :
    rest sep (s ++ t) = rest sep (rest sep s ++ t) := by
  have h := splitOn_append sep s t
  rw [splitOn_eq sep (rest sep s ++ t), ← List.append_assoc] at h
  exact (complete_eq h).2

end JeogiAt.Lines
