import Mathlib.Data.List.Infix

/-!
# Delimited elements of a stream

`elements` are what a stream has from each first occurrence of a start mark to the next stop mark,
read from left to right, and with them what follows the last element. What comes before a start
mark is dropped with the element. A stream can be read in pieces: `elements_append` says that of
what came before only the text after the last element matters.
-/

namespace JeogiAt

variable {α : Type*} [DecidableEq α]

def find (pat : List α) : List α → Option ℕ
  | [] => if pat = [] then some 0 else none
  | x :: s => if pat <+: x :: s then some 0 else (find pat s).map (· + 1)

theorem add_length_le_of_find {pat s : List α} {i : ℕ} (h : find pat s = some i) :
    i + pat.length ≤ s.length := by
  induction s generalizing i with
  | nil =>
    unfold find at h
    split_ifs at h with hpat
    cases h
    rw [hpat]
    exact le_rfl
  | cons x s ih =>
    unfold find at h
    split_ifs at h with hpre
    · cases h
      rw [Nat.zero_add]
      exact hpre.length_le
    · obtain ⟨j, hj, rfl⟩ := Option.map_eq_some_iff.mp h
      have hle := ih hj
      rw [List.length_cons]
      omega

theorem find_append {pat s : List α} {i : ℕ} (h : find pat s = some i) (t : List α) :
    find pat (s ++ t) = some i := by
  induction s generalizing i with
  | nil =>
    unfold find at h
    split_ifs at h with hpat
    rw [hpat, List.nil_append]
    cases t with
    | nil => exact h
    | cons y t =>
      unfold find
      rw [if_pos List.nil_prefix, h]
  | cons x s ih =>
    have hlength := add_length_le_of_find h
    unfold find at h
    rw [List.cons_append, find]
    by_cases hpre : pat <+: x :: s
    · have hlong : pat <+: x :: (s ++ t) := hpre.trans (List.prefix_append (x :: s) t)
      rw [if_pos hpre] at h
      rw [if_pos hlong, h]
    · rw [if_neg hpre] at h
      have hnot : ¬ pat <+: x :: (s ++ t) := fun hlong =>
        hpre (List.prefix_of_prefix_length_le hlong (List.prefix_append (x :: s) t) (by omega))
      obtain ⟨j, hj, rfl⟩ := Option.map_eq_some_iff.mp h
      rw [if_neg hnot, ih hj]
      rfl

structure FirstAt {α : Type*} (pat s : List α) (i : ℕ) : Prop where
  here : pat <+: s.drop i
  first : ∀ j < i, ¬ pat <+: s.drop j

theorem firstAt_zero_iff {α : Type*} {pat s : List α} : FirstAt pat s 0 ↔ pat <+: s :=
  ⟨FirstAt.here, fun h => ⟨h, fun _ hj => absurd hj (Nat.not_lt_zero _)⟩⟩

theorem firstAt_succ_iff {α : Type*} {pat s : List α} {x : α} {i : ℕ} :
    FirstAt pat (x :: s) (i + 1) ↔ ¬ pat <+: x :: s ∧ FirstAt pat s i := by
  constructor
  · intro h
    exact ⟨h.first 0 (Nat.succ_pos i), h.here, fun j hj => h.first (j + 1) (Nat.succ_lt_succ hj)⟩
  · rintro ⟨hnot, h⟩
    refine ⟨h.here, fun j hj => ?_⟩
    cases j with
    | zero => exact hnot
    | succ j => exact h.first j (Nat.lt_of_succ_lt_succ hj)

theorem find_eq_some_iff {pat s : List α} {i : ℕ} : find pat s = some i ↔ FirstAt pat s i := by
  induction s generalizing i with
  | nil =>
    rw [find]
    split_ifs with hpat
    · rw [Option.some_inj]
      constructor
      · rintro rfl
        exact firstAt_zero_iff.mpr (hpat ▸ List.nil_prefix)
      · intro h
        by_contra hne
        exact h.first 0 (Nat.pos_of_ne_zero (Ne.symm hne)) (hpat ▸ List.nil_prefix)
    · refine iff_of_false not_false fun h => hpat ?_
      have hhere := h.here
      rw [List.drop_nil] at hhere
      exact List.prefix_nil.mp hhere
  | cons x s ih =>
    rw [find]
    cases i with
    | zero =>
      rw [firstAt_zero_iff]
      split_ifs with hpre
      · exact iff_of_true rfl hpre
      · refine iff_of_false (fun h => ?_) hpre
        obtain ⟨j, -, hj⟩ := Option.map_eq_some_iff.mp h
        exact Nat.succ_ne_zero j hj
    | succ i =>
      rw [firstAt_succ_iff, ← ih]
      split_ifs with hpre
      · exact iff_of_false (fun h => Nat.succ_ne_zero i (Option.some.inj h).symm)
          fun h => h.1 hpre
      · rw [and_iff_right hpre, Option.map_eq_some_iff]
        constructor
        · rintro ⟨j, hj, hsucc⟩
          rw [hj, Nat.succ.inj hsucc]
        · exact fun h => ⟨i, h, rfl⟩

structure Delimiters (α : Type*) where
  start : List α
  stop : List α
  stop_ne : stop ≠ []

namespace Delimiters

variable (d : Delimiters α)

def takeElement (s : List α) : Option (List α × List α) :=
  (find d.start s).bind fun pos =>
    (find d.stop (s.drop pos)).map fun stop_pos =>
      (s.drop pos).splitAt (stop_pos + d.stop.length)

variable {d}

theorem takeElement_eq_some {s element rest : List α}
    (h : d.takeElement s = some (element, rest)) :
    ∃ pos stop_pos, find d.start s = some pos ∧ find d.stop (s.drop pos) = some stop_pos ∧
      element = (s.drop pos).take (stop_pos + d.stop.length) ∧
      rest = (s.drop pos).drop (stop_pos + d.stop.length) := by
  obtain ⟨pos, hpos, hmap⟩ := Option.bind_eq_some_iff.mp h
  obtain ⟨stop_pos, hstop, hsplit⟩ := Option.map_eq_some_iff.mp hmap
  rw [List.splitAt_eq, Prod.mk.injEq] at hsplit
  exact ⟨pos, stop_pos, hpos, hstop, hsplit.1.symm, hsplit.2.symm⟩

theorem length_lt_of_takeElement {s element rest : List α}
    (h : d.takeElement s = some (element, rest)) : rest.length < s.length := by
  obtain ⟨pos, stop_pos, -, hstop, -, rfl⟩ := takeElement_eq_some h
  have hlength := add_length_le_of_find hstop
  have hpos := List.length_pos_iff.mpr d.stop_ne
  simp only [List.length_drop] at hlength ⊢
  omega

theorem takeElement_append {s element rest : List α}
    (h : d.takeElement s = some (element, rest)) (t : List α) :
    d.takeElement (s ++ t) = some (element, rest ++ t) := by
  obtain ⟨pos, stop_pos, hpos, hstop, rfl, rfl⟩ := takeElement_eq_some h
  have hle : pos ≤ s.length := (Nat.le_add_right _ _).trans (add_length_le_of_find hpos)
  have hlength := add_length_le_of_find hstop
  rw [takeElement, find_append hpos, Option.bind_some, List.drop_append_of_le_length hle,
    find_append hstop, Option.map_some, List.splitAt_eq, List.take_append_of_le_length hlength,
    List.drop_append_of_le_length hlength]

variable (d) in
def elements (s : List α) : List (List α) × List α :=
  match h : d.takeElement s with
  | none => ([], s)
  | some (element, rest) =>
      have : rest.length < s.length := length_lt_of_takeElement h
      (element :: (elements rest).1, (elements rest).2)
termination_by s.length

theorem elements_of_none {s : List α} (h : d.takeElement s = none) : d.elements s = ([], s) := by
  rw [elements]
  split
  · rfl
  · rename_i hsome
    rw [h] at hsome
    cases hsome

theorem elements_of_some {s element rest : List α} (h : d.takeElement s = some (element, rest)) :
    d.elements s = (element :: (d.elements rest).1, (d.elements rest).2) := by
  rw [elements]
  split
  · rename_i hnone
    rw [h] at hnone
    cases hnone
  · rename_i hsome
    rw [h] at hsome
    cases hsome
    rfl

/-- The elements of a text from left to right: from the first start mark to the next stop mark, and
then those of what follows. -/
inductive Greedy {α : Type*} (d : Delimiters α) : List α → List (List α) → Prop
  | done {s : List α} (h : ∀ i j, FirstAt d.start s i → ¬ FirstAt d.stop (s.drop i) j) :
      Greedy d s []
  | take {s : List α} {i j : ℕ} {elements : List (List α)} (hstart : FirstAt d.start s i)
      (hstop : FirstAt d.stop (s.drop i) j)
      (hrest : Greedy d ((s.drop i).drop (j + d.stop.length)) elements) :
      Greedy d s ((s.drop i).take (j + d.stop.length) :: elements)

theorem takeElement_eq_some_iff {s : List α} {r : List α × List α} :
    d.takeElement s = some r ↔ ∃ i j, FirstAt d.start s i ∧ FirstAt d.stop (s.drop i) j ∧
      r = ((s.drop i).take (j + d.stop.length), (s.drop i).drop (j + d.stop.length)) := by
  simp only [takeElement, Option.bind_eq_some_iff, Option.map_eq_some_iff, find_eq_some_iff,
    List.splitAt_eq]
  constructor
  · rintro ⟨i, hstart, j, hstop, rfl⟩
    exact ⟨i, j, hstart, hstop, rfl⟩
  · rintro ⟨i, j, hstart, hstop, rfl⟩
    exact ⟨i, hstart, j, hstop, rfl⟩

theorem greedy_elements (s : List α) : Greedy d s (d.elements s).1 := by
  induction s using elements.induct d with
  | case1 s hnone =>
    rw [elements_of_none hnone]
    refine .done fun i j hstart hstop => ?_
    rw [takeElement_eq_some_iff.mpr ⟨i, j, hstart, hstop, rfl⟩] at hnone
    exact Option.some_ne_none _ hnone
  | case2 s element rest hsome _ ih =>
    rw [elements_of_some hsome]
    obtain ⟨i, j, hstart, hstop, heq⟩ := takeElement_eq_some_iff.mp hsome
    obtain ⟨rfl, rfl⟩ := Prod.mk.inj heq
    exact .take hstart hstop ih

/-- Reading in two pieces: the rest of the first one goes before the second. -/
theorem elements_append (s t : List α) :
    d.elements (s ++ t) =
      ((d.elements s).1 ++ (d.elements ((d.elements s).2 ++ t)).1,
        (d.elements ((d.elements s).2 ++ t)).2) := by
  induction s using elements.induct d with
  | case1 s hnone =>
    rw [elements_of_none hnone, List.nil_append]
  | case2 s element rest hsome _ ih =>
    rw [elements_of_some hsome, elements_of_some (takeElement_append hsome t), ih,
      List.cons_append]

theorem elements_rest (s : List α) : d.elements (d.elements s).2 = ([], (d.elements s).2) := by
  induction s using elements.induct d with
  | case1 s hnone =>
    rw [elements_of_none hnone]
    exact elements_of_none hnone
  | case2 s element rest hsome _ ih =>
    rw [elements_of_some hsome]
    exact ih

end Delimiters

end JeogiAt
