import Mathlib.Algebra.BigOperators.Group.List.Lemmas
import Mathlib.Tactic.Ring

/-!
# Counting loops and adjacent closed intervals

A loop that adds to the entries of a table leaves in each entry the sum of what was added to it.
Counting the pairs of a relation row by row or column by column gives the same number.

`strips cuts` are the closed intervals between consecutive cut points. A point that lies between
the first cut and the last is in one of them, and in one more for each inner cut that it equals.
-/

namespace JeogiAt.Counting

variable {α β ι : Type*}

/-- The entry `i` of a table, after a loop each of whose steps adds `f a` to it. -/
theorem foldl_apply {F : (ι → ℕ) → α → ι → ℕ} {f : α → ℕ} {i : ι}
    (hF : ∀ y a, F y a i = y i + f a) (l : List α) (y : ι → ℕ) :
    l.foldl F y i = y i + (l.map f).sum := by
  induction l generalizing y with
  | nil => rfl
  | cons a l ih => rw [List.foldl_cons, ih, hF, List.map_cons, List.sum_cons, Nat.add_assoc]

theorem foldl_apply_countP {F : (ι → ℕ) → α → ι → ℕ} {p : α → Bool} {i : ι}
    (hF : ∀ y a, F y a i = y i + if p a then 1 else 0) (l : List α) (y : ι → ℕ) :
    l.foldl F y i = y i + l.countP p := by
  induction l generalizing y with
  | nil => rfl
  | cons a l ih =>
    rw [List.foldl_cons, ih, hF, List.countP_cons]
    omega

/-- Where the keys are distinct the elements with the key of `a` are `a` alone. -/
theorem filter_eq_singleton [DecidableEq ι] {key : α → ι} {l : List α} (h : (l.map key).Nodup)
    {a : α} (ha : a ∈ l) : l.filter (key · = key a) = [a] := by
  induction l with
  | nil => cases ha
  | cons b l ih =>
    obtain ⟨hb, hl⟩ := List.nodup_cons.mp h
    rcases List.mem_cons.mp ha with rfl | hmem
    · have hnone : l.filter (key · = key a) = [] := by
        rw [List.filter_eq_nil_iff]
        intro c hc
        rw [decide_eq_true_eq]
        intro heq
        exact hb (heq ▸ List.mem_map_of_mem hc)
      rw [List.filter_cons_of_pos (by simp), hnone]
    · have hne : key b ≠ key a := fun heq => hb (heq ▸ List.mem_map_of_mem hmem)
      rw [List.filter_cons_of_neg (by simpa using hne), ih hl hmem]

theorem sum_map_countP_comm (p : α → β → Bool) (l : List α) (m : List β) :
    (l.map fun a => m.countP (p a)).sum = (m.map fun b => l.countP (p · b)).sum := by
  induction l with
  | nil =>
    induction m with
    | nil => rfl
    | cons b m ih => rw [List.map_cons, List.sum_cons, ← ih, List.countP_nil, List.map_nil]; rfl
  | cons a l ih =>
    have hrow : (m.map fun b => (a :: l).countP (p · b)).sum =
        (m.map fun b => l.countP (p · b)).sum + m.countP (p a) := by
      clear ih
      induction m with
      | nil => rfl
      | cons b m ih =>
        rw [List.map_cons, List.sum_cons, ih, List.map_cons, List.sum_cons, List.countP_cons,
          List.countP_cons]
        omega
    rw [List.map_cons, List.sum_cons, ih, hrow, Nat.add_comm]

theorem sum_map_filter_of_zero {f : α → ℕ} {p : α → Bool} {l : List α}
    (h : ∀ a ∈ l, p a = false → f a = 0) : ((l.filter p).map f).sum = (l.map f).sum := by
  induction l with
  | nil => rfl
  | cons a l ih =>
    obtain ⟨ha, hl⟩ := List.forall_mem_cons.mp h
    cases hp : p a with
    | true => rw [List.filter_cons_of_pos hp, List.map_cons, List.sum_cons, ih hl, List.map_cons,
        List.sum_cons]
    | false => rw [List.filter_cons_of_neg (by simp [hp]), ih hl, List.map_cons, List.sum_cons,
        ha hp, Nat.zero_add]

theorem length_le_sum_map {f : α → ℕ} {l : List α} (h : ∀ a ∈ l, 1 ≤ f a) :
    l.length ≤ (l.map f).sum := by
  induction l with
  | nil => exact le_rfl
  | cons b l ih =>
    obtain ⟨hb, hl⟩ := List.forall_mem_cons.mp h
    have hsum := ih hl
    rw [List.map_cons, List.sum_cons, List.length_cons]
    omega

/-- A sum of positive numbers is their number exactly when each is one. -/
theorem sum_map_eq_length_iff {f : α → ℕ} {l : List α} (h : ∀ a ∈ l, 1 ≤ f a) :
    (l.map f).sum = l.length ↔ ∀ a ∈ l, f a = 1 := by
  induction l with
  | nil => exact ⟨fun _ a ha => absurd ha List.not_mem_nil, fun _ => rfl⟩
  | cons b l ih =>
    obtain ⟨hb, hl⟩ := List.forall_mem_cons.mp h
    have hsum := length_le_sum_map hl
    rw [List.map_cons, List.sum_cons, List.length_cons, List.forall_mem_cons, ← ih hl]
    omega

def strips (cuts : List α) : List (α × α) := cuts.zip cuts.tail

@[simp] theorem strips_cons (a b : α) (cuts : List α) :
    strips (a :: b :: cuts) = (a, b) :: strips (b :: cuts) := rfl

variable [LinearOrder α]

def Within (x : α) (s : α × α) : Prop := s.1 ≤ x ∧ x ≤ s.2

instance (x : α) (s : α × α) : Decidable (Within x s) :=
  inferInstanceAs (Decidable (s.1 ≤ x ∧ x ≤ s.2))

theorem countP_strips_eq_zero {x a : α} {cuts : List α} (h : (a :: cuts).Pairwise (· < ·))
    (hx : x < a) : (strips (a :: cuts)).countP (Within x ·) = 0 := by
  rw [List.countP_eq_zero]
  rintro ⟨lo, hi⟩ hmem
  have hlo : lo ∈ a :: cuts := (List.of_mem_zip hmem).1
  rw [decide_eq_true_eq]
  rintro ⟨hle, -⟩
  rcases List.mem_cons.mp hlo with heq | hlater
  · exact absurd hx (not_lt.mpr (heq ▸ hle))
  · exact absurd (hx.trans (List.rel_of_pairwise_cons h hlater)) (not_lt.mpr hle)

theorem countP_strips {x a b : α} {cuts : List α} (h : (a :: b :: cuts).Pairwise (· < ·))
    (ha : a ≤ x) (hb : x ≤ (b :: cuts).getLast (List.cons_ne_nil b cuts)) :
    (strips (a :: b :: cuts)).countP (Within x ·) = 1 + (b :: cuts).dropLast.count x := by
  induction cuts generalizing a b with
  | nil =>
    have hin : Within x (a, b) := ⟨ha, hb⟩
    simp [strips, hin]
  | cons c cuts ih =>
    have htail : (b :: c :: cuts).Pairwise (· < ·) := h.of_cons
    have hlater : b < c := List.rel_of_pairwise_cons htail List.mem_cons_self
    rw [strips_cons, List.countP_cons, List.dropLast_cons_cons, List.count_cons]
    rcases lt_trichotomy x b with hlt | heq | hgt
    · have hin : Within x (a, b) := ⟨ha, hlt.le⟩
      have hnone : (c :: cuts).dropLast.count x = 0 := by
        rw [List.count_eq_zero]
        intro hmem
        exact absurd (List.rel_of_pairwise_cons htail (List.dropLast_subset _ hmem))
          (not_lt.mpr hlt.le)
      rw [countP_strips_eq_zero htail hlt, hnone]
      simp [hin, hlt.ne']
    · have hin : Within x (a, b) := ⟨ha, heq.le⟩
      rw [ih htail heq.ge hb, decide_eq_true hin, beq_iff_eq.mpr heq.symm]
      rfl
    · have hout : ¬ Within x (a, b) := fun hin => absurd hin.2 (not_le.mpr hgt)
      rw [ih htail hgt.le hb]
      simp [hout, hgt.ne]

/-- A point between the outer cuts is in exactly one strip when it is no inner cut. -/
theorem countP_strips_eq_one_iff {x a b : α} {cuts : List α}
    (h : (a :: b :: cuts).Pairwise (· < ·)) (ha : a ≤ x)
    (hb : x ≤ (b :: cuts).getLast (List.cons_ne_nil b cuts)) :
    (strips (a :: b :: cuts)).countP (Within x ·) = 1 ↔ x ∉ (b :: cuts).dropLast := by
  rw [countP_strips h ha hb, ← List.count_eq_zero]
  omega

end JeogiAt.Counting
