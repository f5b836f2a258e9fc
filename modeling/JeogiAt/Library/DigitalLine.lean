import Mathlib.Data.Int.Order.Lemmas
import Mathlib.Data.List.Chain
import Mathlib.Tactic.Linarith
import Mathlib.Tactic.SplitIfs

/-!
# Drawing a line with an accumulated error

A line goes `a` steps across and `b` steps up. Each turn of the walk adds to the error and decides
by it about a step across, and then, with what is left of it, about a step up; a step that would
leave the box of the line ends the walk instead.

The walk comes to an end. It moves as a king does, keeps to a strip around the line, and ends in the
last row. `last_of_walk` says where: in the last column, but for lines of a slope from a half to
less than one, which end a column short of it.
-/

namespace JeogiAt.DigitalLine

variable (a b : ℕ)

def height (p : ℕ × ℕ) : ℤ := a * p.2 - b * p.1

def error (p : ℕ × ℕ) : ℤ := a * (p.2 + 1) - b * (p.1 + 1)

def Across (p : ℕ × ℕ) : Prop := -b ≤ 2 * error a b p

instance (p : ℕ × ℕ) : Decidable (Across a b p) := inferInstanceAs (Decidable (_ ≤ _))

/-- The error that a turn has left for the step up. -/
def rest (p : ℕ × ℕ) : ℤ := if Across a b p then error a b p - b else error a b p

def Up (p : ℕ × ℕ) : Prop := 2 * rest a b p ≤ a

instance (p : ℕ × ℕ) : Decidable (Up a b p) := inferInstanceAs (Decidable (_ ≤ _))

def advance (p : ℕ × ℕ) : Option (ℕ × ℕ) :=
  if Across a b p ∧ p.1 = a ∨ Up a b p ∧ p.2 = b then none
  else some (if Across a b p then p.1 + 1 else p.1, if Up a b p then p.2 + 1 else p.2)

def walk : ℕ → ℕ × ℕ → Option (List (ℕ × ℕ))
  | 0, _ => none
  | fuel + 1, p =>
    match advance a b p with
    | none => some [p]
    | some q => (walk fuel q).map (p :: ·)

/-- In the box of the line and in the strip around it. -/
structure Near (p : ℕ × ℕ) : Prop where
  fst_le : p.1 ≤ a
  snd_le : p.2 ≤ b
  lower : -b ≤ 2 * height a b p ∨ 2 * b - a ≤ 2 * height a b p
  upper : 2 * height a b p ≤ a + 2 * b

/-- A step to one of the eight neighbours, towards the end of the line. -/
def King (p q : ℕ × ℕ) : Prop :=
  (q.1 = p.1 ∨ q.1 = p.1 + 1) ∧ (q.2 = p.2 ∨ q.2 = p.2 + 1) ∧ p.1 + p.2 < q.1 + q.2

variable {a b} {p q : ℕ × ℕ}

theorem near_start : Near a b (0, 0) :=
  ⟨Nat.zero_le a, Nat.zero_le b, .inl (by simp [height]), by simp only [height]; omega⟩

theorem error_eq (p : ℕ × ℕ) : error a b p = height a b p + a - b := by
  simp only [error, height]
  linarith

theorem height_across (i j : ℕ) : height a b (i + 1, j) = height a b (i, j) - b := by
  simp only [height, Nat.cast_succ]
  linarith

theorem height_up (i j : ℕ) : height a b (i, j + 1) = height a b (i, j) + a := by
  simp only [height, Nat.cast_succ]
  linarith

theorem across_or_up (p : ℕ × ℕ) : Across a b p ∨ Up a b p := by
  by_cases hacross : Across a b p
  · exact .inl hacross
  · refine .inr ?_
    rw [Up, rest, if_neg hacross]
    rw [Across, not_le] at hacross
    omega

theorem advance_eq_some (h : advance a b p = some q) :
    ¬(Across a b p ∧ p.1 = a ∨ Up a b p ∧ p.2 = b) ∧
      q = (if Across a b p then p.1 + 1 else p.1, if Up a b p then p.2 + 1 else p.2) := by
  have hgo : ¬(Across a b p ∧ p.1 = a ∨ Up a b p ∧ p.2 = b) := by
    intro hstop
    rw [advance, if_pos hstop] at h
    cases h
  rw [advance, if_neg hgo] at h
  exact ⟨hgo, (Option.some.inj h).symm⟩

theorem near_of_advance (h : Near a b p) (hq : advance a b p = some q) :
    Near a b q ∧ King p q := by
  obtain ⟨i, j⟩ := p
  obtain ⟨hi, hj, hlower, hupper⟩ := h
  obtain ⟨hgo, rfl⟩ := advance_eq_some hq
  obtain ⟨hcolumn, hrow⟩ := not_or.mp hgo
  dsimp only at hi hj
  have hmoves := across_or_up (a := a) (b := b) (i, j)
  have herror := error_eq (a := a) (b := b) (i, j)
  by_cases hacross : Across a b (i, j)
  · have hlt : i < a := lt_of_le_of_ne hi fun heq => hcolumn ⟨hacross, heq⟩
    rw [if_pos hacross]
    by_cases hup : Up a b (i, j)
    · have hlt' : j < b := lt_of_le_of_ne hj fun heq => hrow ⟨hup, heq⟩
      rw [if_pos hup]
      refine ⟨⟨hlt, hlt', ?_, ?_⟩, .inr rfl, .inr rfl, by dsimp only; omega⟩
      all_goals
        rw [height_across, height_up]
        rw [Up, rest, if_pos hacross] at hup
        rw [Across] at hacross
        dsimp only at *
        omega
    · rw [if_neg hup]
      refine ⟨⟨hlt, hj, ?_, ?_⟩, .inr rfl, .inl rfl, by dsimp only; omega⟩
      all_goals
        rw [height_across]
        rw [Up, rest, if_pos hacross] at hup
        dsimp only at *
        omega
  · have hup := hmoves.resolve_left hacross
    have hlt : j < b := lt_of_le_of_ne hj fun heq => hrow ⟨hup, heq⟩
    rw [if_neg hacross, if_pos hup]
    refine ⟨⟨hi, hlt, ?_, ?_⟩, .inl rfl, .inr rfl, by dsimp only; omega⟩
    all_goals
      rw [height_up]
      rw [Across, not_le] at hacross
      dsimp only at *
      omega

/-- A walk stops in the last row, and at most one step short of the last column. -/
theorem stop_of_advance (h : Near a b p) (hend : advance a b p = none) :
    p.2 = b ∧ (p.1 = a ∨ p.1 + 1 = a ∧ a ≤ 2 * b) := by
  obtain ⟨i, j⟩ := p
  obtain ⟨hi, hj, -, -⟩ := h
  dsimp only at hi hj ⊢
  have hstop : Across a b (i, j) ∧ i = a ∨ Up a b (i, j) ∧ j = b := by
    by_contra hgo
    rw [advance, if_neg hgo] at hend
    cases hend
  by_cases hcolumn : Across a b (i, j) ∧ i = a
  · obtain ⟨hacross, rfl⟩ := hcolumn
    rw [Across, error] at hacross
    refine ⟨le_antisymm hj ?_, .inl rfl⟩
    by_contra hlt
    have hrow : (j : ℤ) + 1 ≤ b := by omega
    have hmul : (i : ℤ) * (j + 1) ≤ i * b := mul_le_mul_of_nonneg_left hrow (by omega)
    dsimp only at hacross
    nlinarith
  · obtain ⟨hup, rfl⟩ := hstop.resolve_left hcolumn
    refine ⟨rfl, ?_⟩
    rw [Up, rest] at hup
    split_ifs at hup with hacross
    · have hlt : i < a := lt_of_le_of_ne hi fun heq => hcolumn ⟨hacross, heq⟩
      rw [error] at hup
      dsimp only at hup
      have hshort : a ≤ i + 1 := by
        by_contra hfar
        have hcast : (i : ℤ) + 2 ≤ a := by omega
        have hmul : (j : ℤ) * (i + 2) ≤ j * a := mul_le_mul_of_nonneg_left hcast (by omega)
        nlinarith
      obtain rfl : i + 1 = a := by omega
      refine .inr ⟨rfl, ?_⟩
      push_cast at hup
      have hslope : (i : ℤ) + 1 ≤ 2 * j := by linarith
      omega
    · rw [Across, error, not_le] at hacross
      refine .inl (le_antisymm hi ?_)
      by_contra hlt
      have hcast : (i : ℤ) + 1 ≤ a := by omega
      have hmul : (j : ℤ) * (i + 1) ≤ j * a := mul_le_mul_of_nonneg_left hcast (by omega)
      dsimp only at hacross
      nlinarith

/-- With a turn for every step that is left the walk comes to an end. -/
theorem exists_walk {fuel : ℕ} (h : Near a b p) (hfuel : a + b < fuel + (p.1 + p.2)) :
    ∃ ps, walk a b fuel p = some ps := by
  induction fuel generalizing p with
  | zero =>
    have hcolumn := h.fst_le
    have hrow := h.snd_le
    omega
  | succ fuel ih =>
    unfold walk
    cases hq : advance a b p with
    | none => exact ⟨[p], rfl⟩
    | some q =>
      obtain ⟨hnear, hking⟩ := near_of_advance h hq
      have hprogress := hking.2.2
      obtain ⟨ps, hps⟩ := ih hnear (by omega)
      exact ⟨p :: ps, by dsimp only; rw [hps, Option.map_some]⟩

/-- The rule for walks: what every turn keeps holds at all points, each of them is a turn away from
the next, and the walk stops at the last one. -/
theorem walk_rule {I : ℕ × ℕ → Prop} {fuel : ℕ} {ps : List (ℕ × ℕ)}
    (hstep : ∀ p q, I p → advance a b p = some q → I q) (hp : I p)
    (h : walk a b fuel p = some ps) :
    (∀ q ∈ ps, I q) ∧ ps.head? = some p ∧
      List.IsChain (fun p q => I p ∧ advance a b p = some q) ps ∧
      ∀ q ∈ ps.getLast?, advance a b q = none := by
  induction fuel generalizing p ps with
  | zero => cases h
  | succ fuel ih =>
    unfold walk at h
    cases hq : advance a b p with
    | none =>
      rw [hq] at h
      cases h
      refine ⟨fun q hmem => List.mem_singleton.mp hmem ▸ hp, rfl, List.isChain_singleton p, ?_⟩
      rintro q ⟨⟩
      exact hq
    | some q =>
      rw [hq] at h
      obtain ⟨qs, hqs, rfl⟩ := Option.map_eq_some_iff.mp h
      obtain ⟨hall, hhead, hchain, hlast⟩ := ih (hstep p q hp hq) hqs
      obtain ⟨rest, rfl⟩ : ∃ rest, qs = q :: rest := List.head?_eq_some_iff.mp hhead
      refine ⟨List.forall_mem_cons.mpr ⟨hp, hall⟩, rfl, ?_, hlast⟩
      exact List.IsChain.cons_cons ⟨hp, hq⟩ hchain

/-- Where the line is at least as steep as a diagonal, every turn goes up. -/
theorem steep_of_advance (hab : a ≤ b) (h : Near a b p) (hp : 2 * height a b p ≤ b)
    (hq : advance a b p = some q) : 2 * height a b q ≤ b := by
  obtain ⟨i, j⟩ := p
  obtain ⟨hgo, rfl⟩ := advance_eq_some hq
  have herror := error_eq (a := a) (b := b) (i, j)
  by_cases hacross : Across a b (i, j)
  · have hup : Up a b (i, j) := by
      rw [Up, rest, if_pos hacross]
      omega
    rw [if_pos hacross, if_pos hup, height_across, height_up]
    dsimp only
    omega
  · rw [if_neg hacross, if_pos ((across_or_up _).resolve_left hacross), height_up]
    rw [Across, not_le] at hacross
    dsimp only
    omega

/-- A line of a slope between a half and one is never below its points. It stops a column short. -/
theorem slanted_of_advance (hab : b < a) (hslope : a ≤ 2 * b) (h : Near a b p)
    (hp : 0 ≤ height a b p ∧ p.1 < a) (hq : advance a b p = some q) :
    0 ≤ height a b q ∧ q.1 < a := by
  obtain ⟨i, j⟩ := p
  obtain ⟨hheight, hi⟩ := hp
  have hj := h.snd_le
  obtain ⟨hgo, rfl⟩ := advance_eq_some hq
  have herror := error_eq (a := a) (b := b) (i, j)
  have hacross : Across a b (i, j) := by
    rw [Across]
    omega
  rw [if_pos hacross]
  dsimp only at hi hj ⊢
  have hlast : i + 1 ≠ a := by
    rintro rfl
    -- the row is the last one already, and so the turn stops
    have hrow : j = b := by
      refine le_antisymm hj ?_
      by_contra hlt
      have hcast : (j : ℤ) + 1 ≤ b := by omega
      have hmul : ((i : ℤ) + 1) * (j + 1) ≤ (i + 1) * b :=
        mul_le_mul_of_nonneg_left hcast (by omega)
      rw [height] at hheight
      push_cast at hheight
      have hcast' : (b : ℤ) < i + 1 := by omega
      nlinarith
    subst hrow
    refine hgo (.inr ⟨?_, rfl⟩)
    rw [Up, rest, if_pos hacross, herror, height]
    push_cast
    have hcast : (i : ℤ) + 1 ≤ 2 * j := by omega
    nlinarith
  refine ⟨?_, by omega⟩
  by_cases hup : Up a b (i, j)
  · rw [if_pos hup, height_across, height_up]
    omega
  · rw [if_neg hup, height_across]
    rw [Up, rest, if_pos hacross, not_le] at hup
    omega

theorem last_of_walk {fuel : ℕ} {ps : List (ℕ × ℕ)} (h : walk a b fuel (0, 0) = some ps)
    (hq : q ∈ ps.getLast?) : q = (if b < a ∧ a ≤ 2 * b then a - 1 else a, b) := by
  have hmem : q ∈ ps := List.mem_of_getLast? hq
  have hnear := walk_rule (I := Near a b) (fun p q hp hpq => (near_of_advance hp hpq).1)
    near_start h
  obtain ⟨hrow, hcolumn⟩ := stop_of_advance (hnear.1 q hmem) (hnear.2.2.2 q hq)
  refine Prod.ext ?_ hrow
  split_ifs with hslope
  · have hslanted := walk_rule (I := fun p => Near a b p ∧ 0 ≤ height a b p ∧ p.1 < a)
      (fun p q hp hpq => ⟨(near_of_advance hp.1 hpq).1,
        slanted_of_advance hslope.1 hslope.2 hp.1 hp.2 hpq⟩)
      ⟨near_start, by simp [height], by omega⟩ h
    have hlt := (hslanted.1 q hmem).2.2
    dsimp only
    omega
  · rcases hcolumn with hend | ⟨hshort, hle⟩
    · exact hend
    · have hab : a ≤ b := by omega
      have hsteep := walk_rule (I := fun p => Near a b p ∧ 2 * height a b p ≤ b)
        (fun p q hp hpq => ⟨(near_of_advance hp.1 hpq).1, steep_of_advance hab hp.1 hp.2 hpq⟩)
        ⟨near_start, by simp [height]⟩ h
      have hheight := (hsteep.1 q hmem).2
      rw [height, hrow] at hheight
      have hcast : (a : ℤ) = q.1 + 1 := by omega
      rw [hcast] at hheight
      have hslack : (b : ℤ) ≤ 0 := by linarith
      omega

theorem advance_level {i : ℕ} (h : i ≤ a) :
    advance a 0 (i, 0) = if i = a then none else some (i + 1, 0) := by
  have herror : error a 0 (i, 0) = a := by simp [error]
  have hacross : Across a 0 (i, 0) := by
    rw [Across, herror]
    omega
  have hup : Up a 0 (i, 0) ↔ a = 0 := by
    rw [Up, rest, if_pos hacross, herror]
    omega
  by_cases hend : i = a
  · rw [advance, if_pos (.inl ⟨hacross, hend⟩), if_pos hend]
  · have hpos : a ≠ 0 := by omega
    rw [advance, if_neg, if_neg hend, if_pos hacross, if_neg (mt hup.mp hpos)]
    rintro (⟨-, heq⟩ | ⟨hstop, -⟩)
    · exact hend heq
    · exact hpos (hup.mp hstop)

theorem walk_level {fuel i n : ℕ} (h : i + n = a) (hfuel : n < fuel) :
    walk a 0 fuel (i, 0) = some ((List.range' i (n + 1)).map fun i => (i, 0)) := by
  induction n generalizing fuel i with
  | zero =>
    obtain ⟨fuel, rfl⟩ := Nat.exists_eq_succ_of_ne_zero (Nat.ne_zero_of_lt hfuel)
    rw [walk, advance_level (by omega), if_pos (by omega)]
    rfl
  | succ n ih =>
    obtain ⟨fuel, rfl⟩ := Nat.exists_eq_succ_of_ne_zero (Nat.ne_zero_of_lt hfuel)
    rw [walk, advance_level (by omega), if_neg (by omega)]
    dsimp only
    rw [ih (by omega) (by omega), Option.map_some]
    rfl

end JeogiAt.DigitalLine
