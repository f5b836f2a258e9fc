import Mathlib.Data.List.Basic

/-!
# A list that is cleared and filled again

A loop reads the entries of a source one after another and pushes what they stand for. It stops at
the first entry that cannot be read, and what it has pushed stays. Such a loop is all or nothing
only where every entry can be read, or where the entries before the first bad one happen to stand
for the old list.
-/

namespace JeogiAt.Refill

variable {α β : Type*} (read : α → Option β)

/-- What the loop pushes, and whether it comes to its end. -/
def refill : List α → List β × Bool
  | [] => ([], true)
  | a :: as =>
      match read a with
      | some b => (b :: (refill as).1, (refill as).2)
      | none => ([], false)

/-- The loop stops at an entry that cannot be read, after entries that stand for `bs`. -/
def StopsAfter (as : List α) (bs : List β) : Prop :=
  ∃ good bad rest, as = good ++ bad :: rest ∧ good.mapM read = some bs ∧ read bad = none

variable {read} {as : List α} {bs old : List β}

theorem mapM_cons_eq_some {a : α} (h : (a :: as).mapM read = some bs) :
    ∃ b rest, read a = some b ∧ as.mapM read = some rest ∧ bs = b :: rest := by
  rw [List.mapM_cons] at h
  simp only [Option.bind_eq_bind, Option.bind_eq_some_iff, Option.pure_def] at h
  obtain ⟨b, hb, rest, hrest, heq⟩ := h
  exact ⟨b, rest, hb, hrest, (Option.some.inj heq).symm⟩

theorem refill_complete (h : as.mapM read = some bs) : refill read as = (bs, true) := by
  induction as generalizing bs with
  | nil =>
    rw [List.mapM_nil] at h
    cases h
    rfl
  | cons a as ih =>
    obtain ⟨b, rest, hb, hrest, rfl⟩ := mapM_cons_eq_some h
    rw [refill, hb, ih hrest]

theorem refill_append {good : List α} (h : good.mapM read = some bs) (rest : List α) :
    refill read (good ++ rest) = (bs ++ (refill read rest).1, (refill read rest).2) := by
  induction good generalizing bs with
  | nil =>
    rw [List.mapM_nil] at h
    cases h
    rfl
  | cons a good ih =>
    obtain ⟨b, bs, hb, hgood, rfl⟩ := mapM_cons_eq_some h
    rw [List.cons_append, refill, hb, ih hgood]
    rfl

theorem refill_stops (h : StopsAfter read as bs) : refill read as = (bs, false) := by
  obtain ⟨good, bad, rest, rfl, hgood, hbad⟩ := h
  rw [refill_append hgood, refill, hbad, List.append_nil]

theorem complete_or_stops (read : α → Option β) (as : List α) :
    (∃ bs, as.mapM read = some bs) ∨ ∃ bs, StopsAfter read as bs := by
  induction as with
  | nil => exact .inl ⟨[], rfl⟩
  | cons a as ih =>
    cases ha : read a with
    | none => exact .inr ⟨[], [], a, as, rfl, rfl, ha⟩
    | some b =>
      rcases ih with ⟨bs, hbs⟩ | ⟨bs, good, bad, rest, has, hgood, hbad⟩
      · refine .inl ⟨b :: bs, ?_⟩
        rw [List.mapM_cons, ha, hbs]
        rfl
      · refine .inr ⟨b :: bs, a :: good, bad, rest, ?_, ?_, hbad⟩
        · rw [has, List.cons_append]
        · rw [List.mapM_cons, ha, hgood]
          rfl

theorem mapM_ne_none_iff : as.mapM read ≠ none ↔ ∀ a ∈ as, read a ≠ none := by
  induction as with
  | nil => exact iff_of_true (Option.some_ne_none _) fun _ hmem => absurd hmem List.not_mem_nil
  | cons a as ih =>
    rw [List.forall_mem_cons, ← ih, List.mapM_cons]
    cases read a with
    | none => exact iff_of_false (fun h => h rfl) (fun h => h.1 rfl)
    | some b =>
      rw [and_iff_right (Option.some_ne_none b)]
      cases as.mapM read with
      | none => exact Iff.rfl
      | some bs => exact iff_of_true (Option.some_ne_none _) (Option.some_ne_none _)

theorem mapM_of_stops (h : StopsAfter read as bs) : as.mapM read = none := by
  cases hall : as.mapM read with
  | none => rfl
  | some all =>
    have hflag := congrArg Prod.snd ((refill_complete hall).symm.trans (refill_stops h))
    exact absurd hflag.symm Bool.false_ne_true

theorem stopsAfter_iff (h : StopsAfter read as bs) : StopsAfter read as old ↔ bs = old := by
  constructor
  · intro hold
    exact congrArg Prod.fst ((refill_stops h).symm.trans (refill_stops hold))
  · rintro rfl
    exact h

/-- The loop ends with the whole list, or without its end and with the old list. -/
def AllOrNothing (read : α → Option β) (as : List α) (old : List β) (result : List β × Bool) :
    Prop :=
  result.2 = true ∧ as.mapM read = some result.1 ∨ result.2 = false ∧ result.1 = old

theorem allOrNothing_iff (read : α → Option β) (as : List α) (old : List β) :
    AllOrNothing read as old (refill read as) ↔
      as.mapM read ≠ none ∨ StopsAfter read as old := by
  rcases complete_or_stops read as with ⟨bs, hbs⟩ | ⟨bs, hbs⟩
  · rw [AllOrNothing, refill_complete hbs]
    exact iff_of_true (.inl ⟨rfl, hbs⟩) (.inl (by rw [hbs]; exact Option.some_ne_none bs))
  · rw [AllOrNothing, refill_stops hbs, or_iff_right (fun h => Bool.false_ne_true h.1),
      or_iff_right (not_not.mpr (mapM_of_stops hbs)), stopsAfter_iff hbs]
    exact and_iff_right rfl

end JeogiAt.Refill
