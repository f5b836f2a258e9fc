import Mathlib.Algebra.Order.Field.Basic
import Mathlib.Tactic.Ring
import Mathlib.Tactic.TypeStar

/-!
# Exponential smoothing of readings that may be undefined

The filter takes its first reading as it is, and from then on moves a part `alpha` of the way from
its value to the reading. So its value stays between the least and the greatest reading. A reading
that is undefined leaves no value, then or later.
-/

namespace JeogiAt.Smoothing

variable {K : Type*}

section

variable [LinearOrder K]

def Spanned (readings : List K) (v : K) : Prop :=
  (∃ least ∈ readings, least ≤ v) ∧ ∃ greatest ∈ readings, v ≤ greatest

theorem spanned_single (readings : List K) (c : K) : Spanned (readings ++ [c]) c :=
  ⟨⟨c, List.mem_append_right _ List.mem_cons_self, le_rfl⟩,
    ⟨c, List.mem_append_right _ List.mem_cons_self, le_rfl⟩⟩

theorem Spanned.mem_Icc {readings : List K} {lo hi v : K} (h : Spanned readings v)
    (hall : ∀ c ∈ readings, lo ≤ c ∧ c ≤ hi) : lo ≤ v ∧ v ≤ hi := by
  obtain ⟨⟨least, hleast, hle⟩, greatest, hgreatest, hge⟩ := h
  exact ⟨(hall least hleast).1.trans hle, hge.trans (hall greatest hgreatest).2⟩

end

variable [Field K]

structure Ema (K : Type*) where
  value : Option K
  first_run : Bool

namespace Ema

def init : Ema K := ⟨some 0, true⟩

def update (alpha : K) (current : Option K) (s : Ema K) : Ema K where
  value :=
    if s.first_run then current
    else current.bind fun c => s.value.map fun e => c * alpha + e * (1 - alpha)
  first_run := false

theorem update_none (alpha : K) (s : Ema K) : (s.update alpha none).value = none := by
  rw [update]
  split_ifs <;> rfl

end Ema

variable [LinearOrder K] [IsStrictOrderedRing K]

theorem le_combination {alpha lo c e : K} (h0 : 0 ≤ alpha) (h1 : alpha ≤ 1) (hc : lo ≤ c)
    (he : lo ≤ e) : lo ≤ c * alpha + e * (1 - alpha) := by
  calc lo = lo * alpha + lo * (1 - alpha) := by ring
    _ ≤ c * alpha + e * (1 - alpha) :=
      add_le_add (mul_le_mul_of_nonneg_right hc h0)
        (mul_le_mul_of_nonneg_right he (sub_nonneg.mpr h1))

theorem combination_le {alpha hi c e : K} (h0 : 0 ≤ alpha) (h1 : alpha ≤ 1) (hc : c ≤ hi)
    (he : e ≤ hi) : c * alpha + e * (1 - alpha) ≤ hi := by
  calc c * alpha + e * (1 - alpha) ≤ hi * alpha + hi * (1 - alpha) :=
      add_le_add (mul_le_mul_of_nonneg_right hc h0)
        (mul_le_mul_of_nonneg_right he (sub_nonneg.mpr h1))
    _ = hi := by ring

/-- With a new reading in the list, the smoothed value is spanned again. -/
theorem Spanned.combination {readings : List K} {alpha c e : K} (h : Spanned readings e)
    (h0 : 0 ≤ alpha) (h1 : alpha ≤ 1) :
    Spanned (readings ++ [c]) (c * alpha + e * (1 - alpha)) := by
  obtain ⟨⟨least, hleast, hle⟩, greatest, hgreatest, hge⟩ := h
  have hold {x : K} (hx : x ∈ readings) : x ∈ readings ++ [c] := List.mem_append_left _ hx
  have hnew : c ∈ readings ++ [c] := List.mem_append_right _ List.mem_cons_self
  constructor
  · rcases le_total least c with hlow | hlow
    · exact ⟨least, hold hleast, le_combination h0 h1 hlow hle⟩
    · exact ⟨c, hnew, le_combination h0 h1 le_rfl (hlow.trans hle)⟩
  · rcases le_total greatest c with hhigh | hhigh
    · exact ⟨c, hnew, combination_le h0 h1 le_rfl (hge.trans hhigh)⟩
    · exact ⟨greatest, hold hgreatest, combination_le h0 h1 hhigh hge⟩

namespace Ema

/-- Either no reading yet, or a value spanned by the readings. -/
def Follows (readings : List K) (s : Ema K) : Prop :=
  s.first_run = true ∨ ∃ v, s.value = some v ∧ Spanned readings v

theorem Follows.update {readings : List K} {s : Ema K} {alpha c : K} (h : Follows readings s)
    (h0 : 0 ≤ alpha) (h1 : alpha ≤ 1) :
    ∃ v, (s.update alpha (some c)).value = some v ∧ Spanned (readings ++ [c]) v := by
  cases hrun : s.first_run with
  | true =>
    refine ⟨c, ?_, spanned_single readings c⟩
    rw [Ema.update, hrun, if_pos rfl]
  | false =>
    obtain ⟨e, hvalue, hspan⟩ := h.resolve_left (by rw [hrun]; exact Bool.false_ne_true)
    refine ⟨c * alpha + e * (1 - alpha), ?_, hspan.combination h0 h1⟩
    rw [Ema.update, hrun, if_neg Bool.false_ne_true, hvalue]
    rfl

end Ema

end JeogiAt.Smoothing
