import Mathlib.Algebra.Order.Group.Defs
import Mathlib.Algebra.Order.Sub.Basic

/-!
# Spans of a least length

`moveLow` and `moveHigh` put an end of a span to a place, or to `size` away from the other end where
the place is nearer than that. So a span of that length within bounds stays one, as long as its low
end is not put below the bounds nor its high end above.
-/

namespace JeogiAt

structure Span (K : Type*) where
  lo : K
  hi : K

namespace Span

variable {K : Type*} [AddCommGroup K] [LinearOrder K]

def moveLow (size place : K) (s : Span K) : Span K := ⟨min place (s.hi - size), s.hi⟩

def moveHigh (size place : K) (s : Span K) : Span K := ⟨s.lo, max place (s.lo + size)⟩

structure Within (bottom top size : K) (s : Span K) : Prop where
  bottom_le : bottom ≤ s.lo
  le_top : s.hi ≤ top
  size_le : size ≤ s.hi - s.lo

variable [IsOrderedAddMonoid K] {bottom top size place : K} {s : Span K}

theorem moveLow_of_lt (h : s.hi - place < size) : s.moveLow size place = ⟨s.hi - size, s.hi⟩ := by
  rw [moveLow, min_eq_right (sub_lt_comm.mp h).le]

theorem moveLow_of_le (h : size ≤ s.hi - place) : s.moveLow size place = ⟨place, s.hi⟩ := by
  rw [moveLow, min_eq_left (le_sub_comm.mp h)]

theorem moveHigh_of_lt (h : place - s.lo < size) :
    s.moveHigh size place = ⟨s.lo, s.lo + size⟩ := by
  rw [moveHigh, max_eq_right (sub_lt_iff_lt_add'.mp h).le]

theorem moveHigh_of_le (h : size ≤ place - s.lo) : s.moveHigh size place = ⟨s.lo, place⟩ := by
  rw [moveHigh, max_eq_left (le_sub_iff_add_le'.mp h)]

theorem Within.moveLow (h : s.Within bottom top size) (hplace : bottom ≤ place) :
    (s.moveLow size place).Within bottom top size where
  bottom_le := le_min hplace (h.bottom_le.trans (le_sub_comm.mp h.size_le))
  le_top := h.le_top
  size_le := le_sub_comm.mp (min_le_right place (s.hi - size))

theorem Within.moveHigh (h : s.Within bottom top size) (hplace : place ≤ top) :
    (s.moveHigh size place).Within bottom top size where
  bottom_le := h.bottom_le
  le_top := max_le hplace ((le_sub_iff_add_le'.mp h.size_le).trans h.le_top)
  size_le := le_sub_iff_add_le'.mpr (le_max_right place (s.lo + size))

end Span

end JeogiAt
