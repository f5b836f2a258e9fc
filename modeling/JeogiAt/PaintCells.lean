import JeogiAt.PaintLine
import Mathlib.Data.List.TakeWhile

/-!
# Which pixels a drawing stores to

`pixel x y` is the index of a pixel by its coordinates, which start at 1 in the corner that
`Paint_DrawPoint` takes for the origin. A drawing that is `Within` a box of the panel stores to
`LED_Buffer` only; thin points, lines and rectangles are within the panel for all arguments. A
filled rectangle covers its box but for the last row.
-/

namespace JeogiAt.Paint

open Stores

def pixel (x y : ℤ) : ℤ := (128 - x) + (32 - y) * 128

def InBuffer (i : ℤ) : Prop := 0 ≤ i ∧ i < 128 * 32

theorem pixel_inj {x y x' y' : ℤ} (hx : 1 ≤ x ∧ x ≤ 128) (hx' : 1 ≤ x' ∧ x' ≤ 128) :
    pixel x y = pixel x' y' ↔ x = x' ∧ y = y' := by
  unfold pixel
  omega

def Within (left right bottom top : ℤ) (d : Drawing) : Prop :=
  ∀ i ∈ cells d, ∃ x y, i = pixel x y ∧ left ≤ x ∧ x ≤ right ∧ bottom ≤ y ∧ y ≤ top

abbrev OnPanel (d : Drawing) : Prop := Within 1 128 1 32 d

variable {left right bottom top : ℤ} {d d' : Drawing}

theorem OnPanel.inBuffer (h : OnPanel d) : ∀ i ∈ cells d, InBuffer i := by
  intro i hi
  obtain ⟨x, y, rfl, hx, hx', hy, hy'⟩ := h i hi
  unfold InBuffer pixel
  omega

theorem within_nil : Within left right bottom top [] := by
  intro i hi
  cases hi

theorem Within.append (h : Within left right bottom top d) (h' : Within left right bottom top d') :
    Within left right bottom top (d ++ d') := by
  intro i hi
  rw [cells_append, List.mem_append] at hi
  exact hi.elim (h i) (h' i)

theorem within_flatMap {α : Type*} {xs : List α} {f : α → Drawing}
    (h : ∀ x ∈ xs, Within left right bottom top (f x)) :
    Within left right bottom top (xs.flatMap f) := by
  intro i hi
  rw [cells_flatMap] at hi
  obtain ⟨x, hx, hmem⟩ := List.mem_flatMap.mp hi
  exact h x hx i hmem

theorem Within.mono {left' right' bottom' top' : ℤ} (h : Within left right bottom top d)
    (hleft : left' ≤ left) (hright : right ≤ right') (hbottom : bottom' ≤ bottom)
    (htop : top ≤ top') : Within left' right' bottom' top' d := by
  intro i hi
  obtain ⟨x, y, rfl, hx, hx', hy, hy'⟩ := h i hi
  exact ⟨x, y, rfl, hleft.trans hx, hx'.trans hright, hbottom.trans hy, hy'.trans htop⟩

theorem hub75DrawPixel_uword {x y : ℤ} (hx : 0 ≤ x) (hx' : x < 65536) (hy : 0 ≤ y)
    (hy' : y < 65536) (Color : UInt16) :
    hub75DrawPixel (uword x) (uword y) Color = [(pixel (x + 1) (y + 1), Color.toUInt8)] := by
  rw [hub75DrawPixel, toNat_uword hx hx', toNat_uword hy hy', pixel, ledWidth, ledHeight]
  have hindex : (128 - x - 1) + (32 - y - 1) * 128 = 128 - (x + 1) + (32 - (y + 1)) * 128 := by
    omega
  rw [hindex]

/-- A pixel of a drawn point, with the offsets of the two loops. -/
theorem mem_cells_point {X Y Color : UInt16} {s : DotPixel} {i : ℤ}
    (h : i ∈ cells (paintDrawPoint X Y Color s .fillAround)) :
    X.toNat ≤ 128 ∧ Y.toNat ≤ 32 ∧ ∃ x y : ℤ, i = pixel x y ∧ 1 ≤ x ∧ 1 ≤ y ∧
      X.toNat - s.size < x ∧ x < X.toNat + s.size ∧
      Y.toNat - s.size < y ∧ y < Y.toNat + s.size := by
  unfold paintDrawPoint at h
  split_ifs at h with hoff
  · cases h
  rw [not_or, not_lt, not_lt, ledWidth, ledHeight] at hoff
  have hsize : s.size ≤ 8 := by cases s <;> decide
  refine ⟨by omega, by omega, ?_⟩
  rw [cells_flatMap] at h
  obtain ⟨XDir_Num, hX, h⟩ := List.mem_flatMap.mp h
  rw [cells_flatMap] at h
  obtain ⟨YDir_Num, hY, h⟩ := List.mem_flatMap.mp h
  have hgo := List.mem_takeWhile_imp hY
  have hX' := List.mem_range.mp hX
  have hY' := List.mem_range.mp ((List.takeWhile_prefix _).subset hY)
  rw [Bool.not_eq_true', decide_eq_false_iff_not, not_or, not_lt, not_lt] at hgo
  rw [hub75DrawPixel_uword hgo.1 (by omega) hgo.2 (by omega)] at h
  exact ⟨_, _, List.mem_singleton.mp h, by omega, by omega, by omega, by omega, by omega, by omega⟩

theorem within_point {X Y : UInt16} {s : DotPixel} (Color : UInt16)
    (hleft : left ≤ max 1 (X.toNat - s.size + 1 : ℤ)) (hright : X.toNat + s.size - 1 ≤ right)
    (hbottom : bottom ≤ max 1 (Y.toNat - s.size + 1 : ℤ)) (htop : Y.toNat + s.size - 1 ≤ top) :
    Within left right bottom top (paintDrawPoint X Y Color s .fillAround) := by
  intro i hi
  obtain ⟨-, -, x, y, rfl, hx, hy, hxX, hXx, hyY, hYy⟩ := mem_cells_point hi
  exact ⟨x, y, rfl, by omega, by omega, by omega, by omega⟩

theorem onPanel_point (X Y Color : UInt16) :
    OnPanel (paintDrawPoint X Y Color .dot1x1 .fillAround) := by
  intro i hi
  obtain ⟨hX, hY, x, y, rfl, hx, hy, hxX, hXx, hyY, hYy⟩ := mem_cells_point hi
  have hsize : (DotPixel.dot1x1.size : ℤ) = 1 := rfl
  exact ⟨x, y, rfl, by omega, by omega, by omega, by omega⟩

/-- What holds of all points that a line may draw holds of the line. -/
theorem within_line_of {Xstart Ystart Xend Yend : UInt16} {s : DotPixel} {Color : UInt16}
    {Line_Style : LineStyle}
    (h : ∀ X Y c : UInt16, (Line.mk Xstart Ystart Xend Yend).Beside (X.toNat, Y.toNat) →
      Within left right bottom top (paintDrawPoint X Y c s .fillAround)) :
    Within left right bottom top
      (paintDrawLine Xstart Ystart Xend Yend Color s Line_Style) := by
  obtain ⟨ss, -, hpath, hdraw⟩ :=
    Line.paintDrawLine_path ⟨Xstart, Ystart, Xend, Yend⟩ Color s Line_Style
  dsimp only at hdraw
  rw [hdraw]
  split_ifs
  · exact within_nil
  · refine within_flatMap fun t ht => ?_
    have hbeside := hpath.beside t.point (List.mem_map_of_mem ht)
    unfold Line.dot
    split_ifs
    · exact h _ _ _ hbeside
    · exact h _ _ _ hbeside
    · exact h _ _ _ hbeside

theorem within_line {Xstart Ystart Xend Yend : UInt16} {s : DotPixel} (Color : UInt16)
    (Line_Style : LineStyle)
    (hleft : left ≤ max 1 (min (Xstart.toNat : ℤ) Xend.toNat - s.size + 1))
    (hright : max (Xstart.toNat : ℤ) Xend.toNat + s.size - 1 ≤ right)
    (hbottom : bottom ≤ max 1 (min (Ystart.toNat : ℤ) Yend.toNat - s.size + 1))
    (htop : max (Ystart.toNat : ℤ) Yend.toNat + s.size - 1 ≤ top) :
    Within left right bottom top
      (paintDrawLine Xstart Ystart Xend Yend Color s Line_Style) := by
  refine within_line_of fun X Y c hbeside => ?_
  obtain ⟨hl, hr, hb, ht, -, -⟩ := hbeside
  dsimp only at hl hr hb ht
  exact within_point c (by omega) (by omega) (by omega) (by omega)

theorem onPanel_line (Xstart Ystart Xend Yend Color : UInt16) (Line_Style : LineStyle) :
    OnPanel (paintDrawLine Xstart Ystart Xend Yend Color .dot1x1 Line_Style) :=
  within_line_of fun X Y c _ => onPanel_point X Y c

theorem onPanel_rectangle (Xstart Ystart Xend Yend Color : UInt16) (Draw_Fill : DrawFill) :
    OnPanel (paintDrawRectangle Xstart Ystart Xend Yend Color .dot1x1 Draw_Fill) := by
  unfold paintDrawRectangle
  split_ifs
  · exact within_nil
  · cases Draw_Fill with
    | full => exact within_flatMap fun Ypoint _ => onPanel_line _ _ _ _ _ _
    | empty =>
      exact (((onPanel_line _ _ _ _ _ _).append (onPanel_line _ _ _ _ _ _)).append
        (onPanel_line _ _ _ _ _ _)).append (onPanel_line _ _ _ _ _ _)

/-- A filled rectangle stays in its box, and draws nothing in the last row. -/
theorem within_filled {Xstart Ystart Xend Yend : UInt16} (Color : UInt16)
    (hX : Xstart.toNat ≤ Xend.toNat) :
    Within Xstart.toNat Xend.toNat Ystart.toNat (Yend.toNat - 1)
      (paintDrawRectangle Xstart Ystart Xend Yend Color .dot1x1 .full) := by
  have hsize : (DotPixel.dot1x1.size : ℤ) = 1 := rfl
  have hlt := Yend.toNat_lt
  unfold paintDrawRectangle
  split_ifs
  · exact within_nil
  · refine within_flatMap fun Ypoint hY => ?_
    have hrow := List.mem_range'_1.mp hY
    have hvalue : ((uword Ypoint).toNat : ℤ) = Ypoint := toNat_uword (by omega) (by omega)
    exact within_line Color _ (by omega) (by omega) (by omega) (by omega)

theorem paintDrawPoint_one {X Y : UInt16} (hX : 1 ≤ X.toNat ∧ X.toNat ≤ 128)
    (hY : 1 ≤ Y.toNat ∧ Y.toNat ≤ 32) (Color : UInt16) :
    paintDrawPoint X Y Color .dot1x1 .fillAround = [(pixel X.toNat Y.toNat, Color.toUInt8)] := by
  have hon : ¬(ledWidth < X.toNat ∨ ledHeight < Y.toNat) := by
    unfold ledWidth ledHeight
    omega
  have hsize : DotPixel.dot1x1.size = 1 := rfl
  have hgo : ¬((X.toNat + (0 : ℕ) - (1 : ℕ) : ℤ) < 0 ∨ (Y.toNat + (0 : ℕ) - (1 : ℕ) : ℤ) < 0) := by
    omega
  rw [paintDrawPoint, if_neg hon, hsize]
  have honce : List.range (2 * 1 - 1) = [0] := rfl
  simp only [honce, List.flatMap_singleton, List.takeWhile_cons, List.takeWhile_nil,
    decide_eq_false hgo, Bool.not_false, if_true]
  rw [hub75DrawPixel_uword (by omega) (by omega) (by omega) (by omega)]
  push_cast
  rw [add_zero, add_zero, sub_add_cancel, sub_add_cancel]

/-- The colour of a solid drawing is that of each of its stores. -/
def Solid (Color : UInt16) (d : Drawing) : Prop := ∀ s ∈ d, s.2 = Color.toUInt8

theorem solid_flatMap {α : Type*} {Color : UInt16} {xs : List α} {f : α → Drawing}
    (h : ∀ x ∈ xs, Solid Color (f x)) : Solid Color (xs.flatMap f) := by
  intro s hs
  obtain ⟨x, hx, hmem⟩ := List.mem_flatMap.mp hs
  exact h x hx s hmem

theorem solid_point (X Y Color : UInt16) (s : DotPixel) :
    Solid Color (paintDrawPoint X Y Color s .fillAround) := by
  unfold paintDrawPoint
  split_ifs
  · intro t ht
    cases ht
  · refine solid_flatMap fun XDir_Num _ => solid_flatMap fun YDir_Num _ t ht => ?_
    rw [List.mem_singleton.mp ht]

theorem dot_solid (Color : UInt16) (s : DotPixel) :
    Line.dot Color s .solid = fun t => paintDrawPoint t.Xpoint t.Ypoint Color s .fillAround :=
  rfl

theorem solid_line (Xstart Ystart Xend Yend Color : UInt16) (s : DotPixel) :
    Solid Color (paintDrawLine Xstart Ystart Xend Yend Color s .solid) := by
  unfold paintDrawLine
  dsimp only
  split_ifs
  · intro t ht
    cases ht
  · rw [dot_solid]
    exact solid_flatMap fun t _ => solid_point _ _ _ _

theorem solid_filled (Xstart Ystart Xend Yend Color : UInt16) (s : DotPixel) :
    Solid Color (paintDrawRectangle Xstart Ystart Xend Yend Color s .full) := by
  unfold paintDrawRectangle
  split_ifs
  · intro t ht
    cases ht
  · exact solid_flatMap fun Ypoint _ => solid_line _ _ _ _ _ _

theorem cells_point (X Y Color Color' : UInt16) (s : DotPixel) :
    cells (paintDrawPoint X Y Color s .fillAround) =
      cells (paintDrawPoint X Y Color' s .fillAround) := by
  unfold paintDrawPoint
  split_ifs
  · rfl
  · simp only [cells_flatMap]
    rfl

theorem cells_line (Xstart Ystart Xend Yend Color Color' : UInt16) (s : DotPixel) :
    cells (paintDrawLine Xstart Ystart Xend Yend Color s .solid) =
      cells (paintDrawLine Xstart Ystart Xend Yend Color' s .solid) := by
  unfold paintDrawLine
  dsimp only
  split_ifs
  · rfl
  · simp only [cells_flatMap, dot_solid, cells_point _ _ Color Color']

theorem cells_rectangle (Xstart Ystart Xend Yend Color Color' : UInt16) (s : DotPixel)
    (Draw_Fill : DrawFill) :
    cells (paintDrawRectangle Xstart Ystart Xend Yend Color s Draw_Fill) =
      cells (paintDrawRectangle Xstart Ystart Xend Yend Color' s Draw_Fill) := by
  unfold paintDrawRectangle
  split_ifs
  · rfl
  · cases Draw_Fill with
    | full => simp only [cells_flatMap, cells_line _ _ _ _ Color Color']
    | empty => simp only [cells_append, cells_line _ _ _ _ Color Color']

theorem mem_cells_level {Xstart Xend Y Color : UInt16} {x : ℕ}
    (hx : Xstart.toNat ≤ x ∧ x ≤ Xend.toNat) (hX : 1 ≤ Xstart.toNat ∧ Xend.toNat ≤ 128)
    (hY : 1 ≤ Y.toNat ∧ Y.toNat ≤ 32) :
    pixel x Y.toNat ∈ cells (paintDrawLine Xstart Y Xend Y Color .dot1x1 .solid) := by
  let l : Line := ⟨Xstart, Y, Xend, Y⟩
  have hon : ¬l.OffPanel := by
    simp only [Line.OffPanel, ledWidth, ledHeight, l]
    omega
  have hrows : l.rows = 0 := by
    simp [Line.rows, Line.dy, l]
  have hcolumns : (l.columns : ℤ) = Xend.toNat - Xstart.toNat := by
    rw [← l.dx_eq, Line.dx]
    dsimp only [l]
    split_ifs <;> omega
  obtain ⟨ps, ss, hps, hss, hpoints⟩ := l.exists_turns .solid
  have hfuel := l.fuel_eq
  rw [hrows, DigitalLine.walk_level (Nat.zero_add l.columns) (by omega)] at hps
  cases hps
  have hmem : ((x : ℤ), (Y.toNat : ℤ)) ∈ ss.map LineState.point := by
    rw [hpoints, List.map_map]
    refine List.mem_map.mpr ⟨x - Xstart.toNat, List.mem_range'_1.mpr (by omega), ?_⟩
    have hway : x = Xstart.toNat ∨ l.xAddway = 1 := by
      rcases l.xAt_cases with ⟨hway, -⟩ | ⟨-, hend⟩
      · exact .inr hway
      · dsimp only [l] at hend
        omega
    refine Prod.ext ?_ ?_
    · simp only [Function.comp_apply, Line.pointAt, Line.xAt, l]
      rcases hway with hstart | hway
      · rw [hstart, Nat.sub_self]
        simp
      · dsimp only [l] at hway
        rw [hway]
        omega
    · simp [Line.pointAt, Line.yAt, l]
  obtain ⟨s, hs, hpoint⟩ := List.mem_map.mp hmem
  obtain ⟨hsx, hsy⟩ := Prod.mk.inj hpoint
  have hdraw := Line.paintDrawLine_eq hss Color .dot1x1
  dsimp only [l] at hdraw
  rw [hdraw, if_neg hon, cells_flatMap]
  refine List.mem_flatMap.mpr ⟨s, hs, ?_⟩
  rw [dot_solid]
  dsimp only
  rw [paintDrawPoint_one (by omega) (by omega), ← hsx, ← hsy]
  exact List.mem_singleton_self _

theorem mem_cells_filled {Xstart Ystart Xend Yend Color : UInt16} {x y : ℕ}
    (hx : Xstart.toNat ≤ x ∧ x ≤ Xend.toNat) (hy : Ystart.toNat ≤ y ∧ y < Yend.toNat)
    (hX : 1 ≤ Xstart.toNat ∧ Xend.toNat ≤ 128) (hY : 1 ≤ Ystart.toNat ∧ Yend.toNat ≤ 32) :
    pixel x y ∈ cells (paintDrawRectangle Xstart Ystart Xend Yend Color .dot1x1 .full) := by
  have hon : ¬Line.OffPanel ⟨Xstart, Ystart, Xend, Yend⟩ := by
    simp only [Line.OffPanel, ledWidth, ledHeight]
    omega
  have hvalue : ((uword y).toNat : ℤ) = y := toNat_uword (by omega) (by omega)
  rw [paintDrawRectangle, if_neg hon, cells_flatMap]
  refine List.mem_flatMap.mpr ⟨y, List.mem_range'_1.mpr (by omega), ?_⟩
  have hrow : pixel x (uword y).toNat ∈
      cells (paintDrawLine Xstart (uword y) Xend (uword y) Color .dot1x1 .solid) :=
    mem_cells_level hx hX (by omega)
  rwa [hvalue] at hrow

end JeogiAt.Paint
