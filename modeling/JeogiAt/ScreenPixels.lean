import JeogiAt.DisplayScreens

/-!
# What the screens leave on the panel

All screens stay on the panel. The dashboard stores to the same pixels whatever it shows, but for
the guide, and the guide stays in an area that is filled before it is drawn. So a dashboard erases
the dashboard before it.

`pixel_dashboard`: behind a dashboard a pixel of each car has the colour of its congestion.
-/

namespace JeogiAt.Paint

open Stores Display

theorem onPanel_ite {p : Prop} [Decidable p] {d d' : Drawing} (h : OnPanel d) (h' : OnPanel d') :
    OnPanel (if p then d else d') := by
  split_ifs
  · exact h
  · exact h'

theorem onPanel_digit (x y : UInt16) (digit : UInt8) (color : UInt16) :
    OnPanel (drawTiny7segDigit x y digit color) := by
  have hsegment {p : Prop} [Decidable p] (x y x' y' : UInt16) :
      OnPanel (if p then paintDrawLine x y x' y' color .dot1x1 .solid else []) :=
    onPanel_ite (onPanel_line _ _ _ _ _ _) within_nil
  unfold drawTiny7segDigit
  dsimp only
  refine onPanel_ite within_nil ?_
  exact ((((((hsegment _ _ _ _).append (hsegment _ _ _ _)).append (hsegment _ _ _ _)).append
    (hsegment _ _ _ _)).append (hsegment _ _ _ _)).append (hsegment _ _ _ _)).append
    (hsegment _ _ _ _)

theorem onPanel_3digit (x y : UInt16) (value : ℤ) (color : UInt16) :
    OnPanel (drawTiny7seg3digit x y value color) :=
  ((onPanel_digit _ _ _ _).append (onPanel_digit _ _ _ _)).append (onPanel_digit _ _ _ _)

theorem onPanel_1decimal (x y : UInt16) (deci_value : ℤ) (color : UInt16) :
    OnPanel (drawTiny7seg1decimal x y deci_value color) :=
  (((onPanel_ite (onPanel_digit _ _ _ _) within_nil).append (onPanel_digit _ _ _ _)).append
    (onPanel_point _ _ _)).append (onPanel_digit _ _ _ _)

/-- A text stays in a box of the panel if it starts and ends there. -/
theorem within_text {left right bottom top : ℤ} {x y : UInt16} {text : List UInt8} {font : SFont}
    {gap_px : UInt8} (fg bg : UInt16) (hleft : left ≤ x.toNat + 1)
    (hright : (x.toNat : ℤ) + text.length * (font.Width.toNat + gap_px.toNat) ≤
      right + gap_px.toNat)
    (hbottom : bottom ≤ y.toNat + 1) (htop : (y.toNat : ℤ) + font.Height.toNat ≤ top)
    (hpanel : right ≤ 128 ∧ top ≤ 32) :
    Within left right bottom top (drawTextWithGap x y text font fg bg gap_px) := by
  induction text generalizing x with
  | nil => exact within_nil
  | cons c text ih =>
    rw [List.length_cons, Nat.cast_succ, add_mul, one_mul] at hright
    have hrest : 0 ≤ (text.length : ℤ) * (font.Width.toNat + gap_px.toNat) := by positivity
    have hgap := gap_px.toNat_lt
    have hnext : ((uword (x.toNat + font.Width.toNat + gap_px.toNat)).toNat : ℤ) =
        x.toNat + font.Width.toNat + gap_px.toNat := toNat_uword (by omega) (by omega)
    unfold drawTextWithGap
    refine Within.append ?_ (ih (by omega) (by omega))
    exact (within_char c bg fg (by omega) (by omega)).mono (by omega) (by omega) (by omega)
      (by omega)

theorem onPanel_text {x y : UInt16} {text : List UInt8} {font : SFont} {gap_px : UInt8}
    (fg bg : UInt16)
    (hx : x.toNat + text.length * (font.Width.toNat + gap_px.toNat) ≤ 128 + gap_px.toNat)
    (hy : y.toNat + font.Height.toNat ≤ 32) :
    OnPanel (drawTextWithGap x y text font fg bg gap_px) :=
  within_text fg bg (by omega) (by exact_mod_cast hx) (by omega) (by exact_mod_cast hy)
    ⟨le_rfl, le_rfl⟩

theorem toNat_uword_clampInt (v : ℤ) :
    1 ≤ (uword (clampInt v 1 63)).toNat ∧ (uword (clampInt v 1 63)).toNat ≤ 63 := by
  have hclamp : 1 ≤ clampInt v 1 63 ∧ clampInt v 1 63 ≤ 63 := by
    unfold clampInt
    split_ifs <;> omega
  have hvalue : ((uword (clampInt v 1 63)).toNat : ℤ) = clampInt v 1 63 :=
    toNat_uword (by omega) (by omega)
  omega

theorem length_topText (train_dest_code : UInt8) : (topText train_dest_code).length ≤ 7 := by
  unfold topText
  split_ifs <;> decide

theorem onPanel_drawTop (T : FontTables) (train_dest_code : UInt8) :
    OnPanel (drawTop T train_dest_code) := by
  have hlength := length_topText train_dest_code
  have hcursor := toNat_uword_clampInt
    ((64 - (textWidthWithGap (topText train_dest_code) T.font12 2).toNat : ℤ).tdiv 2)
  have hwidth : T.font12.Width.toNat + (2 : UInt8).toNat = 9 := rfl
  have hgap : (2 : UInt8).toNat = 2 := rfl
  exact (onPanel_rectangle _ _ _ _ _ _).append
    (onPanel_text black white (by rw [hwidth, hgap]; omega) (show 4 + 12 ≤ 32 by decide))

theorem onPanel_drawBottom (T : FontTables) (x_offset : Int8) :
    OnPanel (drawBottom T x_offset) := by
  have hlength : bottomText.length = 7 := rfl
  have hcursor := toNat_uword_clampInt
    ((64 - (textWidthWithGap bottomText T.font8 2).toNat : ℤ).tdiv 2 + x_offset.toInt)
  have hwidth : T.font8.Width.toNat + (2 : UInt8).toNat = 7 := rfl
  have hgap : (2 : UInt8).toNat = 2 := rfl
  have htop : (18 : UInt16).toNat + T.font8.Height.toNat ≤ 32 := (by decide : 18 + 8 ≤ 32)
  exact ((onPanel_rectangle _ _ _ _ _ _).append
    (onPanel_text black yellow (by rw [hwidth, hgap, hlength]; omega) htop)).append
    (onPanel_rectangle _ _ _ _ _ _)

/-- What the two screens with the readings have in common with respect to the panel. -/
structure DualMetric.Fits (m : DualMetric) : Prop where
  top_label : m.top_label.length * (5 + m.label_gap_px.toNat) ≤ 123
  bottom_label : (5 + m.bottom_label_x_offset).toNat +
    m.bottom_label.length * (5 + m.label_gap_px.toNat) ≤ 128
  unit : (37 + m.unit_x_offset).toNat + 5 ≤ 128

theorem onPanel_string {x y : UInt16} {font : SFont} (h : Fits x y font) (text : List UInt8)
    (fg bg : UInt16) : OnPanel (paintDrawString_EN x y text font fg bg) := by
  have hon : ¬(ledWidth < x.toNat ∨ ledHeight < y.toNat) := by
    have hright := h.right
    have htop := h.top
    unfold ledWidth ledHeight
    omega
  rw [paintDrawString_EN, if_neg hon, h.drawString_eq fg bg text h.before_zero]
  exact within_flatMap fun p _ => h.onPanel_cell p.2 p.1 bg fg

theorem onPanel_dualMetric (T : FontTables) {m : DualMetric} (h : m.Fits) :
    OnPanel (screenShowDualMetricLayout T m) := by
  have hunit (y : UInt16) (hy : y.toNat + 8 ≤ 32) (text : List UInt8) :
      OnPanel (paintDrawString_EN (37 + m.unit_x_offset) y text T.font8 black yellow) := by
    have hfits : Fits (37 + m.unit_x_offset) y T.font8 :=
      ⟨(by decide : 0 < 5), (by decide : 0 < 8), h.unit, hy⟩
    exact onPanel_string hfits text black yellow
  have hbox (y color : UInt16) (hy : (4 : ℤ) ≤ y.toNat ∧ y.toNat ≤ (28 : ℤ)) :
      OnPanel (paintDrawPoint 57 y color .dot4x4 .fillAround) := by
    have hsize : (DotPixel.dot4x4.size : ℤ) = 4 := rfl
    have hx : ((57 : UInt16).toNat : ℤ) = 57 := rfl
    exact within_point color (by omega) (by omega) (by omega) (by omega)
  have hlabel : OnPanel (drawTextWithGap 5 5 m.top_label T.font8 black red m.label_gap_px) := by
    have hlength := h.top_label
    have hwidth : T.font8.Width.toNat = 5 := rfl
    have hx : (5 : UInt16).toNat = 5 := rfl
    exact onPanel_text black red (by rw [hwidth, hx]; omega) (show 5 + 8 ≤ 32 by decide)
  have hlabel' : OnPanel (drawTextWithGap (5 + m.bottom_label_x_offset) 21 m.bottom_label T.font8
      black blue m.label_gap_px) := by
    have hlength := h.bottom_label
    have hwidth : T.font8.Width.toNat = 5 := rfl
    exact onPanel_text black blue (by rw [hwidth]; omega) (show 21 + 8 ≤ 32 by decide)
  unfold screenShowDualMetricLayout
  refine (((((((((onPanel_rectangle _ _ _ _ _ _).append (onPanel_rectangle _ _ _ _ _ _)).append
    hlabel).append (onPanel_ite (onPanel_1decimal _ _ _ _) (onPanel_3digit _ _ _ _))).append
    (hunit 5 (by decide) _)).append (onPanel_ite (hbox 8 _ (by decide)) within_nil)).append
    hlabel').append (onPanel_1decimal _ _ _ _)).append (hunit 21 (by decide) _)).append ?_
  exact onPanel_ite (hbox 24 _ (by decide)) within_nil

theorem onPanel_screenShowCO2 (T : FontTables) (data : DbData) :
    OnPanel (screenShowCO2 T data) :=
  onPanel_dualMetric T
    ⟨(by decide : 3 * 5 ≤ 123), (by decide : 5 + 2 * 5 ≤ 128), (by decide : 37 + 5 ≤ 128)⟩

theorem onPanel_screenShowTempHum (T : FontTables) (data : DbData) :
    OnPanel (screenShowTempHum T data) := by
  have hfits : Fits 47 19 T.font12 :=
    ⟨(by decide : 0 < 7), (by decide : 0 < 12), (by decide : 47 + 7 ≤ 128),
      (by decide : 19 + 12 ≤ 32)⟩
  refine (onPanel_dualMetric T ?_).append (onPanel_string hfits _ _ _)
  exact ⟨(by decide : 4 * 6 ≤ 123), (by decide : 7 + 3 * 6 ≤ 128), (by decide : 43 + 5 ≤ 128)⟩

theorem onPanel_drawCar (i : Fin 8) (status : UInt8) : OnPanel (drawCar i status) := by
  unfold drawCar
  exact ((((((onPanel_digit _ _ _ _).append (onPanel_rectangle _ _ _ _ _ _)).append
    (onPanel_rectangle _ _ _ _ _ _)).append (onPanel_rectangle _ _ _ _ _ _)).append
    (onPanel_point _ _ _)).append (onPanel_point _ _ _)).append
    (onPanel_ite (onPanel_point _ _ _) within_nil)

/-- The area that is filled before the guide is drawn. -/
abbrev InGuideArea (d : Drawing) : Prop := Within 1 64 24 31 d

theorem inGuideArea_leftArrow (color : UInt16) :
    InGuideArea (drawLongLeftArrow (34 - 3) 27 color) := by
  unfold drawLongLeftArrow
  refine (((Within.append ?_ ?_).append ?_).append ?_).append ?_ <;>
    exact within_line color _ (by decide) (by decide) (by decide) (by decide)

theorem inGuideArea_rightArrow (color : UInt16) :
    InGuideArea (drawLongRightArrow (34 + 3) 27 color) := by
  unfold drawLongRightArrow
  refine (((Within.append ?_ ?_).append ?_).append ?_).append ?_ <;>
    exact within_line color _ (by decide) (by decide) (by decide) (by decide)

theorem upArrow_columns (i : Fin 8) :
    let center_x := UInt16.ofNat (7 + i.val * 7) + 2
    center_x.toNat = 9 + i.val * 7 ∧ (center_x - 1).toNat = 8 + i.val * 7 ∧
      (center_x + 1).toNat = 10 + i.val * 7 ∧ (center_x - 2).toNat = 7 + i.val * 7 ∧
      (center_x + 2).toNat = 11 + i.val * 7 := by
  revert i
  decide

theorem inGuideArea_upArrow (i : Fin 8) (color : UInt16) :
    InGuideArea (drawSmallUpArrow (UInt16.ofNat (7 + i.val * 7) + 2) 25 color) := by
  obtain ⟨hcenter, hleft, hright, hleft', hright'⟩ := upArrow_columns i
  have hi := i.isLt
  unfold drawSmallUpArrow
  refine ((Within.append ?_ ?_).append ?_).append ?_
  · exact within_point color (by omega) (by rw [hcenter, DotPixel.size]; omega) (by decide)
      (by decide)
  · exact within_line color _ (by omega) (by rw [hleft, hright, DotPixel.size]; omega) (by decide)
      (by decide)
  · exact within_line color _ (by omega) (by rw [hleft', hright', DotPixel.size]; omega)
      (by decide) (by decide)
  · exact within_line color _ (by omega) (by rw [hcenter, DotPixel.size]; omega) (by decide)
      (by decide)

theorem inGuideArea_drawGuide (status : Vector UInt8 8) (guide_mode : Bool) :
    InGuideArea (drawGuide status guide_mode) := by
  cases guide_mode with
  | false =>
    unfold drawGuide
    dsimp only
    split_ifs
    · exact inGuideArea_leftArrow green
    · exact inGuideArea_rightArrow green
    · exact (inGuideArea_leftArrow green).append (inGuideArea_rightArrow green)
  | true =>
    refine within_flatMap fun i _ => ?_
    split_ifs
    · exact inGuideArea_upArrow i green
    · exact within_nil

theorem onPanel_dashboard (status : Vector UInt8 8) (guide_mode : Bool) :
    OnPanel (matrixRunShowDashboard status guide_mode) := by
  have hbuffer : OnPanel (paintDrawPoint 6 16 white .dot2x2 .fillAround) :=
    within_point white (by decide) (by decide) (by decide) (by decide)
  have htriangle : OnPanel (drawCenterTriangleMarker 34 21 red) :=
    (((onPanel_point _ _ _).append (onPanel_line _ _ _ _ _ _)).append
      (onPanel_line _ _ _ _ _ _)).append (onPanel_line _ _ _ _ _ _)
  have hguide : OnPanel (drawGuide status guide_mode) :=
    (inGuideArea_drawGuide status guide_mode).mono (by decide) (by decide) (by decide) (by decide)
  exact (((((within_flatMap fun i _ => onPanel_drawCar i (status.get i)).append hbuffer).append
    htriangle).append (onPanel_rectangle _ _ _ _ _ _)).append hguide).append
    (onPanel_rectangle _ _ _ _ _ _)

/-- Whatever the readings, the congestion, the destination and the offset of the text are, a screen
stores to `LED_Buffer` only. -/
theorem inBuffer_draw (T : FontTables) (last_dest_code : UInt8) (p : Picture) :
    ∀ i ∈ cells (draw T last_dest_code p).1, InBuffer i := by
  refine OnPanel.inBuffer ?_
  cases p with
  | statusRow status guide_mode => exact onPanel_dashboard status guide_mode
  | co2 data => exact onPanel_screenShowCO2 T data
  | tempHum data => exact onPanel_screenShowTempHum T data
  | train train_dest_code x_offset =>
    unfold draw screenShowTrain
    dsimp only
    split_ifs
    · exact (onPanel_drawTop T train_dest_code).append (onPanel_drawBottom T x_offset)
    · exact onPanel_drawBottom T x_offset

theorem cells_drawCar (i : Fin 8) (status status' : UInt8) :
    cells (drawCar i status) = cells (drawCar i status') := by
  unfold drawCar
  simp only [cells_append,
    cells_rectangle _ _ _ _ (statusToColor status) (statusToColor status') _ .full]

theorem cells_dashboard_subset (status status' : Vector UInt8 8) (guide_mode guide_mode' : Bool) :
    ∀ i ∈ cells (matrixRunShowDashboard status guide_mode),
      i ∈ cells (matrixRunShowDashboard status' guide_mode') := by
  intro i hi
  have hcars : cells ((List.finRange 8).flatMap fun i => drawCar i (status.get i)) =
      cells ((List.finRange 8).flatMap fun i => drawCar i (status'.get i)) := by
    simp only [cells_flatMap]
    exact congrArg List.flatten (List.map_congr_left fun i _ => cells_drawCar i _ _)
  have hguide (h : i ∈ cells (drawGuide status guide_mode)) :
      i ∈ cells (paintDrawRectangle 1 24 64 32 black .dot1x1 .full) := by
    obtain ⟨x, y, rfl, hx, hx', hy, hy'⟩ := inGuideArea_drawGuide status guide_mode i h
    obtain ⟨n, rfl⟩ := Int.eq_ofNat_of_zero_le (show 0 ≤ x by omega)
    obtain ⟨k, rfl⟩ := Int.eq_ofNat_of_zero_le (show 0 ≤ y by omega)
    exact mem_cells_filled ⟨(by omega : 1 ≤ n), (by omega : n ≤ 64)⟩
      ⟨(by omega : 24 ≤ k), (by omega : k < 32)⟩ (by decide) (by decide)
  unfold matrixRunShowDashboard screenShowStatusRow at hi ⊢
  simp only [cells_append, List.mem_append, hcars] at hi ⊢
  rcases hi with ((((hcar | hpoint) | htriangle) | hfill) | harrow) | hframe
  · exact .inl (.inl (.inl (.inl (.inl hcar))))
  · exact .inl (.inl (.inl (.inl (.inr hpoint))))
  · exact .inl (.inl (.inl (.inr htriangle)))
  · exact .inl (.inl (.inr hfill))
  · exact .inl (.inl (.inr (hguide harrow)))
  · exact .inr hframe

theorem write_dashboard (m : ℤ → UInt8) (status status' : Vector UInt8 8)
    (guide_mode guide_mode' : Bool) :
    write (write m (matrixRunShowDashboard status guide_mode))
        (matrixRunShowDashboard status' guide_mode') =
      write m (matrixRunShowDashboard status' guide_mode') :=
  write_write (cells_dashboard_subset status status' guide_mode guide_mode')

/-- All stores of the drawing to the pixel are of the value. -/
def Shows (x y : ℤ) (v : UInt8) (d : Drawing) : Prop := ∀ s ∈ d, s.1 = pixel x y → s.2 = v

theorem Shows.append {x y : ℤ} {v : UInt8} {d d' : Drawing} (h : Shows x y v d)
    (h' : Shows x y v d') : Shows x y v (d ++ d') := by
  intro s hs heq
  exact (List.mem_append.mp hs).elim (fun hs => h s hs heq) fun hs => h' s hs heq

theorem shows_flatMap {α : Type*} {x y : ℤ} {v : UInt8} {xs : List α} {f : α → Drawing}
    (h : ∀ a ∈ xs, Shows x y v (f a)) : Shows x y v (xs.flatMap f) := by
  intro s hs heq
  obtain ⟨a, ha, hmem⟩ := List.mem_flatMap.mp hs
  exact h a ha s hmem heq

theorem Within.shows {left right bottom top x y : ℤ} {d : Drawing}
    (h : Within left right bottom top d) (v : UInt8) (hleft : 1 ≤ left) (hright : right ≤ 128)
    (hx : 1 ≤ x ∧ x ≤ 128) (hout : ¬(left ≤ x ∧ x ≤ right ∧ bottom ≤ y ∧ y ≤ top)) :
    Shows x y v d := by
  intro s hs heq
  obtain ⟨x', y', hcell, hx', hxr, hy, hyt⟩ := h s.1 (List.mem_map_of_mem hs)
  obtain ⟨rfl, rfl⟩ := (pixel_inj hx ⟨by omega, by omega⟩).mp (heq.symm.trans hcell)
  exact absurd ⟨hx', hxr, hy, hyt⟩ hout

theorem toNat_add_of_le {x k : UInt16} (h : x.toNat + k.toNat ≤ 128) :
    (x + k).toNat = x.toNat + k.toNat := by
  rw [UInt16.toNat_add]
  exact Nat.mod_eq_of_lt (by omega)

theorem within_digit {x y : UInt16} (hx : x.toNat + 2 ≤ 128) (hy : y.toNat + 4 ≤ 32)
    (digit : UInt8) (color : UInt16) :
    Within x.toNat (x.toNat + 2) y.toNat (y.toNat + 4) (drawTiny7segDigit x y digit color) := by
  have hx' : (x + 2).toNat = x.toNat + 2 := toNat_add_of_le hx
  have hy' : (y + 2).toNat = y.toNat + 2 := toNat_add_of_le (show y.toNat + 2 ≤ 128 by omega)
  have hy'' : (y + 4).toNat = y.toNat + 4 := toNat_add_of_le (show y.toNat + 4 ≤ 128 by omega)
  have hsize : DotPixel.dot1x1.size = 1 := rfl
  have hsegment {p : Prop} [Decidable p] (X Y X' Y' : UInt16)
      (hX : x.toNat ≤ X.toNat ∧ X.toNat ≤ x.toNat + 2)
      (hX' : x.toNat ≤ X'.toNat ∧ X'.toNat ≤ x.toNat + 2)
      (hY : y.toNat ≤ Y.toNat ∧ Y.toNat ≤ y.toNat + 4)
      (hY' : y.toNat ≤ Y'.toNat ∧ Y'.toNat ≤ y.toNat + 4) :
      Within x.toNat (x.toNat + 2) y.toNat (y.toNat + 4)
        (if p then paintDrawLine X Y X' Y' color .dot1x1 .solid else []) := by
    split_ifs
    · exact within_line color _ (by omega) (by omega) (by omega) (by omega)
    · exact within_nil
  unfold drawTiny7segDigit
  dsimp only
  by_cases hdigit : 9 < digit
  · rw [if_pos hdigit]
    exact within_nil
  · rw [if_neg hdigit]
    refine (((((Within.append ?_ ?_).append ?_).append ?_).append ?_).append ?_).append ?_ <;>
      exact hsegment _ _ _ _ (by omega) (by omega) (by omega) (by omega)

theorem car_columns (i : Fin 8) :
    let car_x_start := UInt16.ofNat (7 + i.val * 7)
    car_x_start.toNat = 7 + i.val * 7 ∧ (car_x_start + 5).toNat = 12 + i.val * 7 ∧
      (car_x_start + 2).toNat = 9 + i.val * 7 ∧ (car_x_start + 5 - 2).toNat = 10 + i.val * 7 ∧
      (car_x_start + 1).toNat = 8 + i.val * 7 ∧ (car_x_start + 5 - 1).toNat = 11 + i.val * 7 ∧
      (car_x_start + 5 + 1).toNat = 13 + i.val * 7 ∧
      (car_x_start + if i.val ≥ 1 then 2 else 1).toNat ≤ 9 + i.val * 7 ∧
      1 ≤ (car_x_start + if i.val ≥ 1 then 2 else 1).toNat := by
  revert i
  decide

theorem shows_frame {Xstart Ystart Xend Yend Color : UInt16} {x y : ℤ} (v : UInt8)
    (hX : 1 ≤ Xstart.toNat ∧ Xstart.toNat ≤ Xend.toNat ∧ Xend.toNat ≤ 128)
    (hx : 1 ≤ x ∧ x ≤ 128) (hcolumn : x ≠ Xstart.toNat ∧ x ≠ Xend.toNat)
    (hrow : y ≠ Ystart.toNat ∧ y ≠ Yend.toNat) (hY : 1 ≤ Ystart.toNat ∧ 1 ≤ Yend.toNat) :
    Shows x y v (paintDrawRectangle Xstart Ystart Xend Yend Color .dot1x1 .empty) := by
  have hsize : DotPixel.dot1x1.size = 1 := rfl
  have hlevel (X X' Y : UInt16) (hXX : X.toNat ≤ 128 ∧ X'.toNat ≤ 128) (hy : y ≠ Y.toNat)
      (hYY : 1 ≤ Y.toNat) :
      Shows x y v (paintDrawLine X Y X' Y Color .dot1x1 .solid) := by
    have hbox : Within 1 128 Y.toNat Y.toNat (paintDrawLine X Y X' Y Color .dot1x1 .solid) :=
      within_line Color _ (by omega) (by omega) (by omega) (by omega)
    exact hbox.shows v (by omega) (by omega) hx (by omega)
  have hupright (X Y Y' : UInt16) (hXX : 1 ≤ X.toNat ∧ X.toNat ≤ 128) (hxX : x ≠ X.toNat) :
      Shows x y v (paintDrawLine X Y X Y' Color .dot1x1 .solid) := by
    have hbox : Within X.toNat X.toNat (min Y.toNat Y'.toNat) (max Y.toNat Y'.toNat)
        (paintDrawLine X Y X Y' Color .dot1x1 .solid) :=
      within_line Color _ (by omega) (by omega) (by omega) (by omega)
    exact hbox.shows v (by omega) (by omega) hx (by omega)
  unfold paintDrawRectangle
  split_ifs
  · intro s hs
    cases hs
  · refine ((Shows.append ?_ ?_).append ?_).append ?_
    · exact hlevel _ _ _ (by omega) hrow.1 hY.1
    · exact hupright _ _ _ (by omega) hcolumn.1
    · exact hupright _ _ _ (by omega) hcolumn.2
    · exact hlevel _ _ _ (by omega) hrow.2 hY.2

theorem shows_drawCar (i j : Fin 8) (status : UInt8) {v : UInt8}
    (hv : j = i → v = (statusToColor status).toUInt8) :
    Shows (8 + i.val * 7) 13 v (drawCar j status) := by
  obtain ⟨hstart, hend, hleft, hright, hwheel, hwheel', hgap, hdigit, hdigit'⟩ := car_columns j
  have hi := i.isLt
  have hj := j.isLt
  have hsize : DotPixel.dot1x1.size = 1 := rfl
  have hx : (1 : ℤ) ≤ 8 + i.val * 7 ∧ 8 + i.val * 7 ≤ (128 : ℤ) := by omega
  have hpoint (X Y c : UInt16) (hX : X.toNat ≤ 128) (hY : Y.toNat ≤ 32 ∧ 1 ≤ Y.toNat)
      (hy : Y.toNat ≠ 13) :
      Shows (8 + i.val * 7) 13 v (paintDrawPoint X Y c .dot1x1 .fillAround) := by
    have hbox : Within 1 128 Y.toNat Y.toNat (paintDrawPoint X Y c .dot1x1 .fillAround) :=
      within_point c (by omega) (by omega) (by omega) (by omega)
    exact hbox.shows v (by decide) (by decide) hx (by omega)
  unfold drawCar
  dsimp only at *
  refine (((((Shows.append ?_ ?_).append ?_).append ?_).append ?_).append ?_).append ?_
  · exact (within_digit (by omega) (by decide) _ _).shows v (by omega) (by omega) hx
      (fun h => absurd h.2.2.2 (by decide))
  · by_cases hij : j = i
    · intro s hs _
      rw [hv hij]
      exact solid_filled _ _ _ _ _ _ s hs
    · have hne : j.val ≠ i.val := fun heq => hij (Fin.ext heq)
      exact (within_filled _ (by omega)).shows v (by omega) (by omega) hx (by omega)
  · exact shows_frame v (by omega) hx (by omega) (by decide) (by decide)
  · exact (within_filled _ (by omega)).shows v (by omega) (by omega) hx (by omega)
  · exact hpoint _ 21 white (by omega) (by decide) (by decide)
  · exact hpoint _ 21 white (by omega) (by decide) (by decide)
  · split_ifs
    · exact hpoint _ ((12 + 19) / 2) white (by omega) (by decide) (by decide)
    · intro s hs
      cases hs

theorem mem_cells_drawCar (i : Fin 8) (status : UInt8) :
    pixel (8 + i.val * 7) 13 ∈ cells (drawCar i status) := by
  obtain ⟨hstart, hend, -⟩ := car_columns i
  have hi := i.isLt
  have hbody : pixel (8 + i.val * 7 : ℕ) (13 : ℕ) ∈
      cells (paintDrawRectangle (UInt16.ofNat (7 + i.val * 7)) 12
        (UInt16.ofNat (7 + i.val * 7) + 5) 19 (statusToColor status) .dot1x1 .full) :=
    mem_cells_filled (by omega) (by decide) (by omega) (by decide)
  push_cast at hbody
  unfold drawCar
  simp only [cells_append, List.mem_append]
  exact .inl (.inl (.inl (.inl (.inl (.inr hbody)))))

theorem shows_dashboard (status : Vector UInt8 8) (guide_mode : Bool) (i : Fin 8) :
    Shows (8 + i.val * 7) 13 (statusToColor (status.get i)).toUInt8
      (matrixRunShowDashboard status guide_mode) := by
  have hi := i.isLt
  have hx : (1 : ℤ) ≤ 8 + i.val * 7 ∧ 8 + i.val * 7 ≤ (128 : ℤ) := by omega
  have hcoupler : Within 5 7 15 17 (paintDrawPoint 6 16 white .dot2x2 .fillAround) :=
    within_point white (by decide) (by decide) (by decide) (by decide)
  have htriangle : Within 31 37 21 24 (drawCenterTriangleMarker 34 21 red) := by
    unfold drawCenterTriangleMarker
    refine ((Within.append ?_ ?_).append ?_).append ?_
    · exact within_point red (by decide) (by decide) (by decide) (by decide)
    all_goals exact within_line red _ (by decide) (by decide) (by decide) (by decide)
  have hfill : InGuideArea (paintDrawRectangle 1 24 64 32 black .dot1x1 .full) :=
    within_filled black (by decide)
  unfold matrixRunShowDashboard screenShowStatusRow
  refine ((((Shows.append ?_ ?_).append ?_).append ?_).append ?_).append ?_
  · refine shows_flatMap fun j _ => shows_drawCar i j (status.get j) fun hj => ?_
    rw [hj]
  · exact hcoupler.shows _ (by decide) (by decide) hx (by omega)
  · exact htriangle.shows _ (by decide) (by decide) hx (by omega)
  · exact hfill.shows _ (by decide) (by decide) hx (by omega)
  · exact (inGuideArea_drawGuide status guide_mode).shows _ (by decide) (by decide) hx (by omega)
  · have hstart : ((1 : UInt16).toNat : ℤ) = 1 := rfl
    have hend : ((64 : UInt16).toNat : ℤ) = 64 := rfl
    exact shows_frame _ (by decide) hx (by omega) (by decide) (by decide)

theorem pixel_dashboard (m : ℤ → UInt8) (status : Vector UInt8 8) (guide_mode : Bool) (i : Fin 8) :
    write m (matrixRunShowDashboard status guide_mode) (pixel (8 + i.val * 7) 13) =
      (statusToColor (status.get i)).toUInt8 := by
  have hmem : pixel (8 + i.val * 7) 13 ∈ cells (matrixRunShowDashboard status guide_mode) := by
    unfold matrixRunShowDashboard screenShowStatusRow
    simp only [cells_append, List.mem_append, cells_flatMap]
    refine .inl (.inl (.inl (.inl (.inl (List.mem_flatMap.mpr ⟨i, List.mem_finRange i, ?_⟩)))))
    exact mem_cells_drawCar i (status.get i)
  exact write_eq_of_forall hmem (shows_dashboard status guide_mode i)

end JeogiAt.Paint
