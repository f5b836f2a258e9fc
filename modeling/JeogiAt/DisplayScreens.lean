import JeogiAt.MatrixRun
import JeogiAt.PaintText
import Mathlib.Data.Rat.Floor

/-!
# The screens

What the functions of `display_screens.c` draw. The bitmaps of the fonts are parameters; their sizes
are those of `Font8` and `Font12`. `draw` is the drawing behind a picture of the panel, with the
`last_dest_code` that the train screen keeps.
-/

namespace JeogiAt.Paint

open Stores Display

structure FontTables where
  table8 : ℕ → UInt8
  table12 : ℕ → UInt8

def FontTables.font8 (T : FontTables) : SFont := ⟨T.table8, 5, 8⟩

def FontTables.font12 (T : FontTables) : SFont := ⟨T.table12, 7, 12⟩

def chars (s : List Char) : List UInt8 := s.map fun c => UInt8.ofNat c.toNat

def statusToColor (status : UInt8) : UInt16 :=
  if status = 0 then green
  else if status = 1 then yellow
  else if status = 2 then red
  else white

def clampInt (v lo hi : ℤ) : ℤ := if v < lo then lo else if hi < v then hi else v

def co2ToColor (co2_ppm : ℤ) : UInt16 :=
  if co2_ppm ≤ 400 then green else if co2_ppm ≤ 700 then yellow else red

def coToColor (co_deci_ppm : ℤ) : UInt16 :=
  if co_deci_ppm ≤ 30 then green else if co_deci_ppm ≤ 80 then yellow else red

def segMap : List UInt8 := [0x3F, 0x06, 0x5B, 0x4F, 0x66, 0x6D, 0x7D, 0x07, 0x7F, 0x6F]

def drawTiny7segDigit (x y : UInt16) (digit : UInt8) (color : UInt16) : Drawing :=
  if 9 < digit then []
  else
    let m := segMap.getD digit.toNat 0
    let segment (mask : UInt8) (x y x' y' : UInt16) : Drawing :=
      if m &&& mask ≠ 0 then paintDrawLine x y x' y' color .dot1x1 .solid else []
    segment 0x01 x y (x + 2) y ++
      segment 0x02 (x + 2) y (x + 2) (y + 2) ++
      segment 0x04 (x + 2) (y + 2) (x + 2) (y + 4) ++
      segment 0x08 x (y + 4) (x + 2) (y + 4) ++
      segment 0x10 x (y + 2) x (y + 4) ++
      segment 0x20 x y x (y + 2) ++
      segment 0x40 x (y + 2) (x + 2) (y + 2)

def drawTiny7seg3digit (x y : UInt16) (value : ℤ) (color : UInt16) : Drawing :=
  let v := clampInt value 0 999
  drawTiny7segDigit x y (UInt8.ofInt (v / 100)) color ++
    drawTiny7segDigit (x + 4) y (UInt8.ofInt (v / 10 % 10)) color ++
    drawTiny7segDigit (x + 8) y (UInt8.ofInt (v % 10)) color

def drawTiny7seg1decimal (x y : UInt16) (deci_value : ℤ) (color : UInt16) : Drawing :=
  let v := clampInt deci_value 0 999
  let int_part := UInt8.ofInt (v / 10)
  let ones_x := if 10 ≤ int_part then x + 4 else x
  (if 10 ≤ int_part then drawTiny7segDigit x y (int_part / 10) color else []) ++
    drawTiny7segDigit ones_x y (int_part % 10) color ++
    paintDrawPoint (ones_x + 4) (y + 4) color .dot1x1 .fillAround ++
    drawTiny7segDigit (ones_x + 6) y (UInt8.ofInt (v % 10)) color

def drawTextWithGap (x y : UInt16) (text : List UInt8) (font : SFont) (fg bg : UInt16)
    (gap_px : UInt8) : Drawing :=
  match text with
  | [] => []
  | c :: text =>
    paintDrawChar x y c font bg fg ++
      drawTextWithGap (uword (x.toNat + font.Width.toNat + gap_px.toNat)) y text font fg bg gap_px

def textWidthWithGap (text : List UInt8) (font : SFont) (gap_px : UInt8) : UInt16 :=
  if text.length = 0 then 0
  else uword (text.length * font.Width.toNat + (text.length - 1) * gap_px.toNat)

structure DualMetric where
  top_label : List UInt8
  bottom_label : List UInt8
  top_deci_value : ℤ
  bottom_deci_value : ℤ
  top_unit : List UInt8
  bottom_unit : List UInt8
  top_value_x_offset : UInt16
  bottom_value_x_offset : UInt16
  unit_x_offset : UInt16
  bottom_label_x_offset : UInt16
  label_gap_px : UInt8
  top_show_decimal : Bool
  show_color_box : Bool
  top_color : UInt16
  bottom_color : UInt16

def screenShowDualMetricLayout (T : FontTables) (m : DualMetric) : Drawing :=
  paintDrawRectangle 1 1 64 15 white .dot1x1 .empty ++
    paintDrawRectangle 1 17 64 32 white .dot1x1 .empty ++
    drawTextWithGap 5 5 m.top_label T.font8 black red m.label_gap_px ++
    (if m.top_show_decimal then
      drawTiny7seg1decimal (22 + m.top_value_x_offset) 7 m.top_deci_value white
    else drawTiny7seg3digit (23 + m.top_value_x_offset) 7 (m.top_deci_value.tdiv 10) white) ++
    paintDrawString_EN (37 + m.unit_x_offset) 5 m.top_unit T.font8 black yellow ++
    (if m.show_color_box then paintDrawPoint 57 8 m.top_color .dot4x4 .fillAround else []) ++
    drawTextWithGap (5 + m.bottom_label_x_offset) 21 m.bottom_label T.font8 black blue
      m.label_gap_px ++
    drawTiny7seg1decimal (22 + m.bottom_value_x_offset) 23 m.bottom_deci_value white ++
    paintDrawString_EN (37 + m.unit_x_offset) 21 m.bottom_unit T.font8 black yellow ++
    (if m.show_color_box then paintDrawPoint 57 24 m.bottom_color .dot4x4 .fillAround else [])

/-- A `double` converted to an `int`, which cuts off the fraction. -/
def truncate (x : ℚ) : ℤ := if 0 ≤ x then ⌊x⌋ else ⌈x⌉

def screenShowCO2 (T : FontTables) (data : DbData) : Drawing :=
  let co2_ppm := truncate (data.co2_val + 1 / 2)
  let co_ppm := truncate (data.co_val * 10 + 1 / 2)
  screenShowDualMetricLayout T
    { top_label := chars ['G', 'A', 'S']
      bottom_label := chars ['C', 'O']
      top_deci_value := co2_ppm * 10
      bottom_deci_value := co_ppm
      top_unit := chars ['P', 'P', 'M']
      bottom_unit := chars ['P', 'P', 'M']
      top_value_x_offset := 1
      bottom_value_x_offset := 4
      unit_x_offset := 0
      bottom_label_x_offset := 0
      label_gap_px := 0
      top_show_decimal := false
      show_color_box := true
      top_color := co2ToColor co2_ppm
      bottom_color := coToColor co_ppm }

def screenShowTempHum (T : FontTables) (data : DbData) : Drawing :=
  screenShowDualMetricLayout T
    { top_label := chars ['T', 'E', 'M', 'P']
      bottom_label := chars ['H', 'U', 'M']
      top_deci_value := truncate (data.temp_val * 10 + 1 / 2)
      bottom_deci_value := truncate (data.hum_val * 10 + 1 / 2)
      top_unit := chars [' ', 'C']
      bottom_unit := []
      top_value_x_offset := 8
      bottom_value_x_offset := 8
      unit_x_offset := 6
      bottom_label_x_offset := 2
      label_gap_px := 1
      top_show_decimal := true
      show_color_box := false
      top_color := white
      bottom_color := white } ++
    paintDrawString_EN 47 19 (chars ['%']) T.font12 black yellow

def drawCar (i : Fin 8) (status : UInt8) : Drawing :=
  let car_x_start := UInt16.ofNat (7 + i.val * 7)
  let car_x_end := car_x_start + 5
  drawTiny7segDigit (car_x_start + if i.val ≥ 1 then 2 else 1) 6 (UInt8.ofNat (i.val + 1)) white ++
    paintDrawRectangle car_x_start 12 car_x_end 19 (statusToColor status) .dot1x1 .full ++
    paintDrawRectangle car_x_start 12 car_x_end 19 white .dot1x1 .empty ++
    paintDrawRectangle (car_x_start + 2) (12 + 2) (car_x_end - 2) (19 - 2) black .dot1x1 .full ++
    paintDrawPoint (car_x_start + 1) 21 white .dot1x1 .fillAround ++
    paintDrawPoint (car_x_end - 1) 21 white .dot1x1 .fillAround ++
    if i.val < 7 then paintDrawPoint (car_x_end + 1) ((12 + 19) / 2) white .dot1x1 .fillAround
    else []

def drawCenterTriangleMarker (center_x top_y color : UInt16) : Drawing :=
  paintDrawPoint center_x (top_y + 0) color .dot1x1 .fillAround ++
    paintDrawLine (center_x - 1) (top_y + 1) (center_x + 1) (top_y + 1) color .dot1x1 .solid ++
    paintDrawLine (center_x - 2) (top_y + 2) (center_x + 2) (top_y + 2) color .dot1x1 .solid ++
    paintDrawLine (center_x - 3) (top_y + 3) (center_x + 3) (top_y + 3) color .dot1x1 .solid

def drawLongLeftArrow (start_x y color : UInt16) : Drawing :=
  paintDrawLine 3 y 3 y color .dot1x1 .solid ++
    paintDrawLine 4 (y - 1) 4 (y + 1) color .dot1x1 .solid ++
    paintDrawLine 5 (y - 2) 5 (y + 2) color .dot1x1 .solid ++
    paintDrawLine 6 (y - 3) 6 (y + 3) color .dot1x1 .solid ++
    paintDrawLine 7 y start_x y color .dot2x2 .solid

def drawLongRightArrow (start_x y color : UInt16) : Drawing :=
  paintDrawLine 62 y 62 y color .dot1x1 .solid ++
    paintDrawLine 61 (y - 1) 61 (y + 1) color .dot1x1 .solid ++
    paintDrawLine 60 (y - 2) 60 (y + 2) color .dot1x1 .solid ++
    paintDrawLine 59 (y - 3) 59 (y + 3) color .dot1x1 .solid ++
    paintDrawLine start_x y 58 y color .dot2x2 .solid

def drawSmallUpArrow (center_x tip_y color : UInt16) : Drawing :=
  paintDrawPoint center_x tip_y color .dot1x1 .fillAround ++
    paintDrawLine (center_x - 1) (tip_y + 1) (center_x + 1) (tip_y + 1) color .dot1x1 .solid ++
    paintDrawLine (center_x - 2) (tip_y + 2) (center_x + 2) (tip_y + 2) color .dot1x1 .solid ++
    paintDrawLine center_x (tip_y + 3) center_x (tip_y + 5) color .dot1x1 .solid

def goodCars (status : Vector UInt8 8) : ℕ × ℕ :=
  ((List.finRange 8).countP fun i => decide (status.get i = 0 ∧ i.val < 4),
    (List.finRange 8).countP fun i => decide (status.get i = 0 ∧ ¬i.val < 4))

/-- The last part of `Screen_Show_StatusRow`. -/
def drawGuide (status : Vector UInt8 8) (guide_mode : Bool) : Drawing :=
  match guide_mode with
  | false =>
    let (left_good, right_good) := goodCars status
    if right_good < left_good then drawLongLeftArrow (34 - 3) 27 green
    else if left_good < right_good then drawLongRightArrow (34 + 3) 27 green
    else drawLongLeftArrow (34 - 3) 27 green ++ drawLongRightArrow (34 + 3) 27 green
  | true =>
    (List.finRange 8).flatMap fun (i : Fin 8) =>
      if status.get i = 0 then drawSmallUpArrow (UInt16.ofNat (7 + i.val * 7) + 2) 25 green else []

def screenShowStatusRow (status : Vector UInt8 8) (guide_mode : Bool) : Drawing :=
  ((List.finRange 8).flatMap fun (i : Fin 8) => drawCar i (status.get i)) ++
    paintDrawPoint 6 16 white .dot2x2 .fillAround ++
    drawCenterTriangleMarker 34 21 red ++
    paintDrawRectangle 1 24 64 32 black .dot1x1 .full ++
    drawGuide status guide_mode

def matrixRunShowDashboard (status : Vector UInt8 8) (guide_mode : Bool) : Drawing :=
  screenShowStatusRow status guide_mode ++ paintDrawRectangle 1 1 64 32 red .dot1x1 .empty

def topText (train_dest_code : UInt8) : List UInt8 :=
  if train_dest_code = 1 then chars ['D', 'A', 'E', 'W', 'H', 'A']
  else if train_dest_code = 2 then chars ['G', 'U', 'P', 'A', 'B', 'A', 'L']
  else chars ['L', 'I', 'N', 'E', ' ', '3']

def bottomText : List UInt8 := chars ['A', 'R', 'R', 'I', 'V', 'A', 'L']

def drawTop (T : FontTables) (train_dest_code : UInt8) : Drawing :=
  let top_text := topText train_dest_code
  let top_text_w := textWidthWithGap top_text T.font12 2
  let top_x := uword (clampInt ((64 - top_text_w.toNat : ℤ).tdiv 2) 1 63)
  paintDrawRectangle 1 1 64 16 black .dot1x1 .full ++
    drawTextWithGap top_x 4 top_text T.font12 black white 2

def drawBottom (T : FontTables) (x_offset : Int8) : Drawing :=
  let bottom_text_w := textWidthWithGap bottomText T.font8 2
  let bottom_x := uword (clampInt ((64 - bottom_text_w.toNat : ℤ).tdiv 2 + x_offset.toInt) 1 63)
  paintDrawRectangle 1 17 64 32 black .dot1x1 .full ++
    drawTextWithGap bottom_x 18 bottomText T.font8 black yellow 2 ++
    paintDrawRectangle 1 1 64 32 red .dot1x1 .empty

/-- `Screen_Show_Train`, with its `last_dest_code` before and after. -/
def screenShowTrain (T : FontTables) (last_dest_code train_dest_code : UInt8) (x_offset : Int8) :
    Drawing × UInt8 :=
  if last_dest_code ≠ train_dest_code ∨ x_offset = 0 then
    (drawTop T train_dest_code ++ drawBottom T x_offset, train_dest_code)
  else (drawBottom T x_offset, last_dest_code)

def draw (T : FontTables) (last_dest_code : UInt8) : Picture → Drawing × UInt8
  | .statusRow status guide_mode => (matrixRunShowDashboard status guide_mode, last_dest_code)
  | .co2 data => (screenShowCO2 T data, last_dest_code)
  | .tempHum data => (screenShowTempHum T data, last_dest_code)
  | .train train_dest_code x_offset => screenShowTrain T last_dest_code train_dest_code x_offset

end JeogiAt.Paint
