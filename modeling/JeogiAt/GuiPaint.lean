import JeogiAt.Library.DigitalLine
import JeogiAt.Library.Stores
import Mathlib.Data.Set.Operations

/-!
# The drawing library of the panel

`gui_paint.c` draws points, lines, rectangles and text into `LED_Buffer`, which has a byte for each
of its 128 by 32 pixels. A drawing is the list of its stores to `Image`. An index may lie outside of
the buffer, so indices are integers. The parameters of type `UWORD` take 16 bits of what is passed;
the sizes of points are bytes on this target, and the differences that they are used in are signed.

`paintDrawLine` carries an error from turn to turn and has no bound on its turns. `turns_line` ties
them to the walk of a digital line, which ends.
-/

namespace JeogiAt.Paint

open DigitalLine Stores

def ledWidth : ℤ := 128
def ledHeight : ℤ := 32

def white : UInt16 := 0x07
def black : UInt16 := 0x00
def red : UInt16 := 0x01
def green : UInt16 := 0x02
def blue : UInt16 := 0x04
def yellow : UInt16 := 0x03

def fontBackground : UInt16 := white

inductive DotPixel
  | dot1x1 | dot2x2 | dot3x3 | dot4x4 | dot5x5 | dot6x6 | dot7x7 | dot8x8

def DotPixel.size : DotPixel → ℕ
  | dot1x1 => 1 | dot2x2 => 2 | dot3x3 => 3 | dot4x4 => 4
  | dot5x5 => 5 | dot6x6 => 6 | dot7x7 => 7 | dot8x8 => 8

inductive DotStyle
  | fillAround | fillRightup

inductive LineStyle
  | solid | dotted
  deriving DecidableEq

inductive DrawFill
  | empty | full

structure SFont where
  table : ℕ → UInt8
  Width : UInt16
  Height : UInt16

/-- The stores `Image[i] = Color`, in order. -/
abbrev Drawing := List (ℤ × UInt8)

/-- The value of an `int` passed as a `UWORD`. -/
def uword (n : ℤ) : UInt16 := UInt16.ofInt n

theorem toNat_uword {n : ℤ} (h : 0 ≤ n) (hlt : n < 65536) : ((uword n).toNat : ℤ) = n := by
  simp [uword, UInt16.ofInt]
  omega

def hub75DrawPixel (Xpoint Ypoint Color : UInt16) : Drawing :=
  [((ledWidth - Xpoint.toNat - 1) + (ledHeight - Ypoint.toNat - 1) * ledWidth, Color.toUInt8)]

@[irreducible] def hub75Clear : Drawing := (List.range (128 * 32)).map fun (i : ℕ) => ((i : ℤ), 0)

/-- `Paint_DrawPoint`. The `break` leaves the inner loop. -/
def paintDrawPoint (Xpoint Ypoint Color : UInt16) (Dot_Pixel : DotPixel) (Dot_Style : DotStyle) :
    Drawing :=
  if ledWidth < Xpoint.toNat ∨ ledHeight < Ypoint.toNat then []
  else
    match Dot_Style with
    | .fillAround =>
      (List.range (2 * Dot_Pixel.size - 1)).flatMap fun (XDir_Num : ℕ) =>
        ((List.range (2 * Dot_Pixel.size - 1)).takeWhile fun (YDir_Num : ℕ) =>
          !decide ((Xpoint.toNat + XDir_Num - Dot_Pixel.size : ℤ) < 0 ∨
            (Ypoint.toNat + YDir_Num - Dot_Pixel.size : ℤ) < 0)).flatMap fun (YDir_Num : ℕ) =>
          hub75DrawPixel (uword (Xpoint.toNat + XDir_Num - Dot_Pixel.size))
            (uword (Ypoint.toNat + YDir_Num - Dot_Pixel.size)) Color
    | .fillRightup =>
      (List.range Dot_Pixel.size).flatMap fun (XDir_Num : ℕ) =>
        (List.range Dot_Pixel.size).flatMap fun (YDir_Num : ℕ) =>
          hub75DrawPixel (uword (Xpoint.toNat + XDir_Num - 1))
            (uword (Ypoint.toNat + YDir_Num - 1)) Color

structure Line where
  Xstart : UInt16
  Ystart : UInt16
  Xend : UInt16
  Yend : UInt16

/-- The variables of the loop of `Paint_DrawLine`. -/
structure LineState where
  Xpoint : UInt16
  Ypoint : UInt16
  Esp : ℤ
  Dotted_Len : UInt8

namespace Line

variable (l : Line)

def dx : ℤ :=
  if (0 : ℤ) ≤ l.Xend.toNat - l.Xstart.toNat then l.Xend.toNat - l.Xstart.toNat
  else l.Xstart.toNat - l.Xend.toNat

def dy : ℤ :=
  if (l.Yend.toNat - l.Ystart.toNat : ℤ) ≤ 0 then l.Yend.toNat - l.Ystart.toNat
  else l.Ystart.toNat - l.Yend.toNat

def xAddway : ℤ := if l.Xstart < l.Xend then 1 else -1

def yAddway : ℤ := if l.Ystart < l.Yend then 1 else -1

def start : LineState := ⟨l.Xstart, l.Ystart, l.dx + l.dy, 0⟩

/-- The point of a turn is left out of a dotted line. -/
def gap (Line_Style : LineStyle) (s : LineState) : Bool :=
  Line_Style == .dotted && (s.Dotted_Len + 1) % 3 == 0

/-- What a turn of the loop draws. -/
def dot (Color : UInt16) (Line_width : DotPixel) (Line_Style : LineStyle) (s : LineState) :
    Drawing :=
  if gap Line_Style s then
    if Color ≠ 0 then paintDrawPoint s.Xpoint s.Ypoint black Line_width .fillAround
    else paintDrawPoint s.Xpoint s.Ypoint white Line_width .fillAround
  else paintDrawPoint s.Xpoint s.Ypoint Color Line_width .fillAround

/-- The rest of a turn. There is no next one after a `break`. -/
def advance (Line_Style : LineStyle) (s : LineState) : Option LineState :=
  let Dotted_Len := if gap Line_Style s then 0 else s.Dotted_Len + 1
  let across : Option (UInt16 × ℤ) :=
    if l.dy ≤ 2 * s.Esp then
      if s.Xpoint = l.Xend then none
      else some (uword (s.Xpoint.toNat + l.xAddway), s.Esp + l.dy)
    else some (s.Xpoint, s.Esp)
  across.bind fun (Xpoint, Esp) =>
    if 2 * Esp ≤ l.dx then
      if s.Ypoint = l.Yend then none
      else some ⟨Xpoint, uword (s.Ypoint.toNat + l.yAddway), Esp + l.dx, Dotted_Len⟩
    else some ⟨Xpoint, s.Ypoint, Esp, Dotted_Len⟩

def turns (Line_Style : LineStyle) : ℕ → LineState → Option (List LineState)
  | 0, _ => none
  | fuel + 1, s =>
    match l.advance Line_Style s with
    | none => some [s]
    | some s' => (turns Line_Style fuel s').map (s :: ·)

def fuel : ℕ := (l.dx - l.dy).toNat + 1

def OffPanel : Prop :=
  ledWidth < l.Xstart.toNat ∨ ledHeight < l.Ystart.toNat ∨ ledWidth < l.Xend.toNat ∨
    ledHeight < l.Yend.toNat

instance : Decidable l.OffPanel := inferInstanceAs (Decidable (_ ∨ _))

end Line

def paintDrawLine (Xstart Ystart Xend Yend Color : UInt16) (Line_width : DotPixel)
    (Line_Style : LineStyle) : Drawing :=
  let l : Line := ⟨Xstart, Ystart, Xend, Yend⟩
  if l.OffPanel then []
  else
    ((l.turns Line_Style l.fuel l.start).getD []).flatMap (Line.dot Color Line_width Line_Style)

def paintDrawRectangle (Xstart Ystart Xend Yend Color : UInt16) (Line_width : DotPixel)
    (Draw_Fill : DrawFill) : Drawing :=
  if Line.OffPanel ⟨Xstart, Ystart, Xend, Yend⟩ then []
  else
    match Draw_Fill with
    | .full =>
      (List.range' Ystart.toNat (Yend.toNat - Ystart.toNat)).flatMap fun (Ypoint : ℕ) =>
        paintDrawLine Xstart (uword Ypoint) Xend (uword Ypoint) Color Line_width .solid
    | .empty =>
      paintDrawLine Xstart Ystart Xend Ystart Color Line_width .solid ++
        paintDrawLine Xstart Ystart Xstart Yend Color Line_width .solid ++
        paintDrawLine Xend Yend Xend Ystart Color Line_width .solid ++
        paintDrawLine Xend Yend Xstart Yend Color Line_width .solid

namespace SFont

variable (font : SFont)

def charOffset (Acsii_Char : UInt8) : UInt32 :=
  UInt32.ofInt ((Acsii_Char.toNat - 32) * font.Height.toNat *
    (font.Width.toNat / 8 + if font.Width.toNat % 8 ≠ 0 then 1 else 0))

/-- `ptr`, which moves on after every eighth column and at the end of a row that has a rest. -/
def ptr (Acsii_Char : UInt8) (Page Column : ℕ) : ℕ :=
  (font.charOffset Acsii_Char).toNat +
    Page * (font.Width.toNat / 8 + if font.Width.toNat % 8 ≠ 0 then 1 else 0) + Column / 8

def bit (Acsii_Char : UInt8) (Page Column : ℕ) : Bool :=
  font.table (font.ptr Acsii_Char Page Column) &&& (0x80 >>> UInt8.ofNat (Column % 8)) != 0

end SFont

def paintDrawChar (Xpoint Ypoint : UInt16) (Acsii_Char : UInt8) (font : SFont)
    (Color_Foreground Color_Background : UInt16) : Drawing :=
  if ledWidth < Xpoint.toNat ∨ ledHeight < Ypoint.toNat then []
  else
    (List.range font.Height.toNat).flatMap fun (Page : ℕ) =>
      (List.range font.Width.toNat).flatMap fun (Column : ℕ) =>
        let draw := hub75DrawPixel (uword (Xpoint.toNat + Column)) (uword (Ypoint.toNat + Page))
        if fontBackground = Color_Background then
          if font.bit Acsii_Char Page Column then draw Color_Foreground else []
        else
          if font.bit Acsii_Char Page Column then draw Color_Foreground else draw Color_Background

def wrap (Xstart Ystart : UInt16) (font : SFont) (Xpoint Ypoint : UInt16) : UInt16 × UInt16 :=
  let (Xpoint, Ypoint) :=
    if ledWidth < Xpoint.toNat + font.Width.toNat then
      (Xstart, uword (Ypoint.toNat + font.Height.toNat))
    else (Xpoint, Ypoint)
  if ledHeight < Ypoint.toNat + font.Height.toNat then (Xstart, Ystart) else (Xpoint, Ypoint)

/-- The loop of `Paint_DrawString_EN`. It passes the colours in the other order. -/
def drawString (Xstart Ystart : UInt16) (font : SFont)
    (Color_Foreground Color_Background : UInt16) : List UInt8 → UInt16 → UInt16 → Drawing
  | [], _, _ => []
  | c :: pString, Xpoint, Ypoint =>
    let (Xpoint, Ypoint) := wrap Xstart Ystart font Xpoint Ypoint
    paintDrawChar Xpoint Ypoint c font Color_Background Color_Foreground ++
      drawString Xstart Ystart font Color_Foreground Color_Background pString
        (uword (Xpoint.toNat + font.Width.toNat)) Ypoint

/-- `Paint_DrawString_EN`, for the bytes before the terminator. -/
def paintDrawString_EN (Xstart Ystart : UInt16) (pString : List UInt8) (font : SFont)
    (Color_Foreground Color_Background : UInt16) : Drawing :=
  if ledWidth < Xstart.toNat ∨ ledHeight < Ystart.toNat then []
  else drawString Xstart Ystart font Color_Foreground Color_Background pString Xstart Ystart

end JeogiAt.Paint
