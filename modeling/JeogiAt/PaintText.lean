import JeogiAt.PaintCells

/-!
# Text on the panel

`Paint_DrawString_EN` keeps a cursor, moves it to the next row of characters at the edge of the
panel, and back to the start when there is no such row. So the string is set in a grid of `columns`
by `rows` cells from its start on: `Before n X Y` says where the cursor is before the character `n`,
and `paintDrawString_EN_layout` that this character goes to `cell n`.
-/

namespace JeogiAt.Paint

open Stores

theorem within_char {X Y : UInt16} {font : SFont} (c : UInt8) (Foreground Background : UInt16)
    (hX : X.toNat + font.Width.toNat ≤ 128) (hY : Y.toNat + font.Height.toNat ≤ 32) :
    Within (X.toNat + 1) (X.toNat + font.Width.toNat) (Y.toNat + 1) (Y.toNat + font.Height.toNat)
      (paintDrawChar X Y c font Foreground Background) := by
  by_cases hoff : ledWidth < X.toNat ∨ ledHeight < Y.toNat
  · rw [paintDrawChar, if_pos hoff]
    exact within_nil
  · rw [paintDrawChar, if_neg hoff]
    refine within_flatMap fun Page hPage => within_flatMap fun Column hColumn => ?_
    have hrow := List.mem_range.mp hPage
    have hcolumn := List.mem_range.mp hColumn
    have hdraw (Color : UInt16) : Within (X.toNat + 1) (X.toNat + font.Width.toNat) (Y.toNat + 1)
        (Y.toNat + font.Height.toNat)
        (hub75DrawPixel (uword (X.toNat + Column)) (uword (Y.toNat + Page)) Color) := by
      rw [hub75DrawPixel_uword (by omega) (by omega) (by omega) (by omega)]
      intro i hi
      exact ⟨_, _, List.mem_singleton.mp hi, by omega, by omega, by omega, by omega⟩
    dsimp only
    by_cases hbit : font.bit c Page Column
    · rw [if_pos hbit, if_pos hbit]
      split_ifs <;> exact hdraw _
    · rw [if_neg hbit, if_neg hbit]
      split_ifs
      · exact within_nil
      · exact hdraw _

/-- A string starts where its font has room for a character. -/
structure Fits (Xstart Ystart : UInt16) (font : SFont) : Prop where
  width : 0 < font.Width.toNat
  height : 0 < font.Height.toNat
  right : Xstart.toNat + font.Width.toNat ≤ 128
  top : Ystart.toNat + font.Height.toNat ≤ 32

section Grid

variable (Xstart Ystart : UInt16) (font : SFont)

def columns : ℕ := (128 - Xstart.toNat) / font.Width.toNat

def rows : ℕ := (32 - Ystart.toNat) / font.Height.toNat

def columnAt (c : ℕ) : UInt16 := uword (Xstart.toNat + c * font.Width.toNat)

def rowAt (r : ℕ) : UInt16 := uword (Ystart.toNat + r * font.Height.toNat)

def cell (n : ℕ) : UInt16 × UInt16 :=
  (columnAt Xstart font (n % columns Xstart font),
    rowAt Ystart font (n / columns Xstart font % rows Ystart font))

/-- The cursor before the character `n`: at its place, or past the end of the row before. -/
def Before (n : ℕ) (X Y : UInt16) : Prop :=
  ∃ c r, X = columnAt Xstart font c ∧ Y = rowAt Ystart font r ∧ c ≤ columns Xstart font ∧
    r < rows Ystart font ∧
    if c = columns Xstart font then
      n % columns Xstart font = 0 ∧
        n / columns Xstart font % rows Ystart font = (r + 1) % rows Ystart font
    else n % columns Xstart font = c ∧ n / columns Xstart font % rows Ystart font = r

end Grid

variable {Xstart Ystart : UInt16} {font : SFont}

namespace Fits

theorem columns_pos (h : Fits Xstart Ystart font) : 0 < columns Xstart font :=
  Nat.div_pos (by have hright := h.right; omega) h.width

theorem rows_pos (h : Fits Xstart Ystart font) : 0 < rows Ystart font :=
  Nat.div_pos (by have htop := h.top; omega) h.height

theorem columns_mul_le (h : Fits Xstart Ystart font) :
    Xstart.toNat + columns Xstart font * font.Width.toNat ≤ 128 := by
  have hmul := Nat.div_mul_le_self (128 - Xstart.toNat) font.Width.toNat
  have hright := h.right
  unfold columns
  omega

theorem rows_mul_le (h : Fits Xstart Ystart font) :
    Ystart.toNat + rows Ystart font * font.Height.toNat ≤ 32 := by
  have hmul := Nat.div_mul_le_self (32 - Ystart.toNat) font.Height.toNat
  have htop := h.top
  unfold rows
  omega

theorem toNat_columnAt (h : Fits Xstart Ystart font) {c : ℕ} (hc : c ≤ columns Xstart font) :
    (columnAt Xstart font c).toNat = Xstart.toNat + c * font.Width.toNat := by
  have hmul := Nat.mul_le_mul_right font.Width.toNat hc
  have hall := h.columns_mul_le
  have hvalue : ((columnAt Xstart font c).toNat : ℤ) =
      (Xstart.toNat + c * font.Width.toNat : ℕ) := by
    push_cast
    exact toNat_uword (by positivity) (by exact_mod_cast (by omega : _ < 65536))
  exact_mod_cast hvalue

theorem toNat_rowAt (h : Fits Xstart Ystart font) {r : ℕ} (hr : r ≤ rows Ystart font) :
    (rowAt Ystart font r).toNat = Ystart.toNat + r * font.Height.toNat := by
  have hmul := Nat.mul_le_mul_right font.Height.toNat hr
  have hall := h.rows_mul_le
  have hvalue : ((rowAt Ystart font r).toNat : ℤ) = (Ystart.toNat + r * font.Height.toNat : ℕ) := by
    push_cast
    exact toNat_uword (by positivity) (by exact_mod_cast (by omega : _ < 65536))
  exact_mod_cast hvalue

theorem past_right_iff (h : Fits Xstart Ystart font) {c : ℕ} (hc : c ≤ columns Xstart font) :
    ledWidth < (columnAt Xstart font c).toNat + font.Width.toNat ↔ c = columns Xstart font := by
  have hroom : c + 1 ≤ columns Xstart font ↔
      (c + 1) * font.Width.toNat ≤ 128 - Xstart.toNat := Nat.le_div_iff_mul_le h.width
  have hright := h.right
  rw [h.toNat_columnAt hc, ledWidth]
  rw [Nat.succ_mul] at hroom
  push_cast
  omega

theorem past_top_iff (h : Fits Xstart Ystart font) {r : ℕ} (hr : r ≤ rows Ystart font) :
    ledHeight < (rowAt Ystart font r).toNat + font.Height.toNat ↔ r = rows Ystart font := by
  have hroom : r + 1 ≤ rows Ystart font ↔
      (r + 1) * font.Height.toNat ≤ 32 - Ystart.toNat := Nat.le_div_iff_mul_le h.height
  have htop := h.top
  rw [h.toNat_rowAt hr, ledHeight]
  rw [Nat.succ_mul] at hroom
  push_cast
  omega

theorem columnAt_zero (h : Fits Xstart Ystart font) : columnAt Xstart font 0 = Xstart := by
  have hvalue := h.toNat_columnAt (Nat.zero_le _)
  rw [zero_mul, add_zero] at hvalue
  exact UInt16.toNat_inj.mp hvalue

theorem rowAt_zero (h : Fits Xstart Ystart font) : rowAt Ystart font 0 = Ystart := by
  have hvalue := h.toNat_rowAt (Nat.zero_le _)
  rw [zero_mul, add_zero] at hvalue
  exact UInt16.toNat_inj.mp hvalue

theorem rowAt_succ (h : Fits Xstart Ystart font) {r : ℕ} (hr : r ≤ rows Ystart font) :
    rowAt Ystart font (r + 1) = uword ((rowAt Ystart font r).toNat + font.Height.toNat) := by
  rw [h.toNat_rowAt hr, rowAt]
  congr 1
  push_cast
  linarith

theorem columnAt_succ (h : Fits Xstart Ystart font) {c : ℕ} (hc : c ≤ columns Xstart font) :
    columnAt Xstart font (c + 1) = uword ((columnAt Xstart font c).toNat + font.Width.toNat) := by
  rw [h.toNat_columnAt hc, columnAt]
  congr 1
  push_cast
  linarith

theorem before_zero (h : Fits Xstart Ystart font) :
    Before Xstart Ystart font 0 Xstart Ystart := by
  refine ⟨0, 0, h.columnAt_zero.symm, h.rowAt_zero.symm, Nat.zero_le _, h.rows_pos, ?_⟩
  rw [if_neg h.columns_pos.ne, Nat.zero_mod, Nat.zero_div, Nat.zero_mod]
  exact ⟨rfl, rfl⟩

theorem wrap_before (h : Fits Xstart Ystart font) {n : ℕ} {X Y : UInt16}
    (hbefore : Before Xstart Ystart font n X Y) :
    wrap Xstart Ystart font X Y = cell Xstart Ystart font n := by
  obtain ⟨c, r, rfl, rfl, hc, hr, hplace⟩ := hbefore
  unfold wrap cell
  by_cases hend : c = columns Xstart font
  · rw [if_pos hend] at hplace
    rw [if_pos ((h.past_right_iff hc).mpr hend), hplace.1, hplace.2, ← h.rowAt_succ hr.le,
      h.columnAt_zero]
    dsimp only
    by_cases hfull : r + 1 = rows Ystart font
    · rw [if_pos ((h.past_top_iff hr).mpr hfull), hfull, Nat.mod_self, h.rowAt_zero]
    · rw [if_neg (mt (h.past_top_iff hr).mp hfull), Nat.mod_eq_of_lt (by omega)]
  · rw [if_neg hend] at hplace
    rw [if_neg (mt (h.past_right_iff hc).mp hend), hplace.1, hplace.2]
    dsimp only
    rw [if_neg (mt (h.past_top_iff hr.le).mp hr.ne)]

theorem before_succ (h : Fits Xstart Ystart font) (n : ℕ) :
    Before Xstart Ystart font (n + 1)
      (uword ((cell Xstart Ystart font n).1.toNat + font.Width.toNat))
      (cell Xstart Ystart font n).2 := by
  have hcolumn := Nat.mod_lt n h.columns_pos
  have hrow := Nat.mod_lt (n / columns Xstart font) h.rows_pos
  have hsplit := Nat.div_add_mod n (columns Xstart font)
  refine ⟨n % columns Xstart font + 1, _, ?_, rfl, hcolumn, hrow, ?_⟩
  · exact (h.columnAt_succ hcolumn.le).symm
  · split_ifs with hend
    · have hnext : n + 1 = columns Xstart font * (n / columns Xstart font + 1) := by
        rw [mul_add_one]
        omega
      rw [hnext, Nat.mul_mod_right, Nat.mul_div_cancel_left _ h.columns_pos, Nat.mod_add_mod]
      exact ⟨rfl, rfl⟩
    · have hnext : n + 1 =
          columns Xstart font * (n / columns Xstart font) + (n % columns Xstart font + 1) := by
        omega
      have hlt : n % columns Xstart font + 1 < columns Xstart font := lt_of_le_of_ne hcolumn hend
      constructor
      · conv_lhs => rw [hnext]
        rw [Nat.mul_add_mod, Nat.mod_eq_of_lt hlt]
      · conv_lhs => rw [hnext]
        rw [Nat.mul_add_div h.columns_pos, Nat.div_eq_of_lt hlt, add_zero]

theorem drawString_eq (h : Fits Xstart Ystart font) (Foreground Background : UInt16)
    (pString : List UInt8) {n : ℕ} {X Y : UInt16} (hbefore : Before Xstart Ystart font n X Y) :
    drawString Xstart Ystart font Foreground Background pString X Y =
      (pString.zipIdx n).flatMap fun (c, k) =>
        paintDrawChar (cell Xstart Ystart font k).1 (cell Xstart Ystart font k).2 c font
          Background Foreground := by
  induction pString generalizing n X Y with
  | nil => rfl
  | cons c pString ih =>
    unfold drawString
    rw [h.wrap_before hbefore]
    dsimp only
    rw [ih (h.before_succ n)]
    rfl

theorem onPanel_cell (h : Fits Xstart Ystart font) (n : ℕ) (c : UInt8)
    (Foreground Background : UInt16) :
    OnPanel (paintDrawChar (cell Xstart Ystart font n).1 (cell Xstart Ystart font n).2 c font
      Foreground Background) := by
  have hcolumn := Nat.mod_lt n h.columns_pos
  have hrow := Nat.mod_lt (n / columns Xstart font) h.rows_pos
  have hroom := mt (h.past_right_iff hcolumn.le).mp hcolumn.ne
  have hroom' := mt (h.past_top_iff hrow.le).mp hrow.ne
  rw [not_lt, ledWidth] at hroom
  rw [not_lt, ledHeight] at hroom'
  refine (within_char c Foreground Background ?_ ?_).mono ?_ ?_ ?_ ?_ <;>
    (unfold cell; dsimp only; omega)

end Fits

/-- The characters of a string go to the cells of its grid in order, from the first cell again when
the panel is full, and none of them leaves the panel. -/
theorem paintDrawString_EN_layout (h : Fits Xstart Ystart font) (pString : List UInt8)
    (Foreground Background : UInt16) :
    paintDrawString_EN Xstart Ystart pString font Foreground Background =
        pString.zipIdx.flatMap (fun (c, n) =>
          paintDrawChar (cell Xstart Ystart font n).1 (cell Xstart Ystart font n).2 c font
            Background Foreground) ∧
      ∀ i ∈ cells (paintDrawString_EN Xstart Ystart pString font Foreground Background),
        InBuffer i := by
  have hon : ¬(ledWidth < Xstart.toNat ∨ ledHeight < Ystart.toNat) := by
    have hright := h.right
    have htop := h.top
    unfold ledWidth ledHeight
    omega
  have hlayout := h.drawString_eq Foreground Background pString h.before_zero
  rw [paintDrawString_EN, if_neg hon, hlayout]
  refine ⟨rfl, OnPanel.inBuffer (within_flatMap ?_)⟩
  rintro ⟨c, n⟩ -
  exact h.onPanel_cell n c Background Foreground

/-- In two rows of two cells the third character starts the next row, and the fifth takes the place
of the first. -/
theorem paintDrawString_EN_wraps :
    let font : SFont := ⟨fun _ => 0xFF, 5, 8⟩
    paintDrawString_EN 115 12 [67, 79, 50, 33, 63] font black yellow =
        [(67, 115, 12), (79, 120, 12), (50, 115, 20), (33, 120, 20), (63, 115, 12)].flatMap
          (fun (c, X, Y) => paintDrawChar X Y c font yellow black) ∧
      ∀ i ∈ cells (paintDrawString_EN 115 12 [67, 79, 50, 33, 63] font black yellow),
        InBuffer i := by
  intro font
  obtain ⟨hlayout, hbuffer⟩ := @paintDrawString_EN_layout 115 12 font
    ⟨by decide, by decide, by decide, by decide⟩ [67, 79, 50, 33, 63] black yellow
  have hcells : (List.range 5).map (cell 115 12 font) =
      [(115, 12), (120, 12), (115, 20), (120, 20), (115, 12)] := by decide
  simp only [List.range_succ, List.range_zero, List.nil_append, List.cons_append, List.map_cons,
    List.map_nil, List.cons.injEq, and_true] at hcells
  obtain ⟨h0, h1, h2, h3, h4⟩ := hcells
  refine ⟨hlayout.trans ?_, hbuffer⟩
  simp only [List.zipIdx_cons, List.zipIdx_nil, List.flatMap_cons, List.flatMap_nil, h0, h1, h2, h3,
    h4]

end JeogiAt.Paint
