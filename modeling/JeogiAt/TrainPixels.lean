import JeogiAt.ScreenPixels

/-!
# One picture of a train over another one

The two lines of the train screen are filled before their texts are drawn, and the lower text swings
by at most six pixels, so that it stays where the next one fills. The upper text has one more row
than what is filled for it: in row 16 something of an earlier destination may stay.
-/

namespace JeogiAt.Paint

open Stores

/-- A pixel of the row below the filled part of the upper line. -/
def InGap (i : ℤ) : Prop := ∃ x, 1 ≤ x ∧ x ≤ 64 ∧ i = pixel x 16

def Swings (x_offset : Int8) : Prop := -6 ≤ x_offset.toInt ∧ x_offset.toInt ≤ 6

/-- The width of a text and of the gaps between its characters, and where the text then starts. -/
theorem textWidth_bottom (T : FontTables) : (textWidthWithGap bottomText T.font8 2).toNat = 47 :=
  rfl

theorem toNat_bottom_x {x_offset : Int8} (h : Swings x_offset) :
    ((uword (clampInt ((64 - (47 : ℕ) : ℤ).tdiv 2 + x_offset.toInt) 1 63)).toNat : ℤ) =
      8 + x_offset.toInt := by
  have hcenter : (64 - (47 : ℕ) : ℤ).tdiv 2 = 8 := rfl
  obtain ⟨hlow, hhigh⟩ := h
  rw [hcenter, toNat_uword]
  · unfold clampInt
    split_ifs <;> omega
  · unfold clampInt
    split_ifs <;> omega
  · unfold clampInt
    split_ifs <;> omega

theorem within_bottomText (T : FontTables) {x_offset : Int8} (h : Swings x_offset) :
    Within 1 64 17 31 (drawTextWithGap
      (uword (clampInt ((64 - (textWidthWithGap bottomText T.font8 2).toNat : ℤ).tdiv 2 +
        x_offset.toInt) 1 63)) 18 bottomText T.font8 black yellow 2) := by
  have hx := toNat_bottom_x h
  obtain ⟨hlow, hhigh⟩ := h
  have hlength : (bottomText.length : ℤ) = 7 := rfl
  have hwidth : (T.font8.Width.toNat : ℤ) = 5 := rfl
  have hgap : ((2 : UInt8).toNat : ℤ) = 2 := rfl
  have hheight : ((18 : UInt16).toNat : ℤ) + T.font8.Height.toNat = 26 := rfl
  have hstart : (17 : ℤ) ≤ (18 : UInt16).toNat + 1 := by decide
  rw [textWidth_bottom]
  refine within_text black yellow (by omega) ?_ hstart (by omega) (by omega)
  rw [hx, hlength, hwidth, hgap]
  omega

theorem toNat_top_x (T : FontTables) (train_dest_code : UInt8) :
    1 ≤ (topText train_dest_code).length ∧
      (uword (clampInt ((64 - (textWidthWithGap (topText train_dest_code) T.font12 2).toNat :
          ℤ).tdiv 2) 1 63)).toNat + (topText train_dest_code).length * (7 + 2) ≤ 64 + 2 := by
  have hbounds (text : List UInt8) (hlength : text.length = 6 ∨ text.length = 7) :
      1 ≤ text.length ∧ (uword (clampInt ((64 - (textWidthWithGap text T.font12 2).toNat :
        ℤ).tdiv 2) 1 63)).toNat + text.length * (7 + 2) ≤ 64 + 2 := by
    rcases hlength with hlength | hlength
    · have hwidth : (textWidthWithGap text T.font12 2).toNat = 52 := by
        rw [textWidthWithGap, hlength]
        rfl
      rw [hwidth, hlength]
      decide
    · have hwidth : (textWidthWithGap text T.font12 2).toNat = 61 := by
        rw [textWidthWithGap, hlength]
        rfl
      rw [hwidth, hlength]
      decide
  unfold topText
  split_ifs
  · exact hbounds _ (.inl rfl)
  · exact hbounds _ (.inr rfl)
  · exact hbounds _ (.inl rfl)

theorem within_topText (T : FontTables) (train_dest_code : UInt8) :
    Within 1 64 5 16 (drawTextWithGap
      (uword (clampInt ((64 - (textWidthWithGap (topText train_dest_code) T.font12 2).toNat :
        ℤ).tdiv 2) 1 63)) 4 (topText train_dest_code) T.font12 black white 2) := by
  have hwidth : (T.font12.Width.toNat : ℤ) = 7 := rfl
  have hgap : ((2 : UInt8).toNat : ℤ) = 2 := rfl
  have hstart : (5 : ℤ) ≤ (4 : UInt16).toNat + 1 := by decide
  have hheight : ((4 : UInt16).toNat : ℤ) + T.font12.Height.toNat = 16 := rfl
  obtain ⟨hlength, hend⟩ := toNat_top_x T train_dest_code
  refine within_text black white (by omega) ?_ hstart hheight.le (by omega)
  rw [hwidth, hgap]
  exact_mod_cast hend

/-- What an earlier upper line has drawn is drawn again, but for the row below. -/
theorem cells_drawTop (T : FontTables) (code code' : UInt8) :
    ∀ i ∈ cells (drawTop T code), InGap i ∨ i ∈ cells (drawTop T code') := by
  intro i hi
  unfold drawTop at hi ⊢
  dsimp only at hi ⊢
  rw [cells_append, List.mem_append] at hi
  rcases hi with hfill | htext
  · exact .inr (by rw [cells_append]; exact List.mem_append_left _ hfill)
  · obtain ⟨x, y, rfl, hx, hx', hy, hy'⟩ := within_topText T code i htext
    by_cases hrow : y = 16
    · exact .inl ⟨x, hx, hx', by rw [hrow]⟩
    · right
      rw [cells_append, List.mem_append]
      obtain ⟨n, rfl⟩ := Int.eq_ofNat_of_zero_le (show 0 ≤ x by omega)
      obtain ⟨k, rfl⟩ := Int.eq_ofNat_of_zero_le (show 0 ≤ y by omega)
      exact .inl (mem_cells_filled ⟨(by omega : 1 ≤ n), (by omega : n ≤ 64)⟩
        ⟨(by omega : 1 ≤ k), (by omega : k < 16)⟩ (by decide) (by decide))

theorem cells_drawBottom_subset (T : FontTables) {x_offset : Int8} (h : Swings x_offset)
    (x_offset' : Int8) :
    ∀ i ∈ cells (drawBottom T x_offset), i ∈ cells (drawBottom T x_offset') := by
  intro i hi
  unfold drawBottom at hi ⊢
  dsimp only at hi ⊢
  simp only [cells_append, List.mem_append] at hi ⊢
  rcases hi with (hfill | htext) | hframe
  · exact .inl (.inl hfill)
  · obtain ⟨x, y, rfl, hx, hx', hy, hy'⟩ := within_bottomText T h i htext
    obtain ⟨n, rfl⟩ := Int.eq_ofNat_of_zero_le (show 0 ≤ x by omega)
    obtain ⟨k, rfl⟩ := Int.eq_ofNat_of_zero_le (show 0 ≤ y by omega)
    exact .inl (.inl (mem_cells_filled ⟨(by omega : 1 ≤ n), (by omega : n ≤ 64)⟩
      ⟨(by omega : 17 ≤ k), (by omega : k < 32)⟩ (by decide) (by decide)))
  · exact .inr hframe

/-- The buffer is as after the drawing on the blank panel `m`, but for the row below the upper
line. -/
def ShowsBut (m : ℤ → UInt8) (d : Drawing) (Image : ℤ → UInt8) : Prop :=
  ∃ m', (∀ i, ¬ InGap i → m' i = m i) ∧ Image = write m' d

theorem showsBut_write (m : ℤ → UInt8) (d : Drawing) : ShowsBut m d (write m d) :=
  ⟨m, fun _ _ => rfl, rfl⟩

/-- A drawing over another one, whose cells it covers but for the row below the upper line. -/
theorem ShowsBut.redraw {m Image : ℤ → UInt8} {d d' : Drawing} (h : ShowsBut m d Image)
    (hcover : ∀ i ∈ cells d, InGap i ∨ i ∈ cells d') : ShowsBut m d' (write Image d') := by
  classical
  obtain ⟨m', hm', rfl⟩ := h
  refine ⟨fun i => if InGap i then write m' d i else m i, fun i hi => if_neg hi, ?_⟩
  funext i
  refine write_congr fun hi => ?_
  by_cases hgap : InGap i
  · rw [if_pos hgap]
  · rw [if_neg hgap, write_of_notMem fun hold => (hcover i hold).elim hgap hi, hm' i hgap]

theorem cells_train (T : FontTables) (code code' : UInt8) {x_offset : Int8} (h : Swings x_offset)
    (x_offset' : Int8) :
    ∀ i ∈ cells (drawTop T code ++ drawBottom T x_offset),
      InGap i ∨ i ∈ cells (drawTop T code' ++ drawBottom T x_offset') := by
  intro i hi
  rw [cells_append, List.mem_append] at hi ⊢
  rcases hi with htop | hbottom
  · exact (cells_drawTop T code code' i htop).imp_right .inl
  · exact .inr (.inr (cells_drawBottom_subset T h x_offset' i hbottom))

theorem ShowsBut.redrawBottom {T : FontTables} {m Image : ℤ → UInt8} {code : UInt8}
    {x_offset : Int8} (h : ShowsBut m (drawTop T code ++ drawBottom T x_offset) Image)
    (hswings : Swings x_offset) (x_offset' : Int8) :
    ShowsBut m (drawTop T code ++ drawBottom T x_offset')
      (write Image (drawBottom T x_offset')) := by
  obtain ⟨m', hm', himage⟩ := h
  refine ⟨m', hm', ?_⟩
  have hlines (x : Int8) : write m' (drawTop T code ++ drawBottom T x) =
      write (write m' (drawTop T code)) (drawBottom T x) := write_append
  rw [himage, hlines, hlines]
  exact write_write (cells_drawBottom_subset T hswings x_offset')

end JeogiAt.Paint
