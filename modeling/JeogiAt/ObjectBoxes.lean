import JeogiAt.MetadataParser

/-!
# The boxes of detected objects

`setBox` treats the two directions alike: a span is put in order, its beginning is clamped into the
picture, its length is trimmed at the edge, and at last a length near zero is replaced by a minimum.
Nothing is trimmed after that. So a span that begins within the minimum of the edge may end outside.
-/

namespace JeogiAt.Server

/-- One direction of `setBox`: where the box begins, and its length. -/
def span (a b : ℚ) : ℚ × ℚ :=
  let x := if a < b then a else b
  let x := if x < 0 then 0 else x
  let x := if 1 < x then 1 else x
  let w := if 1 < x + |b - a| then 1 - x else |b - a|
  (x, if w < 0.001 then 0.02 else w)

theorem setBox_eq (e : Edges) (objItem : DetectedObject) :
    objItem.setBox e =
      { objItem with
        x := (span (e.left / 3840) (e.right / 3840)).1
        y := (span (e.top / 2160) (e.bottom / 2160)).1
        w := (span (e.left / 3840) (e.right / 3840)).2
        h := (span (e.top / 2160) (e.bottom / 2160)).2 } := by
  simp only [DetectedObject.setBox, span]

theorem span_fst (a b : ℚ) : (span a b).1 = min (max (min a b) 0) 1 := by
  have hmin : (if a < b then a else b) = min a b := by
    split_ifs with h
    · exact (min_eq_left h.le).symm
    · exact (min_eq_right (not_lt.mp h)).symm
  have hmax (x : ℚ) : (if x < 0 then 0 else x) = max x 0 := by
    split_ifs with h
    · exact (max_eq_right h.le).symm
    · exact (max_eq_left (not_lt.mp h)).symm
  have hclamp (x : ℚ) : (if 1 < x then 1 else x) = min x 1 := by
    split_ifs with h
    · exact (min_eq_right h.le).symm
    · exact (min_eq_left (not_lt.mp h)).symm
  rw [span]
  dsimp only
  rw [hmin, hmax, hclamp]

theorem span_fst_mem (a b : ℚ) : 0 ≤ (span a b).1 ∧ (span a b).1 ≤ 1 := by
  rw [span_fst]
  exact ⟨le_min (le_max_right _ _) zero_le_one, min_le_right _ _⟩

theorem span_snd (a b : ℚ) :
    (span a b).2 =
      if min |b - a| (1 - (span a b).1) < 0.001 then 0.02 else min |b - a| (1 - (span a b).1) := by
  have htrim (x w : ℚ) : (if 1 < x + w then 1 - x else w) = min w (1 - x) := by
    split_ifs with h
    · exact (min_eq_right (by linarith)).symm
    · exact (min_eq_left (by linarith)).symm
  rw [← htrim]
  rfl

theorem span_snd_pos (a b : ℚ) : 0 < (span a b).2 := by
  rw [span_snd]
  split_ifs with h
  · norm_num
  · exact lt_of_lt_of_le (by norm_num) (not_lt.mp h)

/-- A span, as parts of the picture, that begins far enough from the edge for the minimum, or is
itself long enough. -/
def Fits (a b : ℚ) : Prop := min a b ≤ 0.98 ∨ 0.001 ≤ |b - a| ∧ min a b ≤ 0.999

theorem span_fst_le_iff (a b : ℚ) {c : ℚ} (h0 : 0 ≤ c) (h1 : c < 1) :
    (span a b).1 ≤ c ↔ min a b ≤ c := by
  rw [span_fst, min_le_iff, max_le_iff]
  constructor
  · rintro (⟨hle, -⟩ | hle)
    · exact hle
    · exact absurd hle (not_le.mpr h1)
  · exact fun hle => .inl ⟨hle, h0⟩

/-- A span ends in the picture exactly when the minimum does not take it out. -/
theorem span_fits_iff (a b : ℚ) : (span a b).1 + (span a b).2 ≤ 1 ↔ Fits a b := by
  have hfar := span_fst_le_iff a b (c := 0.98) (by norm_num) (by norm_num)
  have hnear := span_fst_le_iff a b (c := 0.999) (by norm_num) (by norm_num)
  rw [Fits, ← hfar, ← hnear, span_snd]
  generalize (span a b).1 = x
  have hsmall : min |b - a| (1 - x) < 0.001 ↔ ¬ (0.001 ≤ |b - a| ∧ x ≤ 0.999) := by
    rw [min_lt_iff, not_and_or, not_le, not_le]
    exact or_congr_right ⟨fun h => by linarith, fun h => by linarith⟩
  split_ifs with h
  · rw [or_iff_left (hsmall.mp h)]
    constructor <;> intro hle <;> linarith
  · have hle := min_le_right |b - a| (1 - x)
    exact iff_of_true (by linarith) (.inr (not_not.mp (mt hsmall.mpr h)))

structure DetectedObject.InPicture (obj : DetectedObject) : Prop where
  x_nonneg : 0 ≤ obj.x
  y_nonneg : 0 ≤ obj.y
  w_pos : 0 < obj.w
  h_pos : 0 < obj.h
  right_le : obj.x + obj.w ≤ 1
  bottom_le : obj.y + obj.h ≤ 1

/-- The box made of four edges is inside the picture exactly when both of its spans fit. -/
theorem box_inside_iff (e : Edges) (objItem : DetectedObject) :
    (objItem.setBox e).InPicture ↔
      Fits (e.left / 3840) (e.right / 3840) ∧ Fits (e.top / 2160) (e.bottom / 2160) := by
  rw [setBox_eq, ← span_fits_iff, ← span_fits_iff]
  constructor
  · intro h
    exact ⟨h.right_le, h.bottom_le⟩
  · rintro ⟨hright, hbottom⟩
    exact ⟨(span_fst_mem _ _).1, (span_fst_mem _ _).1, span_snd_pos _ _, span_snd_pos _ _, hright,
      hbottom⟩

/-- A box beyond the right edge: it is put on the edge and given a width. -/
theorem box_on_edge :
    ¬ ∀ (e : Edges) (objItem : DetectedObject), (objItem.setBox e).InPicture := by
  intro hall
  have h := ((box_inside_iff _ _).mp (hall ⟨3840, 0, 3840, 1080⟩ (.point 0 0))).1
  norm_num [Fits] at h

end JeogiAt.Server
