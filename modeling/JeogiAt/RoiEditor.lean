import JeogiAt.Library.Machine
import JeogiAt.Library.Spans
import Mathlib.Data.Fintype.Basic
import Mathlib.Data.Rat.Defs
import Mathlib.Tactic.FinCases
import Mathlib.Tactic.NormNum

/-!
# The ROI editor

A handle of `RoiEditorDialog.qml` moves two edges of the selected zone's roi: they go to the handle,
within the picture, and are then put back where less than 5% is left of the roi. Coordinates are
exact.

Along each axis this is a move of one end of a span (`xs_dragCorner`, `ys_dragCorner`), so valid
rois stay valid.
-/

namespace JeogiAt.Client

structure Roi where
  x1 : ℚ
  y1 : ℚ
  x2 : ℚ
  y2 : ℚ

structure RoiZone where
  camera_id : String
  zone_id : ℤ
  roi : Roi

structure RoiEditor where
  cameraIndex : ℕ
  cameraStringId : String
  workingZones : List RoiZone
  selectedZoneIdx : ℕ

structure RoiOverlay where
  width : ℚ
  height : ℚ
  width_pos : 0 < width
  height_pos : 0 < height

/-- Corner 0 is top left, 1 top right, 2 bottom right and 3 bottom left. -/
def placeCorner (corner : Fin 4) (nx ny : ℚ) (roi : Roi) : Roi :=
  if corner = 0 then { roi with x1 := nx, y1 := ny }
  else if corner = 1 then { roi with x2 := nx, y1 := ny }
  else if corner = 2 then { roi with x2 := nx, y2 := ny }
  else { roi with x1 := nx, y2 := ny }

def keepWidth (corner : Fin 4) (roi : Roi) : Roi :=
  if roi.x2 - roi.x1 < 0.05 then
    if corner = 0 ∨ corner = 3 then { roi with x1 := roi.x2 - 0.05 }
    else { roi with x2 := roi.x1 + 0.05 }
  else roi

def keepHeight (corner : Fin 4) (roi : Roi) : Roi :=
  if roi.y2 - roi.y1 < 0.05 then
    if corner = 0 ∨ corner = 1 then { roi with y1 := roi.y2 - 0.05 }
    else { roi with y2 := roi.y1 + 0.05 }
  else roi

/-- The handler's work on a roi. -/
def dragCorner (corner : Fin 4) (nx ny : ℚ) (roi : Roi) : Roi :=
  keepHeight corner (keepWidth corner (placeCorner corner nx ny roi))

namespace RoiEditor

def openForCamera (camIdx : ℕ) (camStringId : String) (zones : List RoiZone) : RoiEditor where
  cameraIndex := camIdx
  cameraStringId := camStringId
  workingZones := zones
  selectedZoneIdx := 0

/-- `onPositionChanged` of the handle at `corner`, which is at `x` and `y` -/
def onPositionChanged (s : RoiEditor) (corner : Fin 4) (active : Bool) (x y : ℚ)
    (roiOverlay : RoiOverlay) : RoiEditor :=
  if !active then s
  else
    let nx := max 0 (min 1 ((x + 9) / roiOverlay.width))
    let ny := max 0 (min 1 ((y + 9) / roiOverlay.height))
    match s.workingZones[s.selectedZoneIdx]? with
    | none => s
    | some z =>
        { s with
          workingZones := s.workingZones.set s.selectedZoneIdx
            { z with roi := dragCorner corner nx ny z.roi } }

end RoiEditor

inductive EditorAction
  | clicked (index : ℕ)
  | positionChanged (corner : Fin 4) (active : Bool) (x y : ℚ) (roiOverlay : RoiOverlay)

def roiEditor : Machine RoiEditor EditorAction Unit where
  step s
    | .clicked index => ({ s with selectedZoneIdx := index }, ())
    | .positionChanged corner active x y roiOverlay =>
        (s.onPositionChanged corner active x y roiOverlay, ())

namespace Roi

structure Valid (roi : Roi) : Prop where
  x1_nonneg : 0 ≤ roi.x1
  y1_nonneg : 0 ≤ roi.y1
  x2_le : roi.x2 ≤ 1
  y2_le : roi.y2 ≤ 1
  width_le : 0.05 ≤ roi.x2 - roi.x1
  height_le : 0.05 ≤ roi.y2 - roi.y1

def xs (roi : Roi) : Span ℚ := ⟨roi.x1, roi.x2⟩

def ys (roi : Roi) : Span ℚ := ⟨roi.y1, roi.y2⟩

theorem valid_iff (roi : Roi) :
    roi.Valid ↔ roi.xs.Within 0 1 0.05 ∧ roi.ys.Within 0 1 0.05 := by
  constructor
  · intro h
    exact ⟨⟨h.x1_nonneg, h.x2_le, h.width_le⟩, ⟨h.y1_nonneg, h.y2_le, h.height_le⟩⟩
  · rintro ⟨hx, hy⟩
    exact ⟨hx.bottom_le, hy.bottom_le, hx.le_top, hy.le_top, hx.size_le, hy.size_le⟩

def KeepsEdges (corner : Fin 4) (roi roi' : Roi) : Prop :=
  (if corner = 0 ∨ corner = 3 then roi'.x2 = roi.x2 else roi'.x1 = roi.x1) ∧
    if corner = 0 ∨ corner = 1 then roi'.y2 = roi.y2 else roi'.y1 = roi.y1

theorem xs_keepWidth (corner : Fin 4) (roi : Roi) :
    (keepWidth corner roi).xs =
      if corner = 0 ∨ corner = 3 then roi.xs.moveLow 0.05 roi.xs.lo
      else roi.xs.moveHigh 0.05 roi.xs.hi := by
  by_cases hshort : roi.x2 - roi.x1 < 0.05
  · have hspan : roi.xs.hi - roi.xs.lo < 0.05 := hshort
    rw [keepWidth, if_pos hshort, Span.moveLow_of_lt hspan, Span.moveHigh_of_lt hspan]
    split_ifs <;> rfl
  · have hspan : 0.05 ≤ roi.xs.hi - roi.xs.lo := not_lt.mp hshort
    rw [keepWidth, if_neg hshort, Span.moveLow_of_le hspan, Span.moveHigh_of_le hspan]
    split_ifs <;> rfl

theorem ys_keepWidth (corner : Fin 4) (roi : Roi) : (keepWidth corner roi).ys = roi.ys := by
  unfold keepWidth
  split_ifs <;> rfl

theorem ys_keepHeight (corner : Fin 4) (roi : Roi) :
    (keepHeight corner roi).ys =
      if corner = 0 ∨ corner = 1 then roi.ys.moveLow 0.05 roi.ys.lo
      else roi.ys.moveHigh 0.05 roi.ys.hi := by
  by_cases hshort : roi.y2 - roi.y1 < 0.05
  · have hspan : roi.ys.hi - roi.ys.lo < 0.05 := hshort
    rw [keepHeight, if_pos hshort, Span.moveLow_of_lt hspan, Span.moveHigh_of_lt hspan]
    split_ifs <;> rfl
  · have hspan : 0.05 ≤ roi.ys.hi - roi.ys.lo := not_lt.mp hshort
    rw [keepHeight, if_neg hshort, Span.moveLow_of_le hspan, Span.moveHigh_of_le hspan]
    split_ifs <;> rfl

theorem xs_keepHeight (corner : Fin 4) (roi : Roi) : (keepHeight corner roi).xs = roi.xs := by
  unfold keepHeight
  split_ifs <;> rfl

theorem xs_dragCorner (corner : Fin 4) (nx ny : ℚ) (roi : Roi) :
    (dragCorner corner nx ny roi).xs =
      if corner = 0 ∨ corner = 3 then roi.xs.moveLow 0.05 nx else roi.xs.moveHigh 0.05 nx := by
  rw [dragCorner, xs_keepHeight, xs_keepWidth]
  fin_cases corner <;> rfl

theorem ys_dragCorner (corner : Fin 4) (nx ny : ℚ) (roi : Roi) :
    (dragCorner corner nx ny roi).ys =
      if corner = 0 ∨ corner = 1 then roi.ys.moveLow 0.05 ny else roi.ys.moveHigh 0.05 ny := by
  rw [dragCorner, ys_keepHeight, ys_keepWidth]
  fin_cases corner <;> rfl

theorem keepsEdges_dragCorner (corner : Fin 4) (nx ny : ℚ) (roi : Roi) :
    KeepsEdges corner roi (dragCorner corner nx ny roi) := by
  have hxs := xs_dragCorner corner nx ny roi
  have hys := ys_dragCorner corner nx ny roi
  constructor
  · split_ifs with hcorner
    · rw [if_pos hcorner] at hxs
      exact congrArg Span.hi hxs
    · rw [if_neg hcorner] at hxs
      exact congrArg Span.lo hxs
  · split_ifs with hcorner
    · rw [if_pos hcorner] at hys
      exact congrArg Span.hi hys
    · rw [if_neg hcorner] at hys
      exact congrArg Span.lo hys

theorem Valid.dragCorner {roi : Roi} (h : roi.Valid) (corner : Fin 4) {nx ny : ℚ}
    (hnx : 0 ≤ nx ∧ nx ≤ 1) (hny : 0 ≤ ny ∧ ny ≤ 1) :
    (Client.dragCorner corner nx ny roi).Valid := by
  obtain ⟨hxs, hys⟩ := (valid_iff roi).mp h
  rw [valid_iff, xs_dragCorner, ys_dragCorner]
  constructor
  · split_ifs
    · exact hxs.moveLow hnx.1
    · exact hxs.moveHigh hnx.2
  · split_ifs
    · exact hys.moveLow hny.1
    · exact hys.moveHigh hny.2

end Roi

/-- A drag at `corner` leaves the zones that are not selected, and of the selected one all but the
two edges at the corner. -/
structure DragsCorner (corner : Fin 4) (s s' : RoiEditor) : Prop where
  length_eq : s'.workingZones.length = s.workingZones.length
  selected : s'.selectedZoneIdx = s.selectedZoneIdx
  others : ∀ i, i ≠ s.selectedZoneIdx → s'.workingZones[i]? = s.workingZones[i]?
  edges : ∀ z, s.workingZones[s.selectedZoneIdx]? = some z → ∃ roi,
    s'.workingZones[s.selectedZoneIdx]? = some { z with roi := roi } ∧
      Roi.KeepsEdges corner z.roi roi

namespace RoiEditor

def AllValid (s : RoiEditor) : Prop := ∀ z ∈ s.workingZones, z.roi.Valid

theorem clamp_bounds (v : ℚ) : 0 ≤ max 0 (min 1 v) ∧ max 0 (min 1 v) ≤ 1 :=
  ⟨le_max_left _ _, max_le zero_le_one (min_le_left _ _)⟩

theorem onPositionChanged_cases (s : RoiEditor) (corner : Fin 4) (active : Bool) (x y : ℚ)
    (roiOverlay : RoiOverlay) :
    s.onPositionChanged corner active x y roiOverlay = s ∨
      ∃ z nx ny, s.workingZones[s.selectedZoneIdx]? = some z ∧
        (0 ≤ nx ∧ nx ≤ 1) ∧ (0 ≤ ny ∧ ny ≤ 1) ∧
        s.onPositionChanged corner active x y roiOverlay =
          { s with
            workingZones := s.workingZones.set s.selectedZoneIdx
              { z with roi := dragCorner corner nx ny z.roi } } := by
  unfold onPositionChanged
  split_ifs
  · exact .inl rfl
  · dsimp only
    split
    next => exact .inl rfl
    next z hz => exact .inr ⟨z, _, _, hz, clamp_bounds _, clamp_bounds _, rfl⟩

theorem allValid_onPositionChanged {s : RoiEditor} (h : s.AllValid) (corner : Fin 4)
    (active : Bool) (x y : ℚ) (roiOverlay : RoiOverlay) :
    (s.onPositionChanged corner active x y roiOverlay).AllValid := by
  rcases onPositionChanged_cases s corner active x y roiOverlay with
    heq | ⟨z, nx, ny, hz, hnx, hny, heq⟩
  · rwa [heq]
  · rw [heq]
    intro z' hz'
    rcases List.mem_or_eq_of_mem_set hz' with hold | rfl
    · exact h z' hold
    · exact (h z (List.mem_of_getElem? hz)).dragCorner corner hnx hny

theorem dragsCorner_onPositionChanged (s : RoiEditor) (corner : Fin 4) (active : Bool) (x y : ℚ)
    (roiOverlay : RoiOverlay) :
    DragsCorner corner s (s.onPositionChanged corner active x y roiOverlay) := by
  rcases onPositionChanged_cases s corner active x y roiOverlay with
    heq | ⟨z, nx, ny, hz, -, -, heq⟩
  · rw [heq]
    refine ⟨rfl, rfl, fun _ _ => rfl, fun z hz => ⟨z.roi, hz, ?_⟩⟩
    unfold Roi.KeepsEdges
    split_ifs <;> exact ⟨rfl, rfl⟩
  · rw [heq]
    refine ⟨List.length_set .., rfl, fun i hi => List.getElem?_set_ne hi.symm, ?_⟩
    intro z' hz'
    obtain rfl : z = z' := Option.some.inj (hz.symm.trans hz')
    exact ⟨_, List.getElem?_set_self (List.getElem?_eq_some_iff.mp hz).1,
      Roi.keepsEdges_dragCorner corner nx ny z.roi⟩

theorem allValid_run {s : RoiEditor} (h : s.AllValid) (actions : List EditorAction) :
    (roiEditor.run s actions).AllValid := by
  apply Machine.invariant_run _ h
  intro s action hs
  cases action with
  | clicked index => exact hs
  | positionChanged corner active x y roiOverlay =>
    exact allValid_onPositionChanged hs corner active x y roiOverlay

end RoiEditor

/-- Through all selections and drags the rois stay valid, and a drag moves two edges only. -/
theorem rois_stay_valid {s : RoiEditor} (h : ∀ z ∈ s.workingZones, z.roi.Valid)
    (actions : List EditorAction) :
    (∀ z ∈ (roiEditor.run s actions).workingZones, z.roi.Valid) ∧
    ∀ corner active x y roiOverlay,
      DragsCorner corner (roiEditor.run s actions)
        (roiEditor.next (roiEditor.run s actions)
          (.positionChanged corner active x y roiOverlay)) :=
  ⟨RoiEditor.allValid_run h actions, fun corner active x y roiOverlay =>
    RoiEditor.dragsCorner_onPositionChanged _ corner active x y roiOverlay⟩

/-- The top left corner of the whole picture, dragged on its bottom right one. -/
theorem rois_stay_valid_whole :
    let s := RoiEditor.openForCamera 0 "CAM_01" [⟨"CAM_01", 1, ⟨0, 0, 1, 1⟩⟩]
    let drag := EditorAction.positionChanged 0 true (-7) (-7) ⟨2, 2, zero_lt_two, zero_lt_two⟩
    (∀ z ∈ (roiEditor.run s [drag]).workingZones, z.roi.Valid) ∧
      DragsCorner 0 s (roiEditor.next s drag) := by
  intro s drag
  have hvalid : ∀ z ∈ s.workingZones, z.roi.Valid := by
    intro z hz
    rw [List.mem_singleton.mp hz]
    constructor <;> norm_num
  exact ⟨(rois_stay_valid hvalid [drag]).1, (rois_stay_valid hvalid []).2 0 true _ _ _⟩

end JeogiAt.Client
