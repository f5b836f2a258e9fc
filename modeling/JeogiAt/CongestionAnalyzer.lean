import JeogiAt.Library.Counting
import Mathlib.Data.Rat.Defs
import Mathlib.Algebra.Order.Ring.Rat
import Mathlib.Tactic.NormNum
import Mathlib.Tactic.Linarith

/-!
# Zones, and the objects counted in them

`CongestionAnalyzer` of the server counts, for each of eight slots, the detected objects whose
centre lies in a zone of the camera that saw them. Coordinates are exact rationals here, and
`std::vector<int>(8)` is a function on `Fin 8`.

With the zones of `init_default_rois` each view is cut into adjacent closed strips, and an object
is counted once more for every inner edge that its centre lies on.
-/

namespace JeogiAt.Server

open Counting

structure DetectedObject where
  x : ℚ
  y : ℚ
  w : ℚ
  h : ℚ
  typeName : String
  objectId : ℤ
  deriving DecidableEq

namespace DetectedObject

def centerX (obj : DetectedObject) : ℚ := obj.x + obj.w / 2

def centerY (obj : DetectedObject) : ℚ := obj.y + obj.h / 2

def point (x y : ℚ) : DetectedObject := ⟨x, y, 0, 0, "Human", 0⟩

@[simp] theorem centerX_point (x y : ℚ) : (point x y).centerX = x := by
  rw [centerX, point, zero_div, add_zero]

@[simp] theorem centerY_point (x y : ℚ) : (point x y).centerY = y := by
  rw [centerY, point, zero_div, add_zero]

end DetectedObject

/-- The shared lists of objects: the Hanwha camera's, and those of the Pi nodes in the order of
the map. -/
structure CameraObjects where
  g_hw_objects : List DetectedObject
  g_pi_node_map : List (String × List DetectedObject)

namespace CameraObjects

/-- Every object with the id that the zones' `camera_id` is compared with. -/
def tagged (cams : CameraObjects) : List (String × DetectedObject) :=
  cams.g_hw_objects.map ("hanwha", ·) ++
    cams.g_pi_node_map.flatMap fun node => node.2.map (node.1, ·)

def objectsOf (cams : CameraObjects) (cam : String) : List DetectedObject :=
  (cams.tagged.filter (·.1 = cam)).map Prod.snd

end CameraObjects

structure ZoneConfig where
  zone_id : Int32
  camera_id : String
  x1 : ℚ
  y1 : ℚ
  x2 : ℚ
  y2 : ℚ
  deriving DecidableEq

def isInside (obj : DetectedObject) (zone : ZoneConfig) : Bool :=
  zone.x1 ≤ obj.centerX ∧ obj.centerX ≤ zone.x2 ∧ zone.y1 ≤ obj.centerY ∧ obj.centerY ≤ zone.y2

namespace ZoneConfig

/-- The index `zone_id - 1`, for the ids that have one. -/
def slot (zone : ZoneConfig) : Option (Fin 8) :=
  if h : 1 ≤ zone.zone_id.toInt ∧ zone.zone_id.toInt ≤ 8 then
    some ⟨(zone.zone_id.toInt - 1).toNat, by omega⟩
  else none

def Counts (zone : ZoneConfig) (seen : String × DetectedObject) : Bool :=
  zone.camera_id = seen.1 ∧ isInside seen.2 zone

end ZoneConfig

/-- The body of the innermost loops of `run`. -/
def countZone (id : String) (obj : DetectedObject) (temp_counts : Fin 8 → ℕ) (zone : ZoneConfig) :
    Fin 8 → ℕ :=
  if zone.camera_id = id ∧ isInside obj zone then
    match zone.slot with
    | some i => Function.update temp_counts i (temp_counts i + 1)
    | none => temp_counts
  else temp_counts

def tempCounts (current_zones : List ZoneConfig) (cams : CameraObjects) : Fin 8 → ℕ :=
  let temp_counts := cams.g_hw_objects.foldl
    (fun counts obj => current_zones.foldl (countZone "hanwha" obj) counts) fun _ => 0
  cams.g_pi_node_map.foldl (fun counts node =>
    node.2.foldl (fun counts obj => current_zones.foldl (countZone node.1 obj) counts) counts)
    temp_counts

def calculateLevel (count : ℕ) : ℕ :=
  if count < 1 then 0
  else if count < 2 then 1
  else 2

def getCameraIds (m_zones : List ZoneConfig) : Fin 8 → String :=
  m_zones.foldl (fun ids z => match z.slot with
    | some i => Function.update ids i z.camera_id
    | none => ids) fun _ => ""

theorem countZone_apply (id : String) (obj : DetectedObject) (i : Fin 8) (counts : Fin 8 → ℕ)
    (zone : ZoneConfig) : countZone id obj counts zone i =
      counts i + if zone.slot = some i ∧ zone.Counts (id, obj) then 1 else 0 := by
  rw [countZone, ZoneConfig.Counts]
  by_cases hin : zone.camera_id = id ∧ isInside obj zone
  · rw [if_pos hin]
    cases hslot : zone.slot with
    | none => simp
    | some j =>
      by_cases hij : i = j
      · simp [hij, hin]
      · simp [hij, Ne.symm hij]
  · simp [hin]

/-- What an object of the loops adds to the entry `i`. -/
def added (zones : List ZoneConfig) (i : Fin 8) (seen : String × DetectedObject) : ℕ :=
  zones.countP fun zone => zone.slot = some i ∧ zone.Counts seen

theorem foldl_countZone (zones : List ZoneConfig) (id : String) (i : Fin 8)
    (counts : Fin 8 → ℕ) (obj : DetectedObject) :
    zones.foldl (countZone id obj) counts i = counts i + added zones i (id, obj) :=
  foldl_apply_countP (fun y zone => by simp [countZone_apply]) zones counts

/-- Each count is a sum over the objects that the loops go through. -/
theorem tempCounts_apply (zones : List ZoneConfig) (cams : CameraObjects) (i : Fin 8) :
    tempCounts zones cams i = (cams.tagged.map (added zones i)).sum := by
  have hnode (counts : Fin 8 → ℕ) (node : String × List DetectedObject) :
      node.2.foldl (fun counts obj => zones.foldl (countZone node.1 obj) counts) counts i =
        counts i + (node.2.map fun obj => added zones i (node.1, obj)).sum :=
    foldl_apply (foldl_countZone zones node.1 i) node.2 counts
  rw [tempCounts, foldl_apply hnode, foldl_apply (foldl_countZone zones "hanwha" i), Nat.zero_add,
    CameraObjects.tagged, List.map_append, List.sum_append, List.map_map, List.map_flatMap,
    List.flatMap_def, List.sum_flatten, List.map_map]
  simp only [Function.comp_def, List.map_map]

def zoneCount (counts : Fin 8 → ℕ) (zone : ZoneConfig) : ℕ :=
  match zone.slot with
  | some i => counts i
  | none => 0

def Separate (zones : List ZoneConfig) : Prop :=
  (zones.map ZoneConfig.slot).Nodup ∧ ∀ zone ∈ zones, zone.slot.isSome

theorem zoneCount_separate {zones : List ZoneConfig} (h : Separate zones) (cams : CameraObjects)
    {zone : ZoneConfig} (hmem : zone ∈ zones) : zoneCount (tempCounts zones cams) zone =
      (cams.objectsOf zone.camera_id).countP (isInside · zone) := by
  obtain ⟨i, hi⟩ := Option.isSome_iff_exists.mp (h.2 zone hmem)
  have hadded (seen : String × DetectedObject) :
      added zones i seen = [zone].countP (ZoneConfig.Counts · seen) := by
    have hone : zones.filter (·.slot = some i) = [zone] := by
      rw [← hi]
      exact filter_eq_singleton h.1 hmem
    rw [← hone, List.countP_filter, added]
    simp only [Bool.decide_and, Bool.and_comm, Bool.decide_eq_true]
  have hsum : (cams.tagged.map (added zones i)).sum = cams.tagged.countP zone.Counts := by
    rw [funext hadded, sum_map_countP_comm fun seen z => ZoneConfig.Counts z seen]
    exact Nat.add_zero _
  rw [zoneCount, hi]
  dsimp only
  rw [tempCounts_apply, hsum, CameraObjects.objectsOf, List.countP_map, List.countP_filter]
  refine List.countP_congr fun seen _ => ?_
  rw [ZoneConfig.Counts, decide_eq_true_eq, Bool.and_eq_true, decide_eq_true_eq]
  constructor
  · rintro ⟨hcam, hin⟩
    exact ⟨hin, hcam.symm⟩
  · rintro ⟨hin, hcam⟩
    exact ⟨hcam.symm, hin⟩

/-- Summed over the zones of a camera, its objects are counted once for each zone around them. -/
theorem sum_zoneCounts {zones : List ZoneConfig} (h : Separate zones) (cams : CameraObjects)
    (cam : String) :
    ((zones.filter (·.camera_id = cam)).map (zoneCount (tempCounts zones cams))).sum =
      ((cams.objectsOf cam).map fun obj =>
        (zones.filter (·.camera_id = cam)).countP (isInside obj)).sum := by
  rw [sum_map_countP_comm]
  congr 1
  refine List.map_congr_left fun zone hzone => ?_
  obtain ⟨hmem, hcam⟩ := List.mem_filter.mp hzone
  rw [zoneCount_separate h cams hmem, of_decide_eq_true hcam]

/-- The zones that `init_default_rois` puts into the configuration. -/
def defaultZones : List ZoneConfig :=
  [⟨1, "hanwha", 0.0, 0.0, 0.25, 1.0⟩, ⟨2, "hanwha", 0.25, 0.0, 0.50, 1.0⟩,
    ⟨3, "hanwha", 0.50, 0.0, 0.75, 1.0⟩, ⟨4, "hanwha", 0.75, 0.0, 1.0, 1.0⟩,
    ⟨5, "CAM_01", 0.0, 0.0, 0.5, 1.0⟩, ⟨6, "CAM_01", 0.5, 0.0, 1.0, 1.0⟩,
    ⟨7, "CAM_02", 0.0, 0.0, 0.5, 1.0⟩, ⟨8, "CAM_02", 0.5, 0.0, 1.0, 1.0⟩]

theorem separate_defaultZones : Separate defaultZones := by
  constructor
  · decide
  · decide

def viewCuts (cam : String) : List ℚ :=
  if cam = "hanwha" then [0.0, 0.25, 0.50, 0.75, 1.0]
  else if cam = "CAM_01" ∨ cam = "CAM_02" then [0.0, 0.5, 1.0]
  else []

def innerEdges (cam : String) : List ℚ := (viewCuts cam).tail.dropLast

def InView (obj : DetectedObject) : Prop :=
  (0 ≤ obj.centerX ∧ obj.centerX ≤ 1) ∧ 0 ≤ obj.centerY ∧ obj.centerY ≤ 1

theorem strips_viewCuts (cam : String) :
    (defaultZones.filter (·.camera_id = cam)).map (fun zone => (zone.x1, zone.x2)) =
      strips (viewCuts cam) := by
  rw [viewCuts]
  split_ifs with hhanwha hpi
  · subst hhanwha
    rfl
  · rcases hpi with rfl | rfl <;> rfl
  · rw [not_or] at hpi
    simp [defaultZones, strips, Ne.symm hhanwha, Ne.symm hpi.1, Ne.symm hpi.2]

theorem countP_isInside (cam : String) {obj : DetectedObject} (h : InView obj) :
    (defaultZones.filter (·.camera_id = cam)).countP (isInside obj) =
      (strips (viewCuts cam)).countP (Within obj.centerX ·) := by
  rw [← strips_viewCuts, List.countP_map]
  refine List.countP_congr fun zone hzone => ?_
  have hheight : zone.y1 = 0 ∧ zone.y2 = 1 := by
    have hmem := (List.mem_filter.mp hzone).1
    revert zone
    norm_num [defaultZones]
  simp only [isInside, Function.comp_apply, decide_eq_true_eq, hheight, h.2, and_self, and_true,
    Within]
  exact decide_eq_true_iff.symm

/-- Between the outer edges an object is in exactly one zone when its centre is on no inner
edge. -/
theorem countP_isInside_iff {cam : String} (hzones : viewCuts cam ≠ []) {obj : DetectedObject}
    (h : InView obj) :
    1 ≤ (defaultZones.filter (·.camera_id = cam)).countP (isInside obj) ∧
      ((defaultZones.filter (·.camera_id = cam)).countP (isInside obj) = 1 ↔
        obj.centerX ∉ innerEdges cam) := by
  rw [countP_isInside cam h, innerEdges]
  rw [viewCuts] at hzones ⊢
  split_ifs at hzones ⊢
  · have hcuts : ([0.0, 0.25, 0.50, 0.75, 1.0] : List ℚ).Pairwise (· < ·) := by norm_num
    have hlast : obj.centerX ≤ ([0.25, 0.50, 0.75, 1.0] : List ℚ).getLast (by simp) := by
      norm_num [h.1.2]
    have hfirst : 0.0 ≤ obj.centerX := by norm_num [h.1.1]
    exact ⟨(countP_strips hcuts hfirst hlast).ge.trans' (Nat.le_add_right 1 _),
      countP_strips_eq_one_iff hcuts hfirst hlast⟩
  · have hcuts : ([0.0, 0.5, 1.0] : List ℚ).Pairwise (· < ·) := by norm_num
    have hlast : obj.centerX ≤ ([0.5, 1.0] : List ℚ).getLast (by simp) := by
      norm_num [h.1.2]
    have hfirst : 0.0 ≤ obj.centerX := by norm_num [h.1.1]
    exact ⟨(countP_strips hcuts hfirst hlast).ge.trans' (Nat.le_add_right 1 _),
      countP_strips_eq_one_iff hcuts hfirst hlast⟩
  · exact absurd rfl hzones

/-- The sum of the counts of a camera's zones is the number of its objects exactly when the camera
has zones and none of the objects has its centre on an edge that two of them share. -/
theorem counts_partition_iff (cams : CameraObjects) (cam : String)
    (h : ∀ obj ∈ cams.objectsOf cam, InView obj) :
    ((defaultZones.filter (·.camera_id = cam)).map
        (zoneCount (tempCounts defaultZones cams))).sum = (cams.objectsOf cam).length ↔
      ∀ obj ∈ cams.objectsOf cam, viewCuts cam ≠ [] ∧ obj.centerX ∉ innerEdges cam := by
  rw [sum_zoneCounts separate_defaultZones]
  by_cases hzones : viewCuts cam = []
  · have hnone (obj : DetectedObject) (hobj : obj ∈ cams.objectsOf cam) :
        (defaultZones.filter (·.camera_id = cam)).countP (isInside obj) = 0 := by
      rw [countP_isInside cam (h obj hobj), hzones]
      rfl
    rw [List.map_congr_left hnone]
    simp [hzones, List.eq_nil_iff_forall_not_mem, eq_comm (a := 0)]
  · rw [sum_map_eq_length_iff fun obj hobj => (countP_isInside_iff hzones (h obj hobj)).1]
    refine forall₂_congr fun obj hobj => ?_
    rw [(countP_isInside_iff hzones (h obj hobj)).2, and_iff_right hzones]

theorem counts_partition_one :
    (∀ obj ∈ CameraObjects.objectsOf ⟨[.point 0.1 0.5], []⟩ "hanwha", InView obj) ∧
      ((defaultZones.filter (·.camera_id = "hanwha")).map
        (zoneCount (tempCounts defaultZones ⟨[.point 0.1 0.5], []⟩))).sum = 1 := by
  have hobj : CameraObjects.objectsOf ⟨[.point 0.1 0.5], []⟩ "hanwha" = [.point 0.1 0.5] := rfl
  have hview : ∀ obj ∈ CameraObjects.objectsOf ⟨[.point 0.1 0.5], []⟩ "hanwha", InView obj := by
    rw [hobj]
    norm_num [InView]
  refine ⟨hview, (counts_partition_iff _ "hanwha" hview).mpr fun obj hmem => ?_⟩
  rw [hobj, List.mem_singleton] at hmem
  subst hmem
  refine ⟨List.cons_ne_nil _ _, ?_⟩
  norm_num [innerEdges, viewCuts]

/-- An object whose centre is on the edge between the zones 1 and 2 is counted in both. -/
theorem inner_edge_counted_twice :
    ¬ ∀ (cams : CameraObjects) (cam : String), (∀ obj ∈ cams.objectsOf cam, InView obj) →
      ((defaultZones.filter (·.camera_id = cam)).map
        (zoneCount (tempCounts defaultZones cams))).sum = (cams.objectsOf cam).length := by
  intro hall
  have hview : InView (.point 0.25 0.5) := by norm_num [InView]
  have hobj : CameraObjects.objectsOf ⟨[.point 0.25 0.5], []⟩ "hanwha" = [.point 0.25 0.5] := rfl
  have hsum := hall ⟨[.point 0.25 0.5], []⟩ "hanwha" (by rw [hobj]; simpa using hview)
  rw [sum_zoneCounts separate_defaultZones, hobj, List.map_singleton, List.sum_singleton,
    List.length_singleton] at hsum
  have hzones : viewCuts "hanwha" ≠ [] := List.cons_ne_nil _ _
  have hedge := (countP_isInside_iff hzones hview).2.mp hsum
  norm_num [innerEdges, viewCuts] at hedge

end JeogiAt.Server
