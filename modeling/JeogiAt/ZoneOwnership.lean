import JeogiAt.CommandHandler
import JeogiAt.Library.Machine

/-!
# Which camera a slot belongs to

`run` counts into slot `k` the objects of every zone with the id `k`, `getCameraIds` reports the
camera of the last of them, and an update looks for its zone by camera and id. So an update may put
a zone of a second camera into a slot. The count then is that of the camera reported alone only as
long as the zones of the others are empty regions.
-/

namespace JeogiAt.Server

open Counting

def CameraObjects.only (cams : CameraObjects) (cam : String) : CameraObjects :=
  ⟨if cam = "hanwha" then cams.g_hw_objects else [], cams.g_pi_node_map.filter (·.1 = cam)⟩

theorem CameraObjects.tagged_only (cams : CameraObjects) (cam : String) :
    (cams.only cam).tagged = cams.tagged.filter (·.1 = cam) := by
  have hnodes : ((cams.g_pi_node_map.filter (·.1 = cam)).flatMap fun node =>
      node.2.map (node.1, ·)) =
        (cams.g_pi_node_map.flatMap fun node => node.2.map (node.1, ·)).filter (·.1 = cam) := by
    induction cams.g_pi_node_map with
    | nil => rfl
    | cons node nodes ih =>
      rw [List.flatMap_cons, List.filter_append, ← ih, List.filter_map]
      by_cases hcam : node.1 = cam
      · rw [List.filter_cons_of_pos (by simpa using hcam), List.flatMap_cons]
        simp [Function.comp_def, hcam]
      · rw [List.filter_cons_of_neg (by simpa using hcam)]
        simp [Function.comp_def, hcam]
  rw [tagged, tagged, only, hnodes, List.filter_append, List.filter_map]
  by_cases hcam : cam = "hanwha"
  · simp [hcam, Function.comp_def]
  · simp [hcam, Function.comp_def, Ne.symm hcam]

/-- The count of every slot is that of the camera reported for it. -/
def CountsOwn (zones : List ZoneConfig) : Prop :=
  ∀ cams i, tempCounts zones cams i = tempCounts zones (cams.only (getCameraIds zones i)) i

namespace ZoneConfig

def Empty (zone : ZoneConfig) : Prop := zone.x2 < zone.x1 ∨ zone.y2 < zone.y1

theorem empty_iff {zone : ZoneConfig} : zone.Empty ↔ ∀ obj, isInside obj zone = false := by
  constructor
  · intro hempty obj
    rw [isInside, decide_eq_false_iff_not]
    rintro ⟨hx1, hx2, hy1, hy2⟩
    rcases hempty with hx | hy
    · exact absurd (hx1.trans hx2) (not_le.mpr hx)
    · exact absurd (hy1.trans hy2) (not_le.mpr hy)
  · intro hnone
    have hcorner := hnone (.point zone.x1 zone.y1)
    rw [isInside, decide_eq_false_iff_not] at hcorner
    by_contra hregion
    rw [Empty, not_or, not_lt, not_lt] at hregion
    refine hcorner ?_
    simpa using hregion

theorem slot_inj {z z' : ZoneConfig} {i : Fin 8} (h : z.slot = some i) (h' : z'.slot = some i) :
    z.zone_id = z'.zone_id := by
  rw [slot] at h h'
  split_ifs at h h'
  cases h
  rw [Option.some_inj, Fin.mk.injEq] at h'
  refine Int32.toInt_inj.mp ?_
  omega

theorem slot_congr {z z' : ZoneConfig} (h : z.zone_id = z'.zone_id) : z.slot = z'.slot := by
  simp only [slot, h]

end ZoneConfig

/-- In every slot, a zone of another camera than the one reported is an empty region. -/
def Owned (zones : List ZoneConfig) : Prop :=
  ∀ z ∈ zones, ∀ i, z.slot = some i → z.camera_id = getCameraIds zones i ∨ z.Empty

theorem countsOwn_of_owned {zones : List ZoneConfig} (h : Owned zones) : CountsOwn zones := by
  intro cams i
  rw [tempCounts_apply, tempCounts_apply, CameraObjects.tagged_only]
  symm
  refine sum_map_filter_of_zero fun seen _ hother => ?_
  rw [added, List.countP_eq_zero]
  intro zone hzone
  rw [decide_eq_true_eq]
  rintro ⟨hslot, hcounts⟩
  obtain ⟨hcamera, hin⟩ := of_decide_eq_true hcounts
  rcases h zone hzone i hslot with hreported | hempty
  · exact of_decide_eq_false hother (hcamera.symm.trans hreported)
  · rw [ZoneConfig.empty_iff.mp hempty] at hin
    cases hin

theorem owned_of_countsOwn {zones : List ZoneConfig} (h : CountsOwn zones) : Owned zones := by
  intro z hz i hslot
  by_cases hcamera : z.camera_id = getCameraIds zones i
  · exact .inl hcamera
  · refine .inr (ZoneConfig.empty_iff.mpr fun obj => ?_)
    -- one object, seen by the camera that is not reported
    let cams : CameraObjects := ⟨[], [(z.camera_id, [obj])]⟩
    have htagged : cams.tagged = [(z.camera_id, obj)] := rfl
    have hnone : tempCounts zones cams i = 0 := by
      rw [h cams i, tempCounts_apply, CameraObjects.tagged_only, htagged,
        List.filter_cons_of_neg (by simpa using hcamera)]
      rfl
    rw [tempCounts_apply, htagged, List.map_singleton, List.sum_singleton, added,
      List.countP_eq_zero] at hnone
    have hz := hnone z hz
    simpa [hslot, ZoneConfig.Counts] using hz

theorem countsOwn_iff {zones : List ZoneConfig} : CountsOwn zones ↔ Owned zones :=
  ⟨owned_of_countsOwn, countsOwn_of_owned⟩

theorem getCameraIds_concat (zones : List ZoneConfig) (z : ZoneConfig) (i : Fin 8) :
    getCameraIds (zones ++ [z]) i =
      if z.slot = some i then z.camera_id else getCameraIds zones i := by
  rw [getCameraIds, List.foldl_append, List.foldl_cons, List.foldl_nil]
  cases hslot : z.slot with
  | none => rfl
  | some j =>
    by_cases hij : j = i
    · simp [hij]
    · simp [hij, Ne.symm hij, getCameraIds]

theorem getCameraIds_congr {zones zones' : List ZoneConfig}
    (h : zones.map (fun z => (z.zone_id, z.camera_id)) =
      zones'.map fun z => (z.zone_id, z.camera_id)) : getCameraIds zones = getCameraIds zones' := by
  induction zones using List.reverseRecOn generalizing zones' with
  | nil =>
    rw [List.map_nil] at h
    rw [List.map_eq_nil_iff.mp h.symm]
  | append_singleton zones z ih =>
    cases zones' using List.reverseRecOn with
    | nil => simp at h
    | append_singleton zones' z' =>
      rw [List.map_append, List.map_append] at h
      obtain ⟨hinit, hlast⟩ := List.append_inj' h rfl
      have hkey : z.zone_id = z'.zone_id ∧ z.camera_id = z'.camera_id := by simpa using hlast
      funext i
      rw [getCameraIds_concat, getCameraIds_concat, ih hinit, ZoneConfig.slot_congr hkey.1,
        hkey.2]

namespace RoiUpdate

variable {u : RoiUpdate} {zones : List ZoneConfig}

def SameKey (u : RoiUpdate) (z : ZoneConfig) : Prop :=
  z.zone_id = u.zone_id ∧ z.camera_id = u.camera_id

theorem upsertZones_new (h : ∀ z ∈ zones, ¬ u.SameKey z) :
    u.upsertZones zones = zones ++ [u.zone] := by
  induction zones with
  | nil => rfl
  | cons z zones ih =>
    obtain ⟨hz, hzones⟩ := List.forall_mem_cons.mp h
    have hskip : u.upsertZones (z :: zones) = z :: u.upsertZones zones := if_neg hz
    rw [hskip, ih hzones, List.cons_append]

theorem upsertZones_known {z : ZoneConfig} (hz : z ∈ zones) (h : u.SameKey z) :
    ∃ pre old post, zones = pre ++ old :: post ∧ u.SameKey old ∧
      u.upsertZones zones = pre ++ u.zone :: post := by
  induction zones with
  | nil => cases hz
  | cons y zones ih =>
    by_cases hy : u.SameKey y
    · exact ⟨[], y, zones, rfl, hy, if_pos hy⟩
    · have hmem : z ∈ zones := by
        rcases List.mem_cons.mp hz with rfl | hmem
        · exact absurd h hy
        · exact hmem
      obtain ⟨pre, old, post, hsplit, hold, hupsert⟩ := ih hmem
      refine ⟨y :: pre, old, post, ?_, hold, ?_⟩
      · rw [hsplit, List.cons_append]
      · have hskip : u.upsertZones (y :: zones) = y :: u.upsertZones zones := if_neg hy
        rw [hskip, hupsert, List.cons_append]

/-- An update that leaves every slot to one camera: its id has no slot; or its zone is there, and is
the reported camera's or made an empty region; or it is new, and all zones with its id are empty
regions. -/
def KeepsOwners (u : RoiUpdate) (zones : List ZoneConfig) : Prop :=
  ∀ i, u.zone.slot = some i →
    (∃ z ∈ zones, u.SameKey z) ∧ (u.camera_id = getCameraIds zones i ∨ u.zone.Empty) ∨
      (∀ z ∈ zones, ¬ u.SameKey z) ∧ ∀ z ∈ zones, z.zone_id = u.zone_id → z.Empty

theorem owned_upsertZones_iff (h : Owned zones) :
    Owned (u.upsertZones zones) ↔ u.KeepsOwners zones := by
  by_cases hknown : ∃ z ∈ zones, u.SameKey z
  · obtain ⟨z, hz, hkey⟩ := hknown
    obtain ⟨pre, old, post, rfl, hold, hupsert⟩ := upsertZones_known hz hkey
    have hids : getCameraIds (pre ++ u.zone :: post) = getCameraIds (pre ++ old :: post) := by
      refine getCameraIds_congr ?_
      simp [zone, hold.1, hold.2]
    rw [hupsert]
    constructor
    · intro howned i hslot
      refine .inl ⟨⟨z, hz, hkey⟩, ?_⟩
      rw [← hids]
      exact howned u.zone (by simp) i hslot
    · intro hkeeps y hy i hslot
      rw [hids]
      have hcases : y ∈ pre ++ old :: post ∨ y = u.zone := by
        simp only [List.mem_append, List.mem_cons] at hy ⊢
        tauto
      rcases hcases with hmem | rfl
      · exact h y hmem i hslot
      · rcases hkeeps i hslot with ⟨-, hown⟩ | ⟨hnew, -⟩
        · exact hown
        · exact absurd hkey (hnew z hz)
  · have hnew : ∀ z ∈ zones, ¬ u.SameKey z := fun z hz hkey => hknown ⟨z, hz, hkey⟩
    rw [upsertZones_new hnew]
    constructor
    · intro howned i hslot
      refine .inr ⟨hnew, fun z hz hid => ?_⟩
      have hz_slot : z.slot = some i := (ZoneConfig.slot_congr hid).trans hslot
      rcases howned z (List.mem_append_left _ hz) i hz_slot with hcamera | hempty
      · rw [getCameraIds_concat, if_pos hslot] at hcamera
        exact absurd ⟨hid, hcamera⟩ (hnew z hz)
      · exact hempty
    · intro hkeeps y hy i hslot
      rw [getCameraIds_concat]
      rcases List.mem_append.mp hy with hmem | hlast
      · split_ifs with hsame
        · rcases hkeeps i hsame with ⟨⟨z, hz, hkey⟩, -⟩ | ⟨-, hempty⟩
          · exact absurd hkey (hnew z hz)
          · exact .inr (hempty y hmem (ZoneConfig.slot_inj hslot hsame))
        · exact h y hmem i hslot
      · rw [List.mem_singleton] at hlast
        subst hlast
        exact .inl (if_pos hslot).symm

end RoiUpdate

def roiCommands : Machine Json Json Unit := ⟨fun config data => (handleRoiUpdate config data, ())⟩

def zoneList (config : Json) : List ZoneConfig := (loadConfig config).1

/-- A command that is not accepted changes nothing; one that is has to keep the owners. -/
def CommandKeepsOwners (config data : Json) : Prop :=
  ∀ u, roiUpdate data = some u → u.KeepsOwners (zoneList config)

theorem handleRoiUpdate_hasZones {config : Json} {zones : List ZoneConfig}
    (h : HasZones config zones) (data : Json) :
    roiUpdate data = none ∧ handleRoiUpdate config data = config ∨
      ∃ u, roiUpdate data = some u ∧
        HasZones (handleRoiUpdate config data) (u.upsertZones zones) := by
  rw [handleRoiUpdate]
  cases hdata : roiUpdate data with
  | none => exact .inl ⟨rfl, rfl⟩
  | some u =>
    obtain ⟨config', hupdate, hzones⟩ := hasZones_updateConfig h u
    refine .inr ⟨u, rfl, ?_⟩
    rwa [Option.bind_some, hupdate, Option.getD_some]

theorem hasZones_next {config : Json} (h : ∃ zones, HasZones config zones) (data : Json) :
    ∃ zones, HasZones (roiCommands.next config data) zones := by
  obtain ⟨zones, hzones⟩ := h
  rcases handleRoiUpdate_hasZones hzones data with ⟨-, hsame⟩ | ⟨u, -, hnext⟩
  · have hstay : roiCommands.next config data = config := hsame
    exact ⟨zones, hstay.symm ▸ hzones⟩
  · exact ⟨_, hnext⟩

theorem zoneList_eq {config : Json} {zones : List ZoneConfig} (h : HasZones config zones) :
    zoneList config = zones := by rw [zoneList, h.loadConfig]

theorem owned_defaultZones : Owned defaultZones := by
  intro z hz i hslot
  refine .inl ?_
  revert z i
  decide

/-- From the default zones on, the count of every slot stays that of the camera reported for it
exactly when every accepted command keeps the owners. -/
theorem counts_own_iff {config start : Json} (hneeds : needsDefaults config = true)
    (hstart : initDefaultRois config = some start) (commands : List Json) :
    (∀ past, past <+: commands → CountsOwn (zoneList (roiCommands.run start past))) ↔
      roiCommands.Along CommandKeepsOwners start commands := by
  have hdefaults := hasZones_initDefaultRois hneeds hstart
  have hruns (past : List Json) : ∃ zones, HasZones (roiCommands.run start past) zones :=
    Machine.invariant_run (I := fun config => ∃ zones, HasZones config zones)
      (fun _ data h => hasZones_next h data) ⟨_, hdefaults⟩ past
  simp only [countsOwn_iff]
  refine Machine.prefixes_iff_along
    (I := fun past => Owned (zoneList (roiCommands.run start past))) ?_ ?_ commands
  · rw [Machine.run_nil, zoneList_eq hdefaults]
    exact owned_defaultZones
  · intro past data _ howned
    obtain ⟨zones, hzones⟩ := hruns past
    rw [zoneList_eq hzones] at howned
    rw [Machine.run_concat, CommandKeepsOwners, zoneList_eq hzones]
    rcases handleRoiUpdate_hasZones hzones data with ⟨hnone, hsame⟩ | ⟨u, hu, hnext⟩
    · have hstay : roiCommands.next (roiCommands.run start past) data =
          roiCommands.run start past := hsame
      rw [hstay, zoneList_eq hzones, hnone]
      exact iff_of_true howned fun u hu => absurd hu (by simp)
    · have hzones' : HasZones (roiCommands.next (roiCommands.run start past) data)
          (u.upsertZones zones) := hnext
      rw [zoneList_eq hzones', hu]
      simp only [Option.some.injEq, forall_eq']
      exact RoiUpdate.owned_upsertZones_iff howned

theorem counts_own_moved_zone :
    needsDefaults (.obj []) = true ∧
      initDefaultRois (.obj []) = some (.obj [("zones", .arr defaultItems)]) ∧
      ∀ past, past <+: [RoiUpdate.command ⟨"CAM_01", 5, [0, 0, 0.4, 1], by simp, by simp, rfl⟩] →
        CountsOwn (zoneList (roiCommands.run (.obj [("zones", .arr defaultItems)]) past)) := by
  have hdefaults : HasZones (.obj [("zones", .arr defaultItems)]) defaultZones :=
    ⟨⟨_, rfl⟩, represents_defaultItems⟩
  refine ⟨rfl, rfl, (@counts_own_iff (.obj [])
    (.obj [("zones", .arr defaultItems)]) rfl rfl _).mpr ⟨fun u hu => ?_, trivial⟩⟩
  rw [roiUpdate_command, Option.some_inj] at hu
  subst hu
  rw [zoneList_eq hdefaults]
  refine fun i hslot => .inl ⟨⟨⟨5, "CAM_01", 0.0, 0.0, 0.5, 1.0⟩, ?_, rfl, rfl⟩, .inl ?_⟩
  · simp [defaultZones]
  · revert i
    decide

/-- A zone 1 of `CAM_01` takes the slot: it is reported as that camera's, and the objects of the
Hanwha camera are still counted in it. -/
theorem second_camera_in_slot :
    ¬ ∀ commands : List Json, CountsOwn (zoneList
      (roiCommands.run (.obj [("zones", .arr defaultItems)]) commands)) := by
  intro hall
  let u : RoiUpdate := ⟨"CAM_01", 1, [0, 0, 1, 1], by simp, by simp, rfl⟩
  have hdefaults : HasZones (.obj [("zones", .arr defaultItems)]) defaultZones :=
    ⟨⟨_, rfl⟩, represents_defaultItems⟩
  rcases handleRoiUpdate_hasZones hdefaults u.command with ⟨hnone, -⟩ | ⟨v, hv, hnext⟩
  · rw [roiUpdate_command] at hnone
    cases hnone
  · rw [roiUpdate_command, Option.some_inj] at hv
    subst hv
    have hzones : HasZones (roiCommands.run (.obj [("zones", .arr defaultItems)]) [u.command])
        (u.upsertZones defaultZones) := hnext
    have howned := countsOwn_iff.mp (hall [u.command])
    rw [zoneList_eq hzones, RoiUpdate.owned_upsertZones_iff owned_defaultZones] at howned
    have hslot : u.zone.slot = some 0 := by decide
    rcases howned 0 hslot with ⟨⟨z, hz, hkey⟩, -⟩ | ⟨-, hempty⟩
    · have hnone : ∀ z ∈ defaultZones, ¬ u.SameKey z := by
        simp [defaultZones, RoiUpdate.SameKey, u]
      exact hnone z hz hkey
    · have hfirst := hempty ⟨1, "hanwha", 0.0, 0.0, 0.25, 1.0⟩ (by simp [defaultZones]) rfl
      norm_num [ZoneConfig.Empty] at hfirst

end JeogiAt.Server
