import JeogiAt.CommandHandler
import JeogiAt.Library.Upsert

/-!
# The laws of `roi_update`

On a configuration whose zones have readable and unique keys, a command of one thread updates or
appends the zone with its key and leaves everything else alone; a second time it changes nothing,
and commands with different keys may change places. A command that does not get to its save leaves
the file.
-/

namespace JeogiAt.Server

open Upsert

def zoneKey (zone : Json) : Option (Int32 × String) := do
  let zone_id ← zone.value "zone_id" (-1) Json.getInt
  let camera_id ← zone.value "camera_id" "" Json.getString
  some (zone_id, camera_id)

/-- The configuration is an object, and its zones have keys, no two the same. -/
structure WellFormed (config : Json) : Prop where
  object : ∃ members, config = .obj members
  readable : ∀ zone ∈ zonesOf config, zoneKey zone ≠ none
  unique : ((zonesOf config).map zoneKey).Nodup

/-- `handle_qt_command` alone: what is in the file after it. -/
def fileAfter (file : Option Json) (data : Json) : Option Json :=
  match (roiUpdate data).bind fun u => u.updateConfig (load file) with
  | some config => some config
  | none => file

namespace RoiUpdate

variable (u : RoiUpdate)

def key : Int32 × String := (u.zone_id, u.camera_id)

/-- `zone[FIELD_ROI] = roi` -/
def editRoi : Json → Json
  | .obj members => .obj (Json.setMember "roi" u.roiJson members)
  | zone => zone

/-- From `config` to `config'`, the update changes the roi of its key alone: it replaces that of the
zone with the key, or appends a zone. -/
structure Upserted (config config' : Json) : Prop where
  zones : (∃ pre zone zone' post, zonesOf config = pre ++ zone :: post ∧
      zonesOf config' = pre ++ zone' :: post ∧ zoneKey zone = some u.key ∧
      zone'.find? "roi" = some u.roiJson ∧ ∀ name ≠ "roi", zone'.find? name = zone.find? name) ∨
    (∀ zone ∈ zonesOf config, zoneKey zone ≠ some u.key) ∧
      zonesOf config' = zonesOf config ++ [u.newZone]
  roi : storedRoi u.camera_id u.zone_id (zonesOf config') = some u.roiJson
  others : ∀ zone_id camera_id, (zone_id, camera_id) ≠ u.key →
    storedRoi camera_id zone_id (zonesOf config') = storedRoi camera_id zone_id (zonesOf config)
  wellFormed : WellFormed config'
  rest : ∀ name ≠ "zones", config'.find? name = config.find? name

end RoiUpdate

/-- The same keys, and the same roi for each of them. -/
def SameRois (config config' : Json) : Prop :=
  ∀ zone_id camera_id,
    (some (zone_id, camera_id) ∈ (zonesOf config).map zoneKey ↔
      some (zone_id, camera_id) ∈ (zonesOf config').map zoneKey) ∧
    storedRoi camera_id zone_id (zonesOf config) = storedRoi camera_id zone_id (zonesOf config')

theorem zoneKey_eq_some_iff {zone : Json} {zone_id : Int32} {camera_id : String} :
    zoneKey zone = some (zone_id, camera_id) ↔ hasKey camera_id zone_id zone = some true := by
  rw [hasKey_eq_true_iff, zoneKey]
  cases zone.value "zone_id" (-1) Json.getInt with
  | none => simp
  | some id =>
    cases zone.value "camera_id" "" Json.getString with
    | none => simp
    | some camera => simp

/-- Where the key can be read, the test of the loop compares it. -/
theorem hasKey_of_readable {zone : Json} (h : zoneKey zone ≠ none) (camera_id : String)
    (zone_id : Int32) : hasKey camera_id zone_id zone =
      some (decide (zoneKey zone = some (zone_id, camera_id))) := by
  obtain ⟨⟨id, camera⟩, hkey⟩ := Option.ne_none_iff_exists'.mp h
  obtain ⟨hid, hcamera⟩ := hasKey_eq_true_iff.mp (zoneKey_eq_some_iff.mp hkey)
  rw [hasKey, hid, hcamera, hkey]
  by_cases heq : id = zone_id
  · simp [heq]
  · simp [heq]

namespace RoiUpdate

variable (u : RoiUpdate)

theorem zoneKey_editRoi (zone : Json) : zoneKey (u.editRoi zone) = zoneKey zone := by
  have hid : "zone_id" ≠ "roi" := by decide
  have hcamera : "camera_id" ≠ "roi" := by decide
  cases zone with
  | obj members =>
    rw [editRoi, zoneKey, zoneKey, Json.value_setMember hid, Json.value_setMember hcamera]
  | _ => rfl

theorem zoneKey_newZone : zoneKey u.newZone = some u.key := by
  rw [key, zoneKey_eq_some_iff, hasKey_newZone, decide_eq_true ⟨rfl, rfl⟩]

theorem editRoi_editRoi (zone : Json) : u.editRoi (u.editRoi zone) = u.editRoi zone := by
  cases zone with
  | obj members =>
    have hlookup : (Json.setMember "roi" u.roiJson members).lookup "roi" = some u.roiJson :=
      (Json.lookup_setMember _ _ _ _).trans (if_pos rfl)
    rw [editRoi, editRoi, Json.setMember_of_lookup hlookup]
  | _ => rfl

theorem editRoi_newZone : u.editRoi u.newZone = u.newZone := by
  rw [newZone, editRoi, Json.setMember_of_lookup rfl]

theorem find?_editRoi {zone : Json} (h : zoneKey zone ≠ none) (name : String) :
    (u.editRoi zone).find? name = if name = "roi" then some u.roiJson else zone.find? name := by
  obtain ⟨⟨id, camera⟩, hkey⟩ := Option.ne_none_iff_exists'.mp h
  obtain ⟨members, rfl⟩ := exists_obj_of_hasKey (zoneKey_eq_some_iff.mp hkey)
  exact Json.lookup_setMember _ _ _ _

theorem upsert_eq {zones : List Json} (h : ∀ zone ∈ zones, zoneKey zone ≠ none) :
    u.upsert zones = some (Upsert.upsert zoneKey (some u.key) u.editRoi u.newZone zones) := by
  induction zones with
  | nil => rfl
  | cons zone zones ih =>
    rw [List.forall_mem_cons] at h
    have htest : hasKey u.camera_id u.zone_id zone = some (decide (zoneKey zone = some u.key)) :=
      hasKey_of_readable h.1 u.camera_id u.zone_id
    by_cases hkey : zoneKey zone = some u.key
    · rw [decide_eq_true hkey] at htest
      obtain ⟨members, rfl⟩ := exists_obj_of_hasKey htest
      rw [RoiUpdate.upsert, htest, Upsert.upsert, if_pos hkey]
      rfl
    · rw [decide_eq_false hkey] at htest
      rw [RoiUpdate.upsert, htest, Upsert.upsert, if_neg hkey, ih h.2]
      rfl

end RoiUpdate

section

variable {config : Json} (h : WellFormed config) (u : RoiUpdate)

include h

theorem WellFormed.updateConfig : ∃ config', u.updateConfig config = some config' ∧
    zonesOf config' =
      Upsert.upsert zoneKey (some u.key) u.editRoi u.newZone (zonesOf config) ∧
    WellFormed config' := by
  obtain ⟨members, rfl⟩ := h.object
  have hupsert := u.upsert_eq h.readable
  have hset : (Json.obj members).set "zones" (.arr (Upsert.upsert zoneKey (some u.key) u.editRoi
      u.newZone (zonesOf (.obj members)))) = some _ := rfl
  have hzones := RoiUpdate.zonesOf_set hset
  have hkeys := mem_map_key_upsert u.zoneKey_editRoi u.zoneKey_newZone (zonesOf (.obj members))
  refine ⟨_, ?_, hzones, ⟨_, rfl⟩, fun zone hzone hnone => ?_, ?_⟩
  · rw [RoiUpdate.updateConfig, hupsert, Option.bind_some]
    exact hset
  · -- no key that cannot be read has come in
    have hmem : none ∈ (zonesOf (.obj members)).map zoneKey ∨ none = some u.key :=
      (hkeys none).mp (hnone ▸ hzones ▸ List.mem_map_of_mem hzone)
    have hold := hmem.resolve_right (Option.some_ne_none _).symm
    obtain ⟨zone', hzone', hnone'⟩ := List.mem_map.mp hold
    exact h.readable zone' hzone' hnone'
  · rw [hzones]
    exact nodup_upsert u.zoneKey_editRoi u.zoneKey_newZone h.unique

theorem WellFormed.upserted {config' : Json} (hupdate : u.updateConfig config = some config') :
    u.Upserted config config' ∧ u.updateConfig config' = some config' := by
  obtain ⟨after, hafter, hzones, hwellFormed⟩ := h.updateConfig u
  obtain rfl : after = config' := Option.some.inj (hafter.symm.trans hupdate)
  have hupsert := RoiUpdate.zonesOf_updateConfig hupdate
  refine ⟨⟨?_, RoiUpdate.storedRoi_upsert_self hupsert, fun zone_id camera_id hne => ?_,
    hwellFormed, fun name hname => RoiUpdate.find?_updateConfig hupdate hname⟩, ?_⟩
  · rcases absent_or_split zoneKey (some u.key) (zonesOf config) with
      habsent | ⟨pre, zone, post, heq, hpre, hkey⟩
    · exact .inr ⟨habsent, hzones.trans (upsert_absent habsent)⟩
    · have hreadable : zoneKey zone ≠ none := by
        rw [hkey]
        exact Option.some_ne_none _
      refine .inl ⟨pre, zone, u.editRoi zone, post, heq, ?_, hkey, ?_, fun name hname => ?_⟩
      · rw [hzones, heq, upsert_split hpre hkey]
      · rw [u.find?_editRoi hreadable, if_pos rfl]
      · rw [u.find?_editRoi hreadable, if_neg hname]
  · refine RoiUpdate.storedRoi_upsert_other hupsert fun hsame => hne ?_
    rw [RoiUpdate.key, hsame.1, hsame.2]
  · -- the second time the zones stay, and so does the member that holds them
    obtain ⟨again, hagain, hzones', -⟩ := hwellFormed.updateConfig u
    obtain ⟨zones, hnew, hset⟩ := RoiUpdate.updateConfig_eq_some hupdate
    obtain ⟨zones', hnew', hset'⟩ := RoiUpdate.updateConfig_eq_some hagain
    have hsame : zonesOf again = zonesOf after := by
      rw [hzones', hzones, upsert_upsert u.zoneKey_editRoi u.zoneKey_newZone u.editRoi_editRoi
        u.editRoi_newZone]
    rw [RoiUpdate.zonesOf_set hset, RoiUpdate.zonesOf_set hset'] at hsame
    have hmember : after.find? "zones" = some (.arr zones) := by
      rw [Json.find?_set hset, if_pos rfl]
    obtain ⟨members, rfl⟩ := hwellFormed.object
    rw [hagain, ← hset', hsame]
    exact congrArg (fun members => some (Json.obj members)) (Json.setMember_of_lookup hmember)

theorem WellFormed.mem_keys {config' : Json} (hupdate : u.updateConfig config = some config')
    (k : Option (Int32 × String)) : k ∈ (zonesOf config').map zoneKey ↔
      k ∈ (zonesOf config).map zoneKey ∨ k = some u.key := by
  obtain ⟨after, hafter, hzones, -⟩ := h.updateConfig u
  obtain rfl : after = config' := Option.some.inj (hafter.symm.trans hupdate)
  rw [hzones]
  exact mem_map_key_upsert u.zoneKey_editRoi u.zoneKey_newZone (zonesOf config) k

theorem WellFormed.swap {u v : RoiUpdate} (hne : u.key ≠ v.key) :
    ∃ uconfig vconfig uv vu, u.updateConfig config = some uconfig ∧
      v.updateConfig uconfig = some uv ∧ v.updateConfig config = some vconfig ∧
      u.updateConfig vconfig = some vu ∧ SameRois uv vu := by
  obtain ⟨uconfig, hu, -, hwellu⟩ := h.updateConfig u
  obtain ⟨vconfig, hv, -, hwellv⟩ := h.updateConfig v
  obtain ⟨uv, huv, -, -⟩ := hwellu.updateConfig v
  obtain ⟨vu, hvu, -, -⟩ := hwellv.updateConfig u
  refine ⟨uconfig, vconfig, uv, vu, hu, huv, hv, hvu, fun zone_id camera_id => ⟨?_, ?_⟩⟩
  · rw [hwellu.mem_keys v huv, h.mem_keys u hu, hwellv.mem_keys u hvu, h.mem_keys v hv,
      or_right_comm]
  · obtain ⟨hupu, -⟩ := h.upserted u hu
    obtain ⟨hupv, -⟩ := h.upserted v hv
    obtain ⟨hupuv, -⟩ := hwellu.upserted v huv
    obtain ⟨hupvu, -⟩ := hwellv.upserted u hvu
    by_cases hkeyu : (zone_id, camera_id) = u.key
    · rw [hupuv.others _ _ fun hkeyv => hne (hkeyu.symm.trans hkeyv)]
      obtain ⟨rfl, rfl⟩ := Prod.mk.inj hkeyu
      rw [hupu.roi, hupvu.roi]
    · rw [hupvu.others _ _ hkeyu]
      by_cases hkeyv : (zone_id, camera_id) = v.key
      · obtain ⟨rfl, rfl⟩ := Prod.mk.inj hkeyv
        rw [hupuv.roi, hupv.roi]
      · rw [hupuv.others _ _ hkeyv, hupu.others _ _ hkeyu, hupv.others _ _ hkeyv]

end

theorem fileAfter_of_updated {config data config' : Json} {u : RoiUpdate}
    (hdata : roiUpdate data = some u) (hupdate : u.updateConfig config = some config') :
    fileAfter (some config) data = some config' := by
  rw [fileAfter, hdata, Option.bind_some, load_some, hupdate]

theorem fileAfter_of_not_updated {data : Json} (file : Option Json)
    (h : ∀ u ∈ roiUpdate data, u.updateConfig (load file) = none) : fileAfter file data = file := by
  rw [fileAfter]
  cases hdata : roiUpdate data with
  | none => rfl
  | some u => rw [Option.bind_some, h u hdata]

/-- The laws of the update. An accepted command updates its key alone, keeps the configuration well
formed and changes nothing a second time. Two accepted commands with different keys give the same
rois in either order. A command that is rejected, or fails before its save, leaves the file. -/
theorem roi_laws :
    (∀ (config data : Json) (u : RoiUpdate), WellFormed config → roiUpdate data = some u →
      ∃ config', fileAfter (some config) data = some config' ∧ u.Upserted config config' ∧
        fileAfter (some config') data = some config') ∧
    (∀ (config data data' : Json) (u u' : RoiUpdate), WellFormed config →
      roiUpdate data = some u → roiUpdate data' = some u' → u.key ≠ u'.key →
      ∃ after after', fileAfter (fileAfter (some config) data) data' = some after ∧
        fileAfter (fileAfter (some config) data') data = some after' ∧ SameRois after after') ∧
    ∀ (file : Option Json) (data : Json),
      (∀ u ∈ roiUpdate data, u.updateConfig (load file) = none) → fileAfter file data = file := by
  refine ⟨fun config data u h hdata => ?_, fun config data data' u u' h hdata hdata' hne => ?_,
    fun file data h => fileAfter_of_not_updated file h⟩
  · obtain ⟨config', hupdate, -, -⟩ := h.updateConfig u
    obtain ⟨hupserted, hagain⟩ := h.upserted u hupdate
    exact ⟨config', fileAfter_of_updated hdata hupdate, hupserted,
      fileAfter_of_updated hdata hagain⟩
  · obtain ⟨config₁, config₂, after, after', hu, huu', hu', hu'u, hsame⟩ := h.swap hne
    refine ⟨after, after', ?_, ?_, hsame⟩
    · rw [fileAfter_of_updated hdata hu, fileAfter_of_updated hdata' huu']
    · rw [fileAfter_of_updated hdata' hu', fileAfter_of_updated hdata hu'u]

def twoZones : Json :=
  .obj [("zones", .arr [zoneItem 1 "hanwha" [0, 0, 1, 1], zoneItem 5 "CAM_01" [0, 0, 1, 1]])]

theorem zoneKey_zoneItem (zone_id : Int32) (camera_id : String) (x1 y1 x2 y2 : ℚ) :
    zoneKey (zoneItem zone_id camera_id [x1, y1, x2, y2]) = some (zone_id, camera_id) :=
  zoneKey_eq_some_iff.mpr (represents_zoneItem zone_id camera_id x1 y1 x2 y2).key

theorem wellFormed_twoZones : WellFormed twoZones := by
  have hzones : zonesOf twoZones =
      [zoneItem 1 "hanwha" [0, 0, 1, 1], zoneItem 5 "CAM_01" [0, 0, 1, 1]] := rfl
  refine ⟨⟨_, rfl⟩, ?_, ?_⟩
  · simp [hzones, zoneKey_zoneItem]
  · simp [hzones, zoneKey_zoneItem]

def roiMoved : RoiUpdate := ⟨"hanwha", 1, [0, 0, 1, 0.5], by simp, by simp, rfl⟩

def roiAdded : RoiUpdate := ⟨"CAM_03", 9, [0, 0.5, 1, 1], by simp, by simp, rfl⟩

theorem roi_laws_twoZones :
    (∃ config', fileAfter (some twoZones) roiMoved.command = some config' ∧
      roiMoved.Upserted twoZones config' ∧
      fileAfter (some config') roiMoved.command = some config') ∧
    (∃ after after',
      fileAfter (fileAfter (some twoZones) roiMoved.command) roiAdded.command = some after ∧
      fileAfter (fileAfter (some twoZones) roiAdded.command) roiMoved.command = some after' ∧
      SameRois after after') ∧
    fileAfter (some twoZones) .null = some twoZones := by
  have hmoved := roiUpdate_command roiMoved
  have hadded := roiUpdate_command roiAdded
  have hne : roiMoved.key ≠ roiAdded.key := fun h => absurd (congrArg Prod.fst h) (by decide)
  exact ⟨roi_laws.1 _ _ _ wellFormed_twoZones hmoved,
    roi_laws.2.1 _ _ _ _ _ wellFormed_twoZones hmoved hadded hne,
    roi_laws.2.2 _ _ fun u hu => absurd hu (Option.not_mem_none u)⟩

end JeogiAt.Server
