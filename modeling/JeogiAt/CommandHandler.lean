import JeogiAt.CongestionAnalyzer
import JeogiAt.Library.Json

/-!
# The `roi_update` command and the zones of `config.json`

`roiUpdate` is the part of `handle_qt_command` that reads the command, and `updateConfig` what it
does to the configuration: the roi of the first zone with the command's key is replaced, or a zone
is appended. `loadConfig` is what the analyzer makes of a configuration. Texts that do not parse
never get here, and `none` stands for the exceptions.

On configurations whose zones are well formed these are operations on the list of zones.
-/

namespace JeogiAt.Server

structure RoiUpdate where
  camera_id : String
  zone_id : Int32
  roi : List ℚ
  camera_id_ne : camera_id ≠ ""
  zone_id_ne : zone_id ≠ -1
  length_roi : roi.length = 4

/-- `handle_qt_command` up to that test. -/
def roiUpdate (data : Json) : Option RoiUpdate := do
  let type ← data.value "type" "" Json.getString
  if type = "roi_update" then
    let payload ← data.value "data" (.obj []) some
    let camera_id ← payload.value "camera_id" "" Json.getString
    let zone_id ← payload.value "zone_id" (-1) Json.getInt
    let roi ← payload.value "roi" [] Json.getFloats
    if h : camera_id = "" ∨ zone_id = -1 ∨ roi.length ≠ 4 then none
    else
      some ⟨camera_id, zone_id, roi, fun he => h (.inl he), fun he => h (.inr (.inl he)),
        by_contra fun he => h (.inr (.inr he))⟩
  else none

def RoiUpdate.command (u : RoiUpdate) : Json :=
  .obj [("type", .str "roi_update"), ("data", .obj [("camera_id", .str u.camera_id),
    ("zone_id", .int u.zone_id.toInt), ("roi", .arr (u.roi.map .float))])]

theorem roiUpdate_command (u : RoiUpdate) : roiUpdate u.command = some u := by
  have hroi : (Json.arr (u.roi.map .float)).getFloats = some u.roi := Json.getFloats_floats u.roi
  have hid : (Json.int u.zone_id.toInt).getInt = some u.zone_id := Json.getInt_toInt u.zone_id
  have htest : ¬(u.camera_id = "" ∨ u.zone_id = -1 ∨ u.roi.length ≠ 4) := by
    rintro (hcamera | hzone | hlength)
    · exact u.camera_id_ne hcamera
    · exact u.zone_id_ne hzone
    · exact hlength u.length_roi
  simp [roiUpdate, RoiUpdate.command, Json.value, Json.getString, Json.lookup_cons_eq, hroi, hid,
    htest]

/-- `ConfigManager::load`, of a file that may not parse. -/
def load (file : Option Json) : Json := file.getD (.obj [])

@[simp] theorem load_some (config : Json) : load (some config) = config := rfl

/-- The zones of a configuration, none if it has no array of them. -/
def zonesOf (config : Json) : List Json :=
  match config.find? "zones" with
  | some (.arr zones) => zones
  | _ => []

/-- The test of the loop over the zones. -/
def hasKey (camera_id : String) (zone_id : Int32) (zone : Json) : Option Bool :=
  match zone.value "zone_id" (-1) Json.getInt with
  | some id =>
      if id = zone_id then (zone.value "camera_id" "" Json.getString).map (decide <| · = camera_id)
      else some false
  | none => none

namespace RoiUpdate

variable (u : RoiUpdate)

def roiJson : Json := .arr (u.roi.map .float)

def newZone : Json :=
  .obj [("zone_id", .int u.zone_id.toInt), ("camera_id", .str u.camera_id), ("roi", u.roiJson)]

def upsert : List Json → Option (List Json)
  | [] => some [u.newZone]
  | zone :: zones =>
      match hasKey u.camera_id u.zone_id zone with
      | some true => (zone.set "roi" u.roiJson).map (· :: zones)
      | some false => (upsert zones).map (zone :: ·)
      | none => none

def updateConfig (config : Json) : Option Json :=
  (u.upsert (zonesOf config)).bind fun zones => config.set "zones" (.arr zones)

end RoiUpdate

/-- The stored roi of a key: that of the first zone with it. -/
def storedRoi (camera_id : String) (zone_id : Int32) : List Json → Option Json
  | [] => none
  | zone :: zones =>
      if hasKey camera_id zone_id zone = some true then zone.find? "roi"
      else storedRoi camera_id zone_id zones

theorem hasKey_eq_true_iff {camera_id : String} {zone_id : Int32} {zone : Json} :
    hasKey camera_id zone_id zone = some true ↔
      zone.value "zone_id" (-1) Json.getInt = some zone_id ∧
        zone.value "camera_id" "" Json.getString = some camera_id := by
  unfold hasKey
  cases zone.value "zone_id" (-1) Json.getInt with
  | none => simp
  | some id => by_cases hid : id = zone_id <;> simp [hid]

theorem exists_obj_of_hasKey {camera_id : String} {zone_id : Int32} {zone : Json}
    (h : hasKey camera_id zone_id zone = some true) : ∃ members, zone = .obj members :=
  Json.exists_obj_of_value (hasKey_eq_true_iff.mp h).1

theorem hasKey_set_roi (camera_id : String) (zone_id : Int32) (v : Json)
    (members : List (String × Json)) :
    hasKey camera_id zone_id (.obj (Json.setMember "roi" v members)) =
      hasKey camera_id zone_id (.obj members) := by
  have hid : "zone_id" ≠ "roi" := by decide
  have hcamera : "camera_id" ≠ "roi" := by decide
  rw [hasKey, hasKey, Json.value_setMember hid, Json.value_setMember hcamera]

namespace RoiUpdate

variable (u : RoiUpdate)

theorem hasKey_newZone (camera_id : String) (zone_id : Int32) :
    hasKey camera_id zone_id u.newZone =
      some (decide (u.zone_id = zone_id ∧ u.camera_id = camera_id)) := by
  have hid : u.newZone.value "zone_id" (-1) Json.getInt = some u.zone_id :=
    Json.getInt_toInt u.zone_id
  have hcamera : u.newZone.value "camera_id" "" Json.getString = some u.camera_id := rfl
  rw [hasKey, hid, hcamera]
  by_cases h : u.zone_id = zone_id
  · simp [h]
  · simp [h]

variable {u}

theorem storedRoi_upsert_self {zones zones' : List Json} (h : u.upsert zones = some zones') :
    storedRoi u.camera_id u.zone_id zones' = some u.roiJson := by
  induction zones generalizing zones' with
  | nil =>
    cases h
    rw [storedRoi, hasKey_newZone, if_pos (by simp)]
    rfl
  | cons zone zones ih =>
    rw [upsert] at h
    split at h
    · rename_i hkey
      obtain ⟨members, rfl⟩ := exists_obj_of_hasKey hkey
      cases h
      rw [storedRoi, hasKey_set_roi, if_pos hkey]
      exact (Json.lookup_setMember _ _ _ _).trans (if_pos rfl)
    · rename_i hkey
      obtain ⟨rest, hrest, rfl⟩ := Option.map_eq_some_iff.mp h
      rw [storedRoi, if_neg (by rw [hkey]; decide), ih hrest]
    · cases h

theorem storedRoi_upsert_other {zones zones' : List Json} (h : u.upsert zones = some zones')
    {camera_id : String} {zone_id : Int32}
    (hne : ¬(u.zone_id = zone_id ∧ u.camera_id = camera_id)) :
    storedRoi camera_id zone_id zones' = storedRoi camera_id zone_id zones := by
  induction zones generalizing zones' with
  | nil =>
    cases h
    exact if_neg (by rw [hasKey_newZone]; simpa using hne)
  | cons zone zones ih =>
    rw [upsert] at h
    split at h
    · rename_i hkey
      obtain ⟨members, rfl⟩ := exists_obj_of_hasKey hkey
      cases h
      have hother : hasKey camera_id zone_id (.obj members) ≠ some true := by
        intro hboth
        obtain ⟨hid, hcamera⟩ := hasKey_eq_true_iff.mp hkey
        obtain ⟨hid', hcamera'⟩ := hasKey_eq_true_iff.mp hboth
        rw [hid, Option.some_inj] at hid'
        rw [hcamera, Option.some_inj] at hcamera'
        exact hne ⟨hid', hcamera'⟩
      rw [storedRoi, hasKey_set_roi, if_neg hother, storedRoi, if_neg hother]
    · obtain ⟨rest, hrest, rfl⟩ := Option.map_eq_some_iff.mp h
      rw [storedRoi, storedRoi, ih hrest]
    · cases h

theorem updateConfig_eq_some {config config' : Json} (h : u.updateConfig config = some config') :
    ∃ zones, u.upsert (zonesOf config) = some zones ∧
      config.set "zones" (.arr zones) = some config' :=
  Option.bind_eq_some_iff.mp h

theorem zonesOf_set {config config' : Json} {zones : List Json}
    (h : config.set "zones" (.arr zones) = some config') : zonesOf config' = zones := by
  rw [zonesOf, Json.find?_set h, if_pos rfl]

theorem find?_updateConfig {config config' : Json} (h : u.updateConfig config = some config')
    {key : String} (hkey : key ≠ "zones") : config'.find? key = config.find? key := by
  obtain ⟨zones, -, hset⟩ := updateConfig_eq_some h
  rw [Json.find?_set hset, if_neg hkey]

theorem zonesOf_updateConfig {config config' : Json} (h : u.updateConfig config = some config') :
    u.upsert (zonesOf config) = some (zonesOf config') := by
  obtain ⟨zones, hupsert, hset⟩ := updateConfig_eq_some h
  rw [zonesOf_set hset, hupsert]

end RoiUpdate

def roiAt (item : Json) (i : ℕ) : Option ℚ :=
  match item.find? "roi" with
  | some (.arr roi) => roi[i]?.bind Json.getFloat
  | _ => none

/-- One pass of the loop of `loadConfig`. -/
def parseZone (item : Json) : Option ZoneConfig := do
  let zone_id ← item.value "zone_id" 0 Json.getInt
  let camera_id ← item.value "camera_id" "" Json.getString
  let x1 ← roiAt item 0
  let y1 ← roiAt item 1
  let x2 ← roiAt item 2
  let y2 ← roiAt item 3
  some ⟨zone_id, camera_id, x1, y1, x2, y2⟩

/-- The loop: the zones pushed, and whether it came to its end. -/
def parseZones : List Json → List ZoneConfig × Bool
  | [] => ([], true)
  | item :: items =>
      match parseZone item with
      | some zone => (zone :: (parseZones items).1, (parseZones items).2)
      | none => ([], false)

/-- `loadConfig`: the new `m_zones`, and whether it returns. -/
def loadConfig (config : Json) : List ZoneConfig × Bool := parseZones (zonesOf config)

def zoneItem (zone_id : Int32) (camera_id : String) (roi : List ℚ) : Json :=
  .obj [("zone_id", .int zone_id.toInt), ("camera_id", .str camera_id),
    ("roi", .arr (roi.map .float))]

def defaultItems : List Json :=
  [zoneItem 1 "hanwha" [0.0, 0.0, 0.25, 1.0], zoneItem 2 "hanwha" [0.25, 0.0, 0.50, 1.0],
    zoneItem 3 "hanwha" [0.50, 0.0, 0.75, 1.0], zoneItem 4 "hanwha" [0.75, 0.0, 1.0, 1.0],
    zoneItem 5 "CAM_01" [0.0, 0.0, 0.5, 1.0], zoneItem 6 "CAM_01" [0.5, 0.0, 1.0, 1.0],
    zoneItem 7 "CAM_02" [0.0, 0.0, 0.5, 1.0], zoneItem 8 "CAM_02" [0.5, 0.0, 1.0, 1.0]]

/-- `config["zones"].empty()` -/
def isEmpty : Json → Bool
  | .null => true
  | .arr items => items.isEmpty
  | .obj members => members.isEmpty
  | _ => false

def needsDefaults (config : Json) : Bool :=
  match config.find? "zones" with
  | none => true
  | some zones => isEmpty zones

/-- `init_default_rois` on the configuration loaded: what is in the file afterwards. -/
def initDefaultRois (config : Json) : Option Json :=
  if needsDefaults config then config.set "zones" (.arr defaultItems) else some config

/-- A command handled alone: the configuration in the file after it. -/
def handleRoiUpdate (config data : Json) : Json :=
  ((roiUpdate data).bind (RoiUpdate.updateConfig · config)).getD config

namespace RoiUpdate

variable (u : RoiUpdate)

def zone : ZoneConfig :=
  ⟨u.zone_id, u.camera_id, u.roi.getD 0 0, u.roi.getD 1 0, u.roi.getD 2 0, u.roi.getD 3 0⟩

def upsertZones : List ZoneConfig → List ZoneConfig
  | [] => [u.zone]
  | z :: zones =>
      if z.zone_id = u.zone_id ∧ z.camera_id = u.camera_id then u.zone :: zones
      else z :: upsertZones zones

end RoiUpdate

/-- An item of the array that stands for a zone, its key written out. -/
structure Represents (item : Json) (z : ZoneConfig) : Prop where
  key : hasKey z.camera_id z.zone_id item = some true
  parse : parseZone item = some z

theorem parseZones_represents {items : List Json} {zones : List ZoneConfig}
    (h : List.Forall₂ Represents items zones) : parseZones items = (zones, true) := by
  induction h with
  | nil => rfl
  | cons hitem _ ih => rw [parseZones, hitem.parse, ih]

theorem parseZone_eq_some {item : Json} {z : ZoneConfig} (h : parseZone item = some z) :
    item.value "zone_id" 0 Json.getInt = some z.zone_id ∧
      item.value "camera_id" "" Json.getString = some z.camera_id := by
  simp only [parseZone, Option.bind_eq_bind, Option.bind_eq_some_iff, Option.some.injEq] at h
  obtain ⟨zone_id, hid, camera_id, hcamera, x1, -, y1, -, x2, -, y2, -, rfl⟩ := h
  exact ⟨hid, hcamera⟩

theorem hasKey_represents {item : Json} {z : ZoneConfig} (h : Represents item z)
    (camera_id : String) (zone_id : Int32) : hasKey camera_id zone_id item =
      some (decide (z.zone_id = zone_id ∧ z.camera_id = camera_id)) := by
  obtain ⟨hid, hcamera⟩ := hasKey_eq_true_iff.mp h.key
  rw [hasKey, hid, hcamera]
  by_cases heq : z.zone_id = zone_id
  · simp [heq]
  · simp [heq]

theorem represents_zoneItem (zone_id : Int32) (camera_id : String) (x1 y1 x2 y2 : ℚ) :
    Represents (zoneItem zone_id camera_id [x1, y1, x2, y2])
      ⟨zone_id, camera_id, x1, y1, x2, y2⟩ := by
  have hid (default : Int32) :
      (zoneItem zone_id camera_id [x1, y1, x2, y2]).value "zone_id" default Json.getInt =
        some zone_id := Json.getInt_toInt zone_id
  refine ⟨hasKey_eq_true_iff.mpr ⟨hid _, rfl⟩, ?_⟩
  rw [parseZone, hid]
  rfl

theorem represents_defaultItems : List.Forall₂ Represents defaultItems defaultZones := by
  refine .cons ?_ (.cons ?_ (.cons ?_ (.cons ?_ (.cons ?_ (.cons ?_ (.cons ?_ (.cons ?_ .nil)))))))
  all_goals exact represents_zoneItem _ _ _ _ _ _

namespace RoiUpdate

variable {u : RoiUpdate}

theorem roi_eq (u : RoiUpdate) : ∃ x1 y1 x2 y2, u.roi = [x1, y1, x2, y2] :=
  List.length_eq_four.mp u.length_roi

theorem represents_newZone : Represents u.newZone u.zone := by
  obtain ⟨x1, y1, x2, y2, hroi⟩ := u.roi_eq
  have hnew : u.newZone = zoneItem u.zone_id u.camera_id [x1, y1, x2, y2] := by
    rw [newZone, roiJson, hroi]
    rfl
  have hzone : u.zone = ⟨u.zone_id, u.camera_id, x1, y1, x2, y2⟩ := by
    rw [zone, hroi]
    rfl
  rw [hnew, hzone]
  exact represents_zoneItem _ _ _ _ _ _

theorem represents_set_roi {members : List (String × Json)} {z : ZoneConfig}
    (h : Represents (.obj members) z) (hid : z.zone_id = u.zone_id)
    (hcamera : z.camera_id = u.camera_id) :
    Represents (.obj (Json.setMember "roi" u.roiJson members)) u.zone := by
  obtain ⟨x1, y1, x2, y2, hroi⟩ := u.roi_eq
  obtain ⟨hvalue, hname⟩ := parseZone_eq_some h.parse
  have hat (i : ℕ) : roiAt (.obj (Json.setMember "roi" u.roiJson members)) i =
      ([x1, y1, x2, y2] : List ℚ)[i]? := by
    have hfind : (Json.obj (Json.setMember "roi" u.roiJson members)).find? "roi" =
        some u.roiJson := (Json.lookup_setMember _ _ _ _).trans (if_pos rfl)
    rw [roiAt, hfind, roiJson, hroi]
    simp only [List.getElem?_map, Option.bind_map]
    exact Option.bind_fun_some _
  constructor
  · rw [hasKey_set_roi]
    have hkey := h.key
    rwa [hid, hcamera] at hkey
  · rw [parseZone, Json.value_setMember (by decide), Json.value_setMember (by decide), hvalue,
      hname, hat, hat, hat, hat, zone, hroi, hid, hcamera]
    rfl

/-- On well-formed zones an update succeeds, and does to them what `upsertZones` says. -/
theorem upsert_represents {items : List Json} {zones : List ZoneConfig}
    (h : List.Forall₂ Represents items zones) :
    ∃ items', u.upsert items = some items' ∧
      List.Forall₂ Represents items' (u.upsertZones zones) := by
  induction h with
  | nil => exact ⟨_, rfl, .cons represents_newZone .nil⟩
  | @cons item z items zones hitem hitems ih =>
    rw [upsert, upsertZones, hasKey_represents hitem]
    by_cases hkey : z.zone_id = u.zone_id ∧ z.camera_id = u.camera_id
    · obtain ⟨members, rfl⟩ := exists_obj_of_hasKey hitem.key
      rw [if_pos hkey, decide_eq_true hkey]
      exact ⟨_, rfl, .cons (represents_set_roi hitem hkey.1 hkey.2) hitems⟩
    · obtain ⟨items', hupsert, hrest⟩ := ih
      rw [if_neg hkey, decide_eq_false hkey, hupsert]
      exact ⟨_, rfl, .cons hitem hrest⟩

end RoiUpdate

structure HasZones (config : Json) (zones : List ZoneConfig) : Prop where
  isObj : ∃ members, config = .obj members
  represents : List.Forall₂ Represents (zonesOf config) zones

theorem HasZones.loadConfig {config : Json} {zones : List ZoneConfig} (h : HasZones config zones) :
    loadConfig config = (zones, true) := parseZones_represents h.represents

theorem hasZones_initDefaultRois {config start : Json} (hneeds : needsDefaults config = true)
    (h : initDefaultRois config = some start) : HasZones start defaultZones := by
  rw [initDefaultRois, if_pos hneeds] at h
  refine ⟨Json.exists_obj_of_set h, ?_⟩
  rw [RoiUpdate.zonesOf_set h]
  exact represents_defaultItems

theorem hasZones_updateConfig {config : Json} {zones : List ZoneConfig}
    (h : HasZones config zones) (u : RoiUpdate) :
    ∃ config', u.updateConfig config = some config' ∧ HasZones config' (u.upsertZones zones) := by
  obtain ⟨members, rfl⟩ := h.isObj
  obtain ⟨items, hupsert, hitems⟩ := RoiUpdate.upsert_represents (u := u) h.represents
  refine ⟨.obj (Json.setMember "zones" (.arr items) members), ?_, ⟨_, rfl⟩, ?_⟩
  · rw [RoiUpdate.updateConfig, hupsert]
    rfl
  · rwa [@RoiUpdate.zonesOf_set (.obj members) _ items rfl]

end JeogiAt.Server
