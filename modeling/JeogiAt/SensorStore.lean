import JeogiAt.Library.Json
import JeogiAt.Library.Machine
import Mathlib.Algebra.Order.Field.Rat
import Mathlib.Data.List.Dedup
import Mathlib.Data.List.ReduceOption

/-!
# Temperature and humidity in the server's database

`sensor/temp_humi` messages fill a cache, `sensor/air_quality` messages store a row with what is
in the cache. `get_last_temp_humi` also says whether anything was received, but nobody asks; the
insert statement always has two numbers, which are 0 before the first `sensor/temp_humi` message.

Readings are exact rationals. `column` is what a `FLOAT` column holds of a number that `to_string`
has printed.
-/

namespace JeogiAt.Server

/-- A message on one of the sensor topics, whether the insert that it may cause succeeds, and the
weekday and hour of the row's `recorded_at`. -/
structure SensorMessage where
  topic : String
  data : Json
  insertOk : Bool
  dayOfWeek : ℕ
  hour : ℕ

/-- A row of `air_stats`, without the columns that are the same in all of them. -/
structure AirStats where
  co_level : ℚ
  toxic_gas_level : ℚ
  temperature : Option ℚ
  humidity : Option ℚ
  dayOfWeek : ℕ
  hour : ℕ

structure TempHumiCache where
  g_last_temp : ℚ
  g_last_humi : ℚ
  g_temp_humi_valid : Bool

namespace TempHumiCache

def init : TempHumiCache := ⟨0, 0, false⟩

def getLastTempHumi (c : TempHumiCache) : ℚ × ℚ × Bool :=
  (c.g_last_temp, c.g_last_humi, c.g_temp_humi_valid)

end TempHumiCache

section Store

variable (column : ℚ → ℚ)

/-- `save_sensor_data`: the row, if the insert succeeds. -/
def saveSensorData (m : SensorMessage) (co co2 temp humi : ℚ) : Option AirStats :=
  if m.insertOk then
    some ⟨column co, column co2, some (column temp), some (column humi), m.dayOfWeek, m.hour⟩
  else none

def sensorArrived (c : TempHumiCache) (m : SensorMessage) : TempHumiCache × Option AirStats :=
  let (current_temp, current_humi, _) := c.getLastTempHumi
  if m.topic = "sensor/air_quality" then
    let fields : Option (ℚ × ℚ) := do
      let co ← m.data.value "co" 0 Json.getFloat
      let co2 ← m.data.value "co2" 0 Json.getFloat
      some (co, co2)
    match fields with
    | some (co, co2) => (c, saveSensorData column m co co2 current_temp current_humi)
    | none => (c, none)
  else if m.topic = "sensor/temp_humi" then
    let fields : Option (ℚ × ℚ) := do
      let temp ← m.data.value "temperature" 0 Json.getFloat
      let humi ← m.data.value "humidity" 0 Json.getFloat
      some (temp, humi)
    match fields with
    | some (temp, humi) => (⟨temp, humi, true⟩, none)
    | none => (c, none)
  else (c, none)

def sensorStore : Machine TempHumiCache SensorMessage (Option AirStats) := ⟨sensorArrived column⟩

def SensorMessage.reading (m : SensorMessage) : Option (ℚ × ℚ) :=
  if m.topic = "sensor/temp_humi" then do
    let temp ← (m.data.find? "temperature").bind Json.getFloat
    let humi ← (m.data.find? "humidity").bind Json.getFloat
    some (temp, humi)
  else none

def SensorMessage.WellTyped (m : SensorMessage) : Prop :=
  m.topic = "sensor/temp_humi" → m.reading.isSome

def lastReading (received : List SensorMessage) : Option (ℚ × ℚ) :=
  (received.filterMap SensorMessage.reading).getLast?

/-- A row that holds the last reading received before it, or NULL twice. -/
def AirStats.Truthful (row : AirStats) (received : List SensorMessage) : Prop :=
  row.temperature = (lastReading received).map (fun r => column r.1) ∧
    row.humidity = (lastReading received).map (fun r => column r.2)

theorem lastReading_concat (received : List SensorMessage) (m : SensorMessage) :
    lastReading (received ++ [m]) = m.reading.or (lastReading received) := by
  unfold lastReading
  rw [List.filterMap_append]
  cases hm : m.reading with
  | none =>
    rw [List.filterMap_cons_none hm, List.filterMap_nil, List.append_nil, Option.none_or]
  | some r =>
    rw [List.filterMap_cons_some hm, List.filterMap_nil, List.getLast?_concat, Option.some_or]

theorem value_of_find? {j : Json} {key : String} {x : ℚ}
    (h : (j.find? key).bind Json.getFloat = some x) : j.value key 0 Json.getFloat = some x := by
  obtain ⟨v, hfind, hv⟩ := Option.bind_eq_some_iff.mp h
  cases j with
  | obj members =>
    have hlookup : members.lookup key = some v := hfind
    simp only [Json.value, hlookup, hv]
  | null => cases hfind
  | bool b => cases hfind
  | int n => cases hfind
  | float y => cases hfind
  | str s => cases hfind
  | arr items => cases hfind

theorem next_of_no_reading {m : SensorMessage} (hm : m.WellTyped) (h : m.reading = none)
    (c : TempHumiCache) : (sensorStore column).next c m = c := by
  have htopic : m.topic ≠ "sensor/temp_humi" := fun ht => by
    have := hm ht
    rw [h] at this
    cases this
  unfold Machine.next sensorStore sensorArrived
  dsimp only
  split_ifs
  · split <;> rfl
  · rfl

theorem next_of_reading {m : SensorMessage} {temp humi : ℚ} (h : m.reading = some (temp, humi))
    (c : TempHumiCache) : (sensorStore column).next c m = ⟨temp, humi, true⟩ := by
  unfold SensorMessage.reading at h
  split_ifs at h with htopic
  obtain ⟨t, ht, hrest⟩ := Option.bind_eq_some_iff.mp h
  obtain ⟨u, hu, hpair⟩ := Option.bind_eq_some_iff.mp hrest
  cases hpair
  simp [Machine.next, sensorStore, sensorArrived, htopic, value_of_find? ht, value_of_find? hu]

/-- The cache holds the last reading, and the flag says whether there is one. -/
def TempHumiCache.Holds (c : TempHumiCache) : Option (ℚ × ℚ) → Prop
  | some r => c = ⟨r.1, r.2, true⟩
  | none => c = .init

theorem holds_run {ms : List SensorMessage} (h : ∀ m ∈ ms, m.WellTyped) :
    ((sensorStore column).run .init ms).Holds (lastReading ms) := by
  induction ms using List.reverseRecOn with
  | nil => rfl
  | append_singleton ms m ih =>
    have hms := ih fun m' hm' => h m' (List.mem_append_left [m] hm')
    have hm := h m (List.mem_append_right ms (List.mem_singleton_self m))
    rw [Machine.run_concat, lastReading_concat]
    cases hr : m.reading with
    | none =>
      rw [next_of_no_reading column hm hr, Option.none_or]
      exact hms
    | some r =>
      rw [next_of_reading column hr, Option.some_or]
      exact rfl

theorem output_eq_some {c : TempHumiCache} {m : SensorMessage} {row : AirStats}
    (h : (sensorStore column).output c m = some row) :
    row.temperature = some (column c.g_last_temp) ∧
      row.humidity = some (column c.g_last_humi) := by
  unfold Machine.output sensorStore sensorArrived at h
  dsimp only [TempHumiCache.getLastTempHumi] at h
  split_ifs at h
  · split at h
    · unfold saveSensorData at h
      split_ifs at h
      cases h
      exact ⟨rfl, rfl⟩
    · cases h
  · split at h <;> cases h

def SensorMessage.Stores (m : SensorMessage) : Prop :=
  m.topic = "sensor/air_quality" ∧ (m.data.value "co" 0 Json.getFloat).isSome ∧
    (m.data.value "co2" 0 Json.getFloat).isSome ∧ m.insertOk = true

theorem output_isSome_iff (c : TempHumiCache) (m : SensorMessage) :
    ((sensorStore column).output c m).isSome ↔ m.Stores := by
  unfold Machine.output sensorStore sensorArrived SensorMessage.Stores
  dsimp only [TempHumiCache.getLastTempHumi]
  by_cases htopic : m.topic = "sensor/air_quality"
  · cases m.data.value "co" 0 Json.getFloat with
    | none => simp [htopic]
    | some co =>
      cases m.data.value "co2" 0 Json.getFloat with
      | none => simp [htopic]
      | some co2 => simp [htopic, saveSensorData]
  · rw [if_neg htopic]
    refine iff_of_false (fun h => ?_) fun h => htopic h.1
    split_ifs at h
    · split at h <;> cases h
    · cases h

def StoresValid (c : TempHumiCache) (m : SensorMessage) : Prop :=
  m.Stores → c.g_temp_humi_valid = true

theorem truthful_iff {received : List SensorMessage} (h : ∀ m ∈ received, m.WellTyped)
    (m : SensorMessage) :
    (∀ row ∈ (sensorStore column).output ((sensorStore column).run .init received) m,
        row.Truthful column received) ↔
      StoresValid ((sensorStore column).run .init received) m := by
  have hholds := holds_run column h
  rw [StoresValid, ← output_isSome_iff column ((sensorStore column).run .init received)]
  cases hout : (sensorStore column).output ((sensorStore column).run .init received) m with
  | none => exact iff_of_true (fun _ hrow => (by cases hrow)) fun hsome => (by cases hsome)
  | some row =>
    obtain ⟨htemp, hhumi⟩ := output_eq_some column hout
    simp only [Option.mem_def, Option.some.injEq, forall_eq', Option.isSome_some, forall_const,
      AirStats.Truthful, htemp, hhumi]
    cases hlast : lastReading received with
    | none =>
      rw [hlast] at hholds
      rw [show (sensorStore column).run .init received = .init from hholds]
      simp [TempHumiCache.init]
    | some r =>
      rw [hlast] at hholds
      rw [show (sensorStore column).run .init received = ⟨r.1, r.2, true⟩ from hholds]
      simp

structure TempHumiStat where
  day : ℕ
  hour : ℕ
  temp : ℚ
  humi : ℚ

def average (values : List ℚ) : ℚ := values.sum / values.length

/-- The two readings of a row that passes `IS NOT NULL` twice. -/
def AirStats.notNull (row : AirStats) : Option (ℚ × ℚ) := do
  let temp ← row.temperature
  let humi ← row.humidity
  some (temp, humi)

def AirStats.group (row : AirStats) : ℕ × ℕ := (row.dayOfWeek, row.hour)

/-- What `get_temp_humi_stats` averages for a weekday and an hour. -/
def averaged (rows : List AirStats) (group : ℕ × ℕ) : List (ℚ × ℚ) :=
  (rows.filter fun row => row.group = group).filterMap AirStats.notNull

def getTempHumiStats (queryOk : Bool) (rows : List AirStats) : List TempHumiStat :=
  if queryOk then
    let groups := ((rows.filter fun row => row.notNull.isSome).map AirStats.group).dedup
    groups.map fun group =>
      let values := averaged rows group
      ⟨group.1, group.2, average (values.map Prod.fst), average (values.map Prod.snd)⟩
  else []

def storedRows (ms : List SensorMessage) : List AirStats :=
  ((sensorStore column).trace .init ms).reduceOption

def TempHumiStat.AveragesReceived (item : TempHumiStat) (received : List SensorMessage) : Prop :=
  ∃ readings : List (ℚ × ℚ), readings ≠ [] ∧
    (∀ r ∈ readings, ∃ m ∈ received, m.reading = some r) ∧
    item.temp = average (readings.map fun r => column r.1) ∧
    item.humi = average (readings.map fun r => column r.2)

theorem mem_of_lastReading {received : List SensorMessage} {r : ℚ × ℚ}
    (h : lastReading received = some r) : ∃ m ∈ received, m.reading = some r :=
  List.mem_filterMap.mp (List.mem_of_getLast? h)

theorem reading_of_stored {ms : List SensorMessage} (h : ∀ m ∈ ms, m.WellTyped)
    (hgood : (sensorStore column).Along StoresValid .init ms) {row : AirStats}
    (hrow : row ∈ storedRows column ms) :
    ∃ m ∈ ms, ∃ r, m.reading = some r ∧ row.notNull = some (column r.1, column r.2) := by
  induction ms using List.reverseRecOn with
  | nil => cases hrow
  | append_singleton ms m ih =>
    have hms : ∀ m' ∈ ms, m'.WellTyped := fun m' hm' => h m' (List.mem_append_left [m] hm')
    rw [Machine.along_concat] at hgood
    rw [storedRows, Machine.trace_concat, List.reduceOption_append, List.mem_append] at hrow
    rcases hrow with hrow | hrow
    · obtain ⟨m', hm', hread⟩ := ih hms hgood.1 hrow
      exact ⟨m', List.mem_append_left [m] hm', hread⟩
    · have hout : (sensorStore column).output ((sensorStore column).run .init ms) m = some row :=
        (List.mem_singleton.mp (List.reduceOption_mem_iff.mp hrow)).symm
      obtain ⟨htemp, hhumi⟩ := (truthful_iff column hms m).mpr hgood.2 row hout
      obtain ⟨htemp', hhumi'⟩ := output_eq_some column hout
      cases hlast : lastReading ms with
      | none =>
        rw [hlast, htemp'] at htemp
        cases htemp
      | some r =>
        obtain ⟨m', hm', hread⟩ := mem_of_lastReading hlast
        rw [hlast] at htemp hhumi
        refine ⟨m', List.mem_append_left [m] hm', r, hread, ?_⟩
        rw [AirStats.notNull, htemp, hhumi]
        rfl

theorem exists_readings {received : List SensorMessage} {values : List (ℚ × ℚ)}
    (h : ∀ v ∈ values, ∃ m ∈ received, ∃ r, m.reading = some r ∧ v = (column r.1, column r.2)) :
    ∃ readings : List (ℚ × ℚ), (∀ r ∈ readings, ∃ m ∈ received, m.reading = some r) ∧
      values = readings.map fun r => (column r.1, column r.2) := by
  induction values with
  | nil => exact ⟨[], fun _ hr => absurd hr List.not_mem_nil, rfl⟩
  | cons v values ih =>
    obtain ⟨⟨m, hm, r, hread, rfl⟩, hrest⟩ := List.forall_mem_cons.mp h
    obtain ⟨readings, hreadings, rfl⟩ := ih hrest
    exact ⟨r :: readings, List.forall_mem_cons.mpr ⟨⟨m, hm, hread⟩, hreadings⟩, rfl⟩

theorem averaged_ne_nil {rows : List AirStats} {group : ℕ × ℕ}
    (h : group ∈ (rows.filter fun row => row.notNull.isSome).map AirStats.group) :
    averaged rows group ≠ [] := by
  obtain ⟨row, hrow, rfl⟩ := List.mem_map.mp h
  obtain ⟨hmem, hsome⟩ := List.mem_filter.mp hrow
  obtain ⟨v, hv⟩ := Option.isSome_iff_exists.mp hsome
  apply List.ne_nil_of_mem (a := v)
  exact List.mem_filterMap.mpr ⟨row, List.mem_filter.mpr ⟨hmem, decide_eq_true rfl⟩, hv⟩

theorem averagesReceived {ms : List SensorMessage} (h : ∀ m ∈ ms, m.WellTyped)
    (hgood : (sensorStore column).Along StoresValid .init ms) (queryOk : Bool)
    {item : TempHumiStat} (hitem : item ∈ getTempHumiStats queryOk (storedRows column ms)) :
    item.AveragesReceived column ms := by
  unfold getTempHumiStats at hitem
  split_ifs at hitem
  · obtain ⟨group, hgroup, rfl⟩ := List.mem_map.mp hitem
    have hne := averaged_ne_nil (List.mem_dedup.mp hgroup)
    obtain ⟨readings, hreadings, hvalues⟩ :=
        @exists_readings column ms (averaged (storedRows column ms) group) fun v hv => by
      obtain ⟨row, hrow, hnotNull⟩ := List.mem_filterMap.mp hv
      obtain ⟨m, hm, r, hread, hr⟩ :=
        reading_of_stored column h hgood (List.mem_filter.mp hrow).1
      exact ⟨m, hm, r, hread, Option.some.inj (hnotNull.symm.trans hr)⟩
    rw [hvalues] at hne
    refine ⟨readings, fun he => hne (by rw [he]; rfl), hreadings, ?_, ?_⟩
    · dsimp only
      rw [hvalues, List.map_map]
      rfl
    · dsimp only
      rw [hvalues, List.map_map]
      rfl
  · cases hitem

/-- Every row stored holds the last temperature and humidity received before it, or NULL, exactly
when no row is stored before the first `sensor/temp_humi` message. Then the statistics average
received readings only. -/
theorem sensor_rows_iff {ms : List SensorMessage} (h : ∀ m ∈ ms, m.WellTyped) :
    ((∀ received m, received ++ [m] <+: ms →
        ∀ row ∈ (sensorStore column).output ((sensorStore column).run .init received) m,
          row.Truthful column received) ↔
      (sensorStore column).Along StoresValid .init ms) ∧
    ((sensorStore column).Along StoresValid .init ms → ∀ queryOk,
      ∀ item ∈ getTempHumiStats queryOk (storedRows column ms),
        item.AveragesReceived column ms) := by
  refine ⟨?_, fun hgood queryOk item hitem => averagesReceived column h hgood queryOk hitem⟩
  rw [Machine.along_iff_forall_prefix]
  refine forall₂_congr fun received m => forall_congr' fun hp => ?_
  apply truthful_iff
  exact fun m' hm' => h m' (hp.subset (List.mem_append_left [m] hm'))

end Store

def airQuality (co co2 : ℚ) : SensorMessage :=
  ⟨"sensor/air_quality", .obj [("co", .float co), ("co2", .float co2)], true, 1, 0⟩

def tempHumi (temp humi : ℚ) : SensorMessage :=
  ⟨"sensor/temp_humi", .obj [("temperature", .float temp), ("humidity", .float humi)], true, 1, 0⟩

theorem reading_tempHumi (temp humi : ℚ) : (tempHumi temp humi).reading = some (temp, humi) := by
  simp [SensorMessage.reading, tempHumi, Json.find?, Json.lookup_cons_eq, Json.getFloat]

theorem stores_airQuality (co co2 : ℚ) : (airQuality co co2).Stores := by
  simp [SensorMessage.Stores, airQuality, Json.value, Json.lookup_cons_eq, Json.getFloat]

/-- Humidity and temperature first, then gas. -/
theorem sensor_rows_filled :
    (sensorStore id).Along StoresValid .init [tempHumi 21 45, airQuality 2 410] ∧
      ∀ item ∈ getTempHumiStats true (storedRows id [tempHumi 21 45, airQuality 2 410]),
        item.AveragesReceived id [tempHumi 21 45, airQuality 2 410] := by
  have hair : (airQuality 2 410).topic ≠ "sensor/temp_humi" := by decide
  have hnext := next_of_reading id (reading_tempHumi 21 45) .init
  have hgood : (sensorStore id).Along StoresValid .init [tempHumi 21 45, airQuality 2 410] := by
    refine ⟨fun hs => absurd hs.1 (by decide), ?_, trivial⟩
    rw [hnext]
    exact fun _ => rfl
  refine ⟨hgood, (sensor_rows_iff id ?_).2 hgood true⟩
  simp only [List.forall_mem_cons, List.not_mem_nil, false_imp_iff, implies_true, and_true]
  exact ⟨fun _ => by rw [reading_tempHumi]; rfl, fun ht => absurd ht hair⟩

/-- A gas message that comes first stores two zeros. -/
theorem airQuality_first_stores_zero :
    ¬ ∀ (column : ℚ → ℚ) (ms : List SensorMessage), (∀ m ∈ ms, m.WellTyped) →
      ∀ received m, received ++ [m] <+: ms →
        ∀ row ∈ (sensorStore column).output ((sensorStore column).run .init received) m,
          row.Truthful column received := by
  intro hall
  have hrow := hall id [airQuality 2 410] (fun m hm => by
    rw [List.mem_singleton.mp hm]
    exact fun ht => absurd ht (by decide)) [] (airQuality 2 410) List.prefix_rfl
  have hvalid := (truthful_iff id (fun m hm => absurd hm List.not_mem_nil) (airQuality 2 410)).mp
    hrow (stores_airQuality 2 410)
  cases hvalid

end JeogiAt.Server
