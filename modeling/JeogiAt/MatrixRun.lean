import Mathlib.Algebra.Order.Ring.Rat
import Mathlib.Tactic.SplitIfs

/-!
# The matrix display

`matrix_run.c` cycles through the dashboard, the gas screen and the climate screen, interrupted by a
train screen. The commands set its variables, and `matrixRun` is called once in each turn of the
main loop with the current tick. The panel is blank after `HUB75_Clear` and shows what the last
drawing function put there.

The cycle leaves the train screen alone; only the end of a train event returns from it. With the
cycle on and no event the train screen is a `DeadEnd`, and a call of `matrixRun` neither enters nor
leaves one.
-/

namespace JeogiAt.Display

def screenDashboard : UInt8 := 0
def screenCo2 : UInt8 := 1
def screenTempHum : UInt8 := 2
def screenTrain : UInt8 := 3

def dashboardRefreshMs : UInt32 := 5000
def trainAnimRefreshMs : UInt32 := 120
def dashboardGuideToggleMs : UInt32 := 2000
def trainEventShowMs : UInt32 := 10000

def dashboardShowMs : UInt32 := 10000
def gasShowMs : UInt32 := 5000
def tempHumShowMs : UInt32 := 5000

structure DbData where
  co_val : ℚ
  co2_val : ℚ
  temp_val : ℚ
  hum_val : ℚ

def DbData.setSensorValues (d : DbData) (co co2 : ℚ) : DbData :=
  { d with co_val := co, co2_val := co2 }

def DbData.setTempHumValues (d : DbData) (temp hum : ℚ) : DbData :=
  { d with temp_val := temp, hum_val := hum }

inductive Picture
  | statusRow (status : Vector UInt8 8) (guide_mode : Bool)
  | co2 (data : DbData)
  | tempHum (data : DbData)
  | train (train_dest_code : UInt8) (x_offset : Int8)

structure MatrixRun where
  congestion_status : Vector UInt8 8
  dashboard_dirty : Bool
  current_screen : UInt8
  auto_cycle_enabled : Bool
  train_dest_code : UInt8
  train_event_active : Bool
  dashboard_guide_mode : Bool
  train_text_offset_x : Int8
  train_text_offset_dir : Int8
  last_refresh_tick : UInt32
  last_switch_tick : UInt32
  last_dashboard_mode_tick : UInt32
  train_event_start_tick : UInt32
  panel : Option Picture

namespace MatrixRun

def boot : MatrixRun where
  congestion_status := #v[2, 0, 1, 1, 0, 2, 1, 0]
  dashboard_dirty := true
  current_screen := 0
  auto_cycle_enabled := true
  train_dest_code := 0
  train_event_active := false
  dashboard_guide_mode := false
  train_text_offset_x := 0
  train_text_offset_dir := 1
  last_refresh_tick := 0
  last_switch_tick := 0
  last_dashboard_mode_tick := 0
  train_event_start_tick := 0
  panel := none

/-- `HUB75_Clear` -/
def clear (s : MatrixRun) : MatrixRun := { s with panel := none }

def showDashboard (s : MatrixRun) : MatrixRun :=
  { s with panel := some (.statusRow s.congestion_status s.dashboard_guide_mode) }

def matrixRunInit (s : MatrixRun) (tick tick' tick'' : UInt32) : MatrixRun :=
  { s.showDashboard with
    dashboard_dirty := false
    current_screen := screenDashboard
    auto_cycle_enabled := true
    dashboard_guide_mode := false
    last_refresh_tick := tick
    last_switch_tick := tick'
    last_dashboard_mode_tick := tick'' }

/-- A train event brings up its screen. The second component is `screen_changed`. -/
def enterTrain (s : MatrixRun) (now : UInt32) : MatrixRun × Bool :=
  if s.current_screen ≠ screenTrain then
    ({ s.clear with
        current_screen := screenTrain
        last_switch_tick := now
        last_refresh_tick := 0 }, true)
  else (s, false)

/-- The end of a train event, which returns to the dashboard if the cycle is on. -/
def expireTrain (s : MatrixRun) (now : UInt32) : MatrixRun × Bool :=
  if trainEventShowMs ≤ now - s.train_event_start_tick then
    let s := { s with train_event_active := false }
    if s.auto_cycle_enabled then
      ({ s.clear with
          current_screen := screenDashboard
          dashboard_dirty := true
          dashboard_guide_mode := false
          last_dashboard_mode_tick := now
          last_switch_tick := now }, true)
    else (s, false)
  else (s, false)

def trainEvent (s : MatrixRun) (now : UInt32) : MatrixRun × Bool :=
  if s.train_event_active then
    let (s, entered) := s.enterTrain now
    let (s, expired) := s.expireTrain now
    (s, entered || expired)
  else (s, false)

def stayMs (s : MatrixRun) : UInt32 :=
  if s.current_screen = screenDashboard then dashboardShowMs
  else if s.current_screen = screenCo2 then gasShowMs
  else tempHumShowMs

/-- The automatic cycle: `screen_changed`, and the argument of `Audio_Guide` if it is called. -/
def autoCycle (s : MatrixRun) (now : UInt32) : MatrixRun × Bool × Option (Vector UInt8 8) :=
  if s.auto_cycle_enabled = true ∧ s.current_screen ≤ screenTempHum ∧
      s.stayMs ≤ now - s.last_switch_tick then
    let s := { s.clear with
      current_screen := (s.current_screen + 1) % 3
      last_switch_tick := now }
    if s.current_screen = screenDashboard then
      ({ s with
          dashboard_dirty := true
          dashboard_guide_mode := false
          last_dashboard_mode_tick := now }, true, some s.congestion_status)
    else (s, true, none)
  else (s, false, none)

def toggleGuideMode (s : MatrixRun) (now : UInt32) : MatrixRun :=
  if s.current_screen = screenDashboard ∧
      dashboardGuideToggleMs ≤ now - s.last_dashboard_mode_tick then
    { s with
      dashboard_guide_mode := !s.dashboard_guide_mode
      last_dashboard_mode_tick := now
      dashboard_dirty := true }
  else s

def needRefresh (s : MatrixRun) (now : UInt32) (screen_changed : Bool) : Prop :=
  screen_changed = true ∨
    (s.current_screen = screenDashboard ∧ s.dashboard_dirty = true) ∨
    (s.current_screen = screenTrain ∧ trainAnimRefreshMs ≤ now - s.last_refresh_tick) ∨
    (s.current_screen ≠ screenTrain ∧ dashboardRefreshMs ≤ now - s.last_refresh_tick)

instance (s : MatrixRun) (now : UInt32) (screen_changed : Bool) :
    Decidable (s.needRefresh now screen_changed) := inferInstanceAs (Decidable (_ ∨ _))

def showTrain (s : MatrixRun) : MatrixRun :=
  let x := s.train_text_offset_x + s.train_text_offset_dir
  let s := { s with panel := some (.train s.train_dest_code s.train_text_offset_x) }
  if 6 ≤ x then { s with train_text_offset_x := 6, train_text_offset_dir := -1 }
  else if x ≤ -6 then { s with train_text_offset_x := -6, train_text_offset_dir := 1 }
  else { s with train_text_offset_x := x }

def refresh (s : MatrixRun) (now : UInt32) (g_db_data : DbData) : MatrixRun :=
  let s :=
    if s.current_screen = screenDashboard then { s.showDashboard with dashboard_dirty := false }
    else if s.current_screen = screenCo2 then { s with panel := some (.co2 g_db_data) }
    else if s.current_screen = screenTempHum then { s with panel := some (.tempHum g_db_data) }
    else s.showTrain
  { s with last_refresh_tick := now }

def matrixRun (s : MatrixRun) (now : UInt32) (g_db_data : DbData) :
    MatrixRun × Option (Vector UInt8 8) :=
  let (s, trainChanged) := s.trainEvent now
  let (s, cycleChanged, guide) := s.autoCycle now
  let s := s.toggleGuideMode now
  if s.needRefresh now (trainChanged || cycleChanged) then (s.refresh now g_db_data, guide)
  else (s, guide)

def setCongestionBulk (s : MatrixRun) (data : Vector UInt8 8) : MatrixRun :=
  let s' := { s with congestion_status := data }
  if s.congestion_status ≠ data then { s' with dashboard_dirty := true } else s'

theorem congestion_setCongestionBulk (s : MatrixRun) (data : Vector UInt8 8) :
    (s.setCongestionBulk data).congestion_status = data := by
  unfold setCongestionBulk
  split_ifs <;> rfl

def setScreen (s : MatrixRun) (screen : UInt8) (tick : UInt32) : MatrixRun :=
  if screenTrain < screen then s
  else { s.clear with current_screen := screen, last_switch_tick := tick, last_refresh_tick := 0 }

/-- `MatrixRun_SetAutoCycle`, with the values of its calls of `HAL_GetTick`. -/
def setAutoCycle (s : MatrixRun) (enable : Bool) (tick tick' : UInt32) : MatrixRun :=
  let s := { s with auto_cycle_enabled := enable }
  let s :=
    if s.auto_cycle_enabled then
      { s with
        current_screen := screenDashboard
        dashboard_dirty := true
        dashboard_guide_mode := false
        last_dashboard_mode_tick := tick }
    else s
  { s.clear with last_switch_tick := tick', last_refresh_tick := 0 }

def setTrainDest (s : MatrixRun) (dest_code : UInt8) (tick : UInt32) : MatrixRun :=
  let dest_code := if 2 < dest_code then 0 else dest_code
  let s := { s with train_dest_code := dest_code }
  let s :=
    if dest_code ≠ 0 then
      { s with
        train_event_active := true
        train_event_start_tick := tick
        train_text_offset_x := 0
        train_text_offset_dir := 1 }
    else { s with train_event_active := false }
  if s.current_screen = screenTrain then { s with last_refresh_tick := 0 } else s

def cycle (s : MatrixRun) : UInt8 × Bool × UInt32 :=
  (s.current_screen, s.auto_cycle_enabled, s.last_switch_tick)

def modes (s : MatrixRun) : (UInt8 × Bool × UInt32) × Bool := (s.cycle, s.train_event_active)

theorem auto_of_cycle {s s' : MatrixRun} (h : s.cycle = s'.cycle) :
    s.auto_cycle_enabled = s'.auto_cycle_enabled :=
  (Prod.mk.inj (Prod.mk.inj h).2).1

theorem modes_setCongestionBulk (s : MatrixRun) (data : Vector UInt8 8) :
    (s.setCongestionBulk data).modes = s.modes := by
  unfold setCongestionBulk
  split_ifs <;> rfl

theorem cycle_setCongestionBulk (s : MatrixRun) (data : Vector UInt8 8) :
    (s.setCongestionBulk data).cycle = s.cycle :=
  congrArg Prod.fst (s.modes_setCongestionBulk data)

theorem cycle_setTrainDest (s : MatrixRun) (dest_code : UInt8) (tick : UInt32) :
    (s.setTrainDest dest_code tick).cycle = s.cycle := by
  unfold setTrainDest
  dsimp only
  split_ifs <;> rfl

theorem modes_toggleGuideMode (s : MatrixRun) (now : UInt32) :
    (s.toggleGuideMode now).modes = s.modes := by
  unfold toggleGuideMode
  split_ifs <;> rfl

theorem modes_refresh (s : MatrixRun) (now : UInt32) (g_db_data : DbData) :
    (s.refresh now g_db_data).modes = s.modes := by
  unfold refresh showTrain
  dsimp only
  split_ifs <;> rfl

/-- In a call of `matrixRun` the train event and the cycle decide, and what is drawn changes
nothing of it. -/
theorem modes_matrixRun (s : MatrixRun) (now : UInt32) (g_db_data : DbData) :
    (s.matrixRun now g_db_data).1.modes = ((s.trainEvent now).1.autoCycle now).1.modes := by
  unfold matrixRun
  dsimp only
  split_ifs
  · exact (modes_refresh _ now g_db_data).trans (modes_toggleGuideMode _ now)
  · exact modes_toggleGuideMode _ now

theorem guide_matrixRun (s : MatrixRun) (now : UInt32) (g_db_data : DbData) :
    (s.matrixRun now g_db_data).2 = ((s.trainEvent now).1.autoCycle now).2.2 := by
  unfold matrixRun
  dsimp only
  split_ifs <;> rfl

theorem auto_trainEvent (s : MatrixRun) (now : UInt32) :
    (s.trainEvent now).1.auto_cycle_enabled = s.auto_cycle_enabled := by
  have henter : (s.enterTrain now).1.auto_cycle_enabled = s.auto_cycle_enabled := by
    unfold enterTrain
    split_ifs <;> rfl
  have hexpire (s : MatrixRun) :
      (s.expireTrain now).1.auto_cycle_enabled = s.auto_cycle_enabled := by
    unfold expireTrain
    dsimp only
    split_ifs <;> rfl
  unfold trainEvent
  split_ifs
  · exact (hexpire _).trans henter
  · rfl

theorem auto_autoCycle (s : MatrixRun) (now : UInt32) :
    (s.autoCycle now).1.auto_cycle_enabled = s.auto_cycle_enabled := by
  unfold autoCycle
  dsimp only
  split_ifs <;> rfl

theorem auto_matrixRun (s : MatrixRun) (now : UInt32) (g_db_data : DbData) :
    (s.matrixRun now g_db_data).1.auto_cycle_enabled = s.auto_cycle_enabled := by
  have hmodes := s.modes_matrixRun now g_db_data
  exact (auto_of_cycle (congrArg Prod.fst hmodes)).trans
    ((auto_autoCycle _ now).trans (auto_trainEvent s now))

theorem auto_setScreen (s : MatrixRun) (screen : UInt8) (tick : UInt32) :
    (s.setScreen screen tick).auto_cycle_enabled = s.auto_cycle_enabled := by
  unfold setScreen
  split_ifs <;> rfl

/-- On the train screen with the cycle on, and no train event to end it. -/
def DeadEnd (s : MatrixRun) : Prop :=
  s.auto_cycle_enabled = true ∧ s.current_screen = screenTrain ∧ s.train_event_active = false

theorem deadEnd_of_modes {s s' : MatrixRun} (h : s.modes = s'.modes) : s.DeadEnd ↔ s'.DeadEnd := by
  obtain ⟨hcycle, hactive⟩ := Prod.mk.inj h
  obtain ⟨hscreen, -⟩ := Prod.mk.inj hcycle
  rw [DeadEnd, DeadEnd, auto_of_cycle hcycle, hscreen, hactive]

theorem dashboard_ne_train : screenDashboard ≠ screenTrain := by decide

theorem not_deadEnd_of_active {s : MatrixRun} (h : s.train_event_active = true) : ¬ s.DeadEnd := by
  rintro ⟨-, -, hover⟩
  cases h.symm.trans hover

theorem enterTrain_active (s : MatrixRun) (now : UInt32) :
    (s.enterTrain now).1.train_event_active = s.train_event_active := by
  unfold enterTrain
  split_ifs <;> rfl

theorem not_deadEnd_expireTrain {s : MatrixRun} (h : s.train_event_active = true) (now : UInt32) :
    ¬ (s.expireTrain now).1.DeadEnd := by
  unfold expireTrain
  dsimp only
  split_ifs with hover hauto
  · rintro ⟨-, hscreen, -⟩
    exact dashboard_ne_train hscreen
  · rintro ⟨hcycle, -, -⟩
    exact hauto hcycle
  · exact not_deadEnd_of_active h

theorem deadEnd_trainEvent (s : MatrixRun) (now : UInt32) :
    (s.trainEvent now).1.DeadEnd ↔ s.DeadEnd := by
  unfold trainEvent
  split_ifs with hactive
  · have hentered := (s.enterTrain_active now).trans hactive
    exact iff_of_false (not_deadEnd_expireTrain hentered now) (not_deadEnd_of_active hactive)
  · exact Iff.rfl

theorem add_one_mod_three_ne (screen : UInt8) : (screen + 1) % 3 ≠ screenTrain := by
  intro h
  have hmod := congrArg UInt8.toNat h
  rw [UInt8.toNat_mod] at hmod
  have hlt := Nat.mod_lt (screen + 1).toNat (show 0 < (3 : UInt8).toNat by decide)
  rw [hmod] at hlt
  exact absurd hlt (by decide)

theorem deadEnd_autoCycle (s : MatrixRun) (now : UInt32) :
    (s.autoCycle now).1.DeadEnd ↔ s.DeadEnd := by
  unfold autoCycle
  dsimp only
  split_ifs with hcycle
  · refine iff_of_false (fun hdead => add_one_mod_three_ne _ hdead.2.1) fun hdead => ?_
    rw [hdead.2.1] at hcycle
    exact absurd hcycle.2.1 (by decide)
  · refine iff_of_false (fun hdead => add_one_mod_three_ne _ hdead.2.1) fun hdead => ?_
    rw [hdead.2.1] at hcycle
    exact absurd hcycle.2.1 (by decide)
  · exact Iff.rfl

theorem deadEnd_matrixRun (s : MatrixRun) (now : UInt32) (g_db_data : DbData) :
    (s.matrixRun now g_db_data).1.DeadEnd ↔ s.DeadEnd :=
  (deadEnd_of_modes (s.modes_matrixRun now g_db_data)).trans
    ((deadEnd_autoCycle _ now).trans (deadEnd_trainEvent s now))

/-- A screen selected is a dead end if it is that of the train without a train event. -/
theorem deadEnd_setScreen (s : MatrixRun) {screen : UInt8} (h : ¬ screenTrain < screen)
    (tick : UInt32) : (s.setScreen screen tick).DeadEnd ↔
      s.auto_cycle_enabled = true ∧ screen = screenTrain ∧ s.train_event_active = false := by
  rw [setScreen, if_neg h]
  exact Iff.rfl

theorem not_deadEnd_setAutoCycle (s : MatrixRun) (tick tick' : UInt32) :
    ¬ (s.setAutoCycle true tick tick').DeadEnd := by
  rintro ⟨-, hscreen, -⟩
  exact dashboard_ne_train hscreen

/-- A destination that starts no event is a dead end on the train screen. -/
theorem deadEnd_setTrainDest (s : MatrixRun) (dest_code : UInt8) (tick : UInt32) :
    (s.setTrainDest dest_code tick).DeadEnd ↔
      s.auto_cycle_enabled = true ∧ s.current_screen = screenTrain ∧
        (dest_code = 0 ∨ 2 < dest_code) := by
  rcases Decidable.em (dest_code = 0 ∨ 2 < dest_code) with hnone | hevent
  · have hzero : (if 2 < dest_code then 0 else dest_code) = 0 := by
      rcases hnone with rfl | hlt
      · rfl
      · exact if_pos hlt
    simp only [setTrainDest, hzero, ne_eq, not_true_eq_false, if_false]
    split_ifs <;> simp [DeadEnd, *]
  · rw [not_or] at hevent
    have hcode : (if 2 < dest_code then 0 else dest_code) = dest_code := if_neg hevent.2
    have hactive : (s.setTrainDest dest_code tick).train_event_active = true := by
      simp only [setTrainDest, hcode, ne_eq, hevent.1, not_false_eq_true, if_true]
      split_ifs <;> rfl
    exact iff_of_false (not_deadEnd_of_active hactive) fun hdead => not_or.mpr hevent hdead.2.2

end MatrixRun

end JeogiAt.Display
