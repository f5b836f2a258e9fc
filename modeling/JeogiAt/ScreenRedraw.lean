import JeogiAt.MatrixRun

/-!
# The first picture of a selected screen

A selection of a screen clears the panel and sets `last_refresh_tick` to zero, so that the next call
of `matrixRun` takes the last refresh for long ago. But the zero is compared with the tick as if it
were one. While the tick itself is less than the refresh time, after the start or after it wraps,
the panel is redrawn only if something else asks for it.
-/

namespace JeogiAt.Display

namespace MatrixRun

variable (s : MatrixRun) (now : UInt32)

/-- A call at `now` brings up another screen: that of a train event, the dashboard at the end of an
event, or the next one of the cycle. -/
def ChangesScreen : Prop :=
  if s.train_event_active = true then
    s.current_screen ≠ screenTrain ∨
      trainEventShowMs ≤ now - s.train_event_start_tick ∧ s.auto_cycle_enabled = true
  else
    s.auto_cycle_enabled = true ∧ s.current_screen ≤ screenTempHum ∧
      s.stayMs ≤ now - s.last_switch_tick

/-- On the dashboard the congestion or its mode has changed, or the last refresh counts as long
ago. -/
def Due (last_refresh : UInt32) : Prop :=
  (s.current_screen = screenDashboard ∧
      (s.dashboard_dirty = true ∨ dashboardGuideToggleMs ≤ now - s.last_dashboard_mode_tick)) ∨
    (s.current_screen = screenTrain ∧ trainAnimRefreshMs ≤ now - last_refresh) ∨
    (s.current_screen ≠ screenTrain ∧ dashboardRefreshMs ≤ now - last_refresh)

def screenChanged : Bool := (s.trainEvent now).2 || ((s.trainEvent now).1.autoCycle now).2.1

theorem trainEvent_idle {s : MatrixRun} (h : s.train_event_active = false) (now : UInt32) :
    s.trainEvent now = (s, false) := by
  rw [trainEvent, if_neg (by rw [h]; exact Bool.false_ne_true)]

/-- During a train event on its screen only the end of the event can change anything. -/
theorem trainEvent_shown {s : MatrixRun} (h : s.train_event_active = true)
    (hscreen : s.current_screen = screenTrain) (now : UInt32) :
    s.trainEvent now = s.expireTrain now := by
  rw [trainEvent, if_pos h, enterTrain, if_neg (not_not.mpr hscreen)]
  rfl

theorem trainEvent_entered {s : MatrixRun} (h : s.train_event_active = true)
    (hscreen : s.current_screen ≠ screenTrain) (now : UInt32) : (s.trainEvent now).2 = true := by
  rw [trainEvent, if_pos h, enterTrain, if_pos hscreen]
  rfl

theorem autoCycle_changed : (s.autoCycle now).2.1 = true ↔ s.auto_cycle_enabled = true ∧
    s.current_screen ≤ screenTempHum ∧ s.stayMs ≤ now - s.last_switch_tick := by
  unfold autoCycle
  dsimp only
  split_ifs with hcycle
  · exact iff_of_true rfl hcycle
  · exact iff_of_true rfl hcycle
  · exact iff_of_false not_false hcycle

theorem autoCycle_unchanged {s : MatrixRun} {now : UInt32} (h : (s.autoCycle now).2.1 = false) :
    s.autoCycle now = (s, false, none) := by
  have hcycle := mt (s.autoCycle_changed now).mpr (Bool.eq_false_iff.mp h)
  rw [autoCycle, if_neg hcycle]

theorem autoCycle_train {s : MatrixRun} (h : s.current_screen = screenTrain) (now : UInt32) :
    s.autoCycle now = (s, false, none) := by
  apply autoCycle_unchanged
  rw [Bool.eq_false_iff]
  intro hchanged
  obtain ⟨-, hscreen, -⟩ := (s.autoCycle_changed now).mp hchanged
  rw [h] at hscreen
  exact absurd hscreen (by decide)

theorem screenChanged_iff : s.screenChanged now = true ↔ s.ChangesScreen now := by
  rw [screenChanged, ChangesScreen]
  by_cases hactive : s.train_event_active = true
  · rw [if_pos hactive]
    by_cases hscreen : s.current_screen = screenTrain
    · rw [trainEvent_shown hactive hscreen, expireTrain]
      dsimp only
      split_ifs with hover hauto
      · exact iff_of_true rfl (.inr ⟨hover, hauto⟩)
      · rw [autoCycle_train (s := { s with train_event_active := false }) hscreen]
        exact iff_of_false Bool.false_ne_true fun h => h.elim (· hscreen) fun h => hauto h.2
      · rw [autoCycle_train hscreen]
        exact iff_of_false Bool.false_ne_true fun h => h.elim (· hscreen) fun h => hover h.1
    · rw [trainEvent_entered hactive hscreen]
      exact iff_of_true (Bool.true_or _) (.inl hscreen)
  · rw [trainEvent_idle (Bool.eq_false_iff.mpr hactive), if_neg hactive, Bool.false_or]
    exact s.autoCycle_changed now

/-- Where the screen does not change, a call changes at most that there is a train event. -/
theorem autoCycle_of_unchanged {s : MatrixRun} {now : UInt32} (h : s.screenChanged now = false) :
    ∃ active, ((s.trainEvent now).1.autoCycle now).1 = { s with train_event_active := active } := by
  rw [screenChanged, Bool.or_eq_false_iff] at h
  rw [autoCycle_unchanged h.2]
  by_cases hactive : s.train_event_active = true
  · by_cases hscreen : s.current_screen = screenTrain
    · have hexpire := h.1
      rw [trainEvent_shown hactive hscreen] at hexpire ⊢
      unfold expireTrain at hexpire ⊢
      dsimp only at hexpire ⊢
      split_ifs at hexpire ⊢
      · exact ⟨false, rfl⟩
      · exact ⟨s.train_event_active, rfl⟩
    · exact absurd (trainEvent_entered hactive hscreen now) (Bool.eq_false_iff.mp h.1)
  · rw [trainEvent_idle (Bool.eq_false_iff.mpr hactive)]
    exact ⟨s.train_event_active, rfl⟩

theorem needRefresh_toggleGuideMode :
    (s.toggleGuideMode now).needRefresh now false ↔ s.Due now s.last_refresh_tick := by
  rw [toggleGuideMode, needRefresh, Due, or_iff_right Bool.false_ne_true]
  split_ifs with htoggle
  · exact iff_of_true (.inl ⟨htoggle.1, rfl⟩) (.inl ⟨htoggle.1, .inr htoggle.2⟩)
  · refine or_congr_left (and_congr_right fun hscreen => ?_)
    exact (or_iff_left fun hmode => htoggle ⟨hscreen, hmode⟩).symm

theorem toggleGuideMode_panel : (s.toggleGuideMode now).panel = s.panel := by
  unfold toggleGuideMode
  split_ifs <;> rfl

theorem showTrain_panel : s.showTrain.panel ≠ none := by
  unfold showTrain
  dsimp only
  split_ifs <;> exact Option.some_ne_none _

theorem refresh_panel (g_db_data : DbData) : (s.refresh now g_db_data).panel ≠ none := by
  unfold refresh
  split_ifs
  · exact Option.some_ne_none _
  · exact Option.some_ne_none _
  · exact Option.some_ne_none _
  · exact s.showTrain_panel

/-- When a call of `matrixRun` leaves a picture on a panel that was blank. -/
theorem panel_matrixRun {s : MatrixRun} (hblank : s.panel = none) (now : UInt32)
    (g_db_data : DbData) : (s.matrixRun now g_db_data).1.panel ≠ none ↔
      s.ChangesScreen now ∨ s.Due now s.last_refresh_tick := by
  have hrun : (s.matrixRun now g_db_data).1 =
      let after := ((s.trainEvent now).1.autoCycle now).1.toggleGuideMode now
      if after.needRefresh now (s.screenChanged now) then after.refresh now g_db_data
      else after := by
    unfold matrixRun screenChanged
    dsimp only
    split_ifs <;> rfl
  rw [hrun, ← screenChanged_iff]
  dsimp only
  cases hchanged : s.screenChanged now with
  | true =>
    rw [if_pos (.inl rfl)]
    exact iff_of_true (refresh_panel _ now g_db_data) (.inl rfl)
  | false =>
    obtain ⟨active, heq⟩ := autoCycle_of_unchanged hchanged
    rw [heq, or_iff_right Bool.false_ne_true]
    have hdue := needRefresh_toggleGuideMode { s with train_event_active := active } now
    split_ifs with hneed
    · exact iff_of_true (refresh_panel _ now g_db_data) (hdue.mp hneed)
    · rw [toggleGuideMode_panel]
      exact iff_of_false (not_not.mpr hblank) (mt hdue.mpr hneed)

end MatrixRun

/-- A call of one of the functions that change the display, with what it finds of the clock. -/
inductive DisplayCommand
  | congestion (data : Vector UInt8 8)
  | screen (screen : UInt8) (tick : UInt32)
  | autoCycle (enable : Bool) (tick tick' : UInt32)
  | trainDest (dest_code : UInt8) (tick : UInt32)

namespace DisplayCommand

def apply (s : MatrixRun) : DisplayCommand → MatrixRun
  | congestion data => s.setCongestionBulk data
  | screen k tick => s.setScreen k tick
  | autoCycle enable tick tick' => s.setAutoCycle enable tick tick'
  | trainDest dest_code tick => s.setTrainDest dest_code tick

def Selects : DisplayCommand → Prop
  | screen k _ => k ≤ screenTrain
  | autoCycle _ _ _ => True
  | _ => False

end DisplayCommand

/-- A command, or a call of `matrixRun` with the tick and the readings that it finds. -/
inductive DisplayEvent
  | command (c : DisplayCommand)
  | run (now : UInt32) (g_db_data : DbData)

def DisplayEvent.apply (s : MatrixRun) : DisplayEvent → MatrixRun
  | command c => c.apply s
  | run now g_db_data => (s.matrixRun now g_db_data).1

def displayAfter (tick tick' tick'' : UInt32) (events : List DisplayEvent) : MatrixRun :=
  events.foldl DisplayEvent.apply (MatrixRun.boot.matrixRunInit tick tick' tick'')

/-- The panel is blank, and the last refresh is set to zero. -/
def Cleared (s : MatrixRun) : Prop := s.panel = none ∧ s.last_refresh_tick = 0

theorem cleared_setScreen (s : MatrixRun) {screen : UInt8} (h : screen ≤ screenTrain)
    (tick : UInt32) : Cleared (s.setScreen screen tick) := by
  rw [MatrixRun.setScreen, if_neg (UInt8.not_lt.mpr h)]
  exact ⟨rfl, rfl⟩

theorem cleared_setAutoCycle (s : MatrixRun) (enable : Bool) (tick tick' : UInt32) :
    Cleared (s.setAutoCycle enable tick tick') := ⟨rfl, rfl⟩

theorem cleared_of_selects (s : MatrixRun) {c : DisplayCommand} (h : c.Selects) :
    Cleared (c.apply s) := by
  cases c with
  | congestion data => exact h.elim
  | screen k tick => exact cleared_setScreen s h tick
  | autoCycle enable tick tick' => exact cleared_setAutoCycle s enable tick tick'
  | trainDest dest_code tick => exact h.elim

theorem Cleared.apply {s : MatrixRun} (h : Cleared s) (c : DisplayCommand) :
    Cleared (c.apply s) := by
  cases c with
  | congestion data =>
    rw [DisplayCommand.apply, MatrixRun.setCongestionBulk]
    split_ifs
    · exact h
    · exact h
  | screen k tick =>
    by_cases hle : k ≤ screenTrain
    · exact cleared_setScreen s hle tick
    · rw [DisplayCommand.apply, MatrixRun.setScreen, if_pos (UInt8.not_le.mp hle)]
      exact h
  | autoCycle enable tick tick' => exact cleared_setAutoCycle s enable tick tick'
  | trainDest dest_code tick =>
    rw [DisplayCommand.apply, MatrixRun.setTrainDest]
    dsimp only
    split_ifs
    all_goals first | exact ⟨h.1, rfl⟩ | exact h

theorem Cleared.foldl {s : MatrixRun} (h : Cleared s) (commands : List DisplayCommand) :
    Cleared (commands.foldl DisplayCommand.apply s) := by
  induction commands generalizing s with
  | nil => exact h
  | cons c commands ih => exact ih (h.apply c)

/-- After a selection, and whatever other commands, the first call of `matrixRun` redraws the panel
exactly when it changes the screen, or finds the dashboard changed, or the tick is at least the
refresh time of the screen. -/
theorem redrawn_iff (s : MatrixRun) {c : DisplayCommand} (h : c.Selects)
    (commands : List DisplayCommand) (now : UInt32) (g_db_data : DbData) :
    (((commands.foldl DisplayCommand.apply (c.apply s)).matrixRun now g_db_data).1.panel ≠ none ↔
      (commands.foldl DisplayCommand.apply (c.apply s)).ChangesScreen now ∨
        (commands.foldl DisplayCommand.apply (c.apply s)).Due now 0) := by
  have hcleared := (cleared_of_selects s h).foldl commands
  rw [MatrixRun.panel_matrixRun hcleared.1, hcleared.2]

theorem selects_co2 (tick : UInt32) : (DisplayCommand.screen screenCo2 tick).Selects :=
  show screenCo2 ≤ screenTrain by decide

/-- The gas screen, selected 100 ms after the start. -/
theorem redrawn_start :
    ((((DisplayCommand.screen screenCo2 100).apply (displayAfter 0 0 0 [])).matrixRun 6000
        ⟨0, 0, 0, 0⟩).1.panel ≠ none ↔
      ((DisplayCommand.screen screenCo2 100).apply (displayAfter 0 0 0 [])).ChangesScreen 6000 ∨
        ((DisplayCommand.screen screenCo2 100).apply (displayAfter 0 0 0 [])).Due 6000 0) :=
  redrawn_iff (displayAfter 0 0 0 []) (selects_co2 100) [] 6000 ⟨0, 0, 0, 0⟩

/-- It is not drawn 200 ms after the start. -/
theorem blank_start :
    ¬ ∀ (tick tick' tick'' : UInt32) (events : List DisplayEvent) (c : DisplayCommand),
      c.Selects → ∀ (commands : List DisplayCommand) (now : UInt32) (g_db_data : DbData),
        ((commands.foldl DisplayCommand.apply
          (c.apply (displayAfter tick tick' tick'' events))).matrixRun now g_db_data).1.panel ≠
            none := by
  intro hall
  exact hall 0 0 0 [] (.screen screenCo2 100) (selects_co2 100) [] 200 ⟨0, 0, 0, 0⟩ rfl

end JeogiAt.Display
