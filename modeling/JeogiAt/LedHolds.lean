import JeogiAt.LedPanel

/-!
# The buffer holds the picture that was drawn last

`Kept` is what every steady step keeps: what the buffer holds, how the text swings, and that a
screen with readings was drawn since the last switch if at all. So a call of `matrixRun` that would
draw it again comes when its time is over, and clears the buffer for the next screen.
-/

namespace JeogiAt.Paint

open Stores Display

variable {T : FontTables} {m : ℤ → UInt8}

/-- What a train screen with the last offset `x_offset` has left, `n` pictures before the next one
with the text in the middle. -/
def HoldsTrain (T : FontTables) (m : ℤ → UInt8) (leds : Leds) (x_offset : Int8) (n : ℤ) : Prop :=
  ShowsBut m (drawTop T leds.last_dest_code ++ drawBottom T x_offset) leds.Image ∨
    leds.drawn + n ≤ 11 ∧ leds.Image = write m (drawBottom T x_offset)

theorem HoldsTrain.mono {leds : Leds} {x_offset : Int8} {n n' : ℤ}
    (h : HoldsTrain T m leds x_offset n) (hle : n' ≤ n) : HoldsTrain T m leds x_offset n' :=
  h.imp_right fun hpart => ⟨by omega, hpart.2⟩

theorem HoldsTrain.redraw {leds : Leds} {x_offset : Int8} {n : ℤ}
    (h : HoldsTrain T m leds x_offset n) (hswings : Swings x_offset) (code : UInt8) (x : Int8) :
    ShowsBut m (drawTop T code ++ drawBottom T x)
      (write leds.Image (drawTop T code ++ drawBottom T x)) := by
  rcases h with hwhole | ⟨-, hpart⟩
  · exact hwhole.redraw (cells_train T leds.last_dest_code code hswings x)
  · rw [hpart]
    refine (showsBut_write m (drawBottom T x_offset)).redraw fun i hi => .inr ?_
    rw [cells_append, List.mem_append]
    exact .inr (cells_drawBottom_subset T hswings x i hi)

theorem paint_eq (leds : Leds) (p : Picture) :
    leds.paint T p = ⟨write leds.Image (draw T leds.last_dest_code p).1,
      (draw T leds.last_dest_code p).2, leds.drawn + 1⟩ := rfl

theorem paint_whole {leds : Leds} {code : UInt8} {x : Int8}
    (h : leds.last_dest_code ≠ code ∨ x = 0) : leds.paint T (.train code x) =
      ⟨write leds.Image (drawTop T code ++ drawBottom T x), code, leds.drawn + 1⟩ := by
  unfold Leds.paint draw screenShowTrain
  dsimp only
  rw [if_pos h]

theorem paint_bottom {leds : Leds} {code : UInt8} {x : Int8}
    (h : ¬(leds.last_dest_code ≠ code ∨ x = 0)) : leds.paint T (.train code x) =
      ⟨write leds.Image (drawBottom T x), leds.last_dest_code, leds.drawn + 1⟩ := by
  unfold Leds.paint draw screenShowTrain
  dsimp only
  rw [if_neg h]

/-- The next picture of a train screen, drawn over the one before or over the blank panel. -/
theorem holdsTrain_paint {leds : Leds} {x dir : Int8} (hturn : Swinging x dir) (code : UInt8)
    (h : leds.Image = m ∧ leds.drawn = 0 ∨
      ∃ x_offset, Swings x_offset ∧ HoldsTrain T m leds x_offset (untilCentre x dir)) :
    HoldsTrain T m (leds.paint T (.train code x)) x (untilCentre (swing x dir).1 (swing x dir).2) ∧
      (leds.paint T (.train code x)).last_dest_code = code := by
  unfold HoldsTrain
  by_cases htop : leds.last_dest_code ≠ code ∨ x = 0
  · rw [paint_whole htop]
    dsimp only
    refine ⟨.inl ?_, rfl⟩
    rcases h with ⟨hblank, -⟩ | ⟨x_offset, hswings, hold⟩
    · rw [hblank]
      exact showsBut_write m _
    · exact hold.redraw hswings code x
  · rw [paint_bottom htop]
    dsimp only
    rw [not_or, not_not] at htop
    refine ⟨?_, htop.1⟩
    have hnext := hturn.swing.2 htop.2
    have hcount : ((leds.drawn + 1 : ℕ) : ℤ) = leds.drawn + 1 := Nat.cast_succ _
    rcases h with ⟨hblank, hdrawn⟩ | ⟨x_offset, hswings, hwhole | ⟨hfew, hpart⟩⟩
    · have hle := hturn.untilCentre_le
      rw [hblank]
      exact .inr ⟨by omega, rfl⟩
    · exact .inl (hwhole.redrawBottom hswings x)
    · rw [hpart]
      exact .inr ⟨by omega, write_write (cells_drawBottom_subset T hswings x)⟩

/-- What the picture on the panel has left in the buffer. -/
def Painted (T : FontTables) (m : ℤ → UInt8) (s : Scene) : Option Picture → Prop
  | none => s.leds.Image = m ∧ s.leds.drawn = 0
  | some (.statusRow status guide_mode) =>
      s.display.current_screen = screenDashboard ∧
        s.leds.Image = write m (matrixRunShowDashboard status guide_mode)
  | some (.co2 data) =>
      s.display.current_screen = screenCo2 ∧ s.leds.Image = write m (screenShowCO2 T data) ∧
        s.leds.drawn = 1
  | some (.tempHum data) =>
      s.display.current_screen = screenTempHum ∧
        s.leds.Image = write m (screenShowTempHum T data) ∧ s.leds.drawn = 1
  | some (.train code x_offset) =>
      s.display.current_screen = screenTrain ∧ Swings x_offset ∧ s.leds.last_dest_code = code ∧
        HoldsTrain T m s.leds x_offset
          (untilCentre s.display.train_text_offset_x s.display.train_text_offset_dir)

def IsReading (screen : UInt8) : Prop := screen = screenCo2 ∨ screen = screenTempHum

/-- The time `since` is that of the last switch. The latest call of `matrixRun` was before the
screen's time was over, and if it shows readings then it was drawn since. -/
structure Visit (s : Scene) (since : ℕ) : Prop where
  tick : s.display.last_switch_tick = halGetTick since
  since_le : since ≤ s.time
  ran_le : s.ran ≤ s.time
  fresh : s.display.current_screen ≤ screenTempHum →
    s.ran < since + stayTime s.display.current_screen
  drawn : s.display.panel ≠ none → IsReading s.display.current_screen →
    ∃ drawn, since ≤ drawn ∧ drawn ≤ s.ran ∧ s.display.last_refresh_tick = halGetTick drawn

structure Kept (T : FontTables) (m : ℤ → UInt8) (s : Scene) (since : ℕ) : Prop where
  painted : Painted T m s s.display.panel
  auto : s.display.auto_cycle_enabled = true
  screen_le : s.display.current_screen ≤ screenTrain
  swinging : Swinging s.display.train_text_offset_x s.display.train_text_offset_dir
  visit : Visit s since

variable {s : Scene} {since : ℕ}

theorem Painted.congr {display : MatrixRun} {time ran : ℕ} (h : Painted T m s s.display.panel)
    (hscreen : display.current_screen = s.display.current_screen)
    (hpanel : display.panel = s.display.panel)
    (hcentre : untilCentre display.train_text_offset_x display.train_text_offset_dir ≤
      untilCentre s.display.train_text_offset_x s.display.train_text_offset_dir) :
    Painted T m ⟨display, s.leds, time, ran⟩ display.panel := by
  rw [hpanel]
  cases hp : s.display.panel with
  | none => rwa [hp] at h
  | some p =>
    rw [hp] at h
    cases p with
    | train code x_offset =>
      obtain ⟨htrain, hswings, hcode, hholds⟩ := h
      exact ⟨hscreen.trans htrain, hswings, hcode, hholds.mono hcentre⟩
    | statusRow status guide_mode => exact ⟨hscreen.trans h.1, h.2⟩
    | co2 data => exact ⟨hscreen.trans h.1, h.2⟩
    | tempHum data => exact ⟨hscreen.trans h.1, h.2⟩

theorem Kept.congr {display : MatrixRun} {t : ℕ} (h : Kept T m s since)
    (hcycle : display.cycle = s.display.cycle) (hpanel : display.panel = s.display.panel)
    (hswinging : Swinging display.train_text_offset_x display.train_text_offset_dir)
    (hcentre : untilCentre display.train_text_offset_x display.train_text_offset_dir ≤
      untilCentre s.display.train_text_offset_x s.display.train_text_offset_dir)
    (hrefresh : display.last_refresh_tick = s.display.last_refresh_tick ∨
      s.display.current_screen = screenTrain)
    (ht : s.time ≤ t) : Kept T m { s with display, time := t } since := by
  obtain ⟨hscreen, hrest⟩ := Prod.mk.inj hcycle
  obtain ⟨hauto, htick⟩ := Prod.mk.inj hrest
  refine ⟨h.painted.congr hscreen hpanel hcentre, hauto.trans h.auto,
    hscreen.trans_le h.screen_le, hswinging, ?_⟩
  refine ⟨htick.trans h.visit.tick, h.visit.since_le.trans ht, h.visit.ran_le.trans ht, ?_, ?_⟩
  · intro hle
    dsimp only at hle ⊢
    rw [hscreen] at hle ⊢
    exact h.visit.fresh hle
  · intro hsome hreading
    dsimp only at hsome hreading ⊢
    rw [hscreen] at hreading
    rw [hpanel] at hsome
    have hsame := hrefresh.resolve_right fun htrain => by
      rw [htrain] at hreading
      exact hreading.elim (by decide) (by decide)
    rw [hsame]
    exact h.visit.drawn hsome hreading

theorem Kept.clear {display : MatrixRun} {t : ℕ} (h : Kept T m s since)
    (hblank : s.leds.clear.Image = m) (hfresh : Fresh display (halGetTick t))
    (hauto : display.auto_cycle_enabled = true)
    (hswinging : Swinging display.train_text_offset_x display.train_text_offset_dir)
    (ht : s.time ≤ t) : Kept T m ⟨display, s.leds.clear, t, s.ran⟩ t := by
  have hran := h.visit.ran_le
  refine ⟨?_, hauto, hfresh.screen, hswinging, hfresh.tick, le_rfl, hran.trans ht, ?_, ?_⟩
  · rw [hfresh.panel]
    exact ⟨hblank, rfl⟩
  · intro hle
    have hstay : 0 < stayTime display.current_screen := by
      unfold stayTime
      split_ifs <;> omega
    dsimp only
    omega
  · intro hsome
    exact absurd hfresh.panel hsome

theorem refresh_panel_eq (d : MatrixRun) (now : UInt32) (g_db_data : DbData) :
    (d.refresh now g_db_data).panel = some (nextPicture d g_db_data) := by
  unfold MatrixRun.refresh nextPicture MatrixRun.showTrain
  dsimp only
  split_ifs <;> rfl

theorem screen_cases {screen : UInt8} (h : screen ≤ screenTrain) :
    screen = screenDashboard ∨ screen = screenCo2 ∨ screen = screenTempHum ∨
      screen = screenTrain := by
  simp only [UInt8.le_iff_toNat_le, ← UInt8.toNat_inj] at h ⊢
  change screen.toNat ≤ 3 at h
  change screen.toNat = 0 ∨ screen.toNat = 1 ∨ screen.toNat = 2 ∨ screen.toNat = 3
  omega

def offset (d : MatrixRun) : Int8 × Int8 := (d.train_text_offset_x, d.train_text_offset_dir)

theorem offset_refresh {d : MatrixRun} (h : d.current_screen ≤ screenTempHum) (now : UInt32)
    (g_db_data : DbData) : offset (d.refresh now g_db_data) = offset d := by
  have hscreen := (mem_screens_iff d.current_screen).mpr h
  simp only [List.mem_cons, List.not_mem_nil, or_false] at hscreen
  unfold MatrixRun.refresh
  dsimp only
  split_ifs with hdashboard hco2 htempHum
  · rfl
  · rfl
  · rfl
  · rcases hscreen with h | h | h
    · exact absurd h hdashboard
    · exact absurd h hco2
    · exact absurd h htempHum

theorem refresh_train {d : MatrixRun} (h : d.current_screen = screenTrain) (now : UInt32)
    (g_db_data : DbData) : nextPicture d g_db_data =
        .train d.train_dest_code d.train_text_offset_x ∧
      offset (d.refresh now g_db_data) = swing d.train_text_offset_x d.train_text_offset_dir := by
  have hne : d.current_screen ≠ screenDashboard ∧ d.current_screen ≠ screenCo2 ∧
      d.current_screen ≠ screenTempHum := by
    rw [h]
    decide
  unfold nextPicture MatrixRun.refresh MatrixRun.showTrain offset swing
  dsimp only
  rw [if_neg hne.1, if_neg hne.2.1, if_neg hne.2.2, if_neg hne.1, if_neg hne.2.1, if_neg hne.2.2]
  refine ⟨rfl, ?_⟩
  split_ifs <;> rfl

theorem Painted.dashboard {p : Option Picture} (h : Painted T m s p)
    (hscreen : s.display.current_screen = screenDashboard) :
    s.leds.Image = m ∨
      ∃ status guide_mode, s.leds.Image = write m (matrixRunShowDashboard status guide_mode) := by
  cases p with
  | none => exact .inl h.1
  | some p =>
    cases p with
    | statusRow status guide_mode => exact .inr ⟨status, guide_mode, h.2⟩
    | co2 data => exact absurd (hscreen.symm.trans h.1) (by decide)
    | tempHum data => exact absurd (hscreen.symm.trans h.1) (by decide)
    | train code x_offset => exact absurd (hscreen.symm.trans h.1) (by decide)

theorem Painted.train {p : Option Picture} (h : Painted T m s p)
    (hscreen : s.display.current_screen = screenTrain) :
    s.leds.Image = m ∧ s.leds.drawn = 0 ∨
      ∃ x_offset, Swings x_offset ∧ HoldsTrain T m s.leds x_offset
        (untilCentre s.display.train_text_offset_x s.display.train_text_offset_dir) := by
  cases p with
  | none => exact .inl h
  | some p =>
    cases p with
    | train code x_offset => exact .inr ⟨x_offset, h.2.1, h.2.2.2⟩
    | statusRow status guide_mode => exact absurd (hscreen.symm.trans h.1) (by decide)
    | co2 data => exact absurd (hscreen.symm.trans h.1) (by decide)
    | tempHum data => exact absurd (hscreen.symm.trans h.1) (by decide)

theorem paint_dashboard (leds : Leds) (status : Vector UInt8 8) (guide_mode : Bool) :
    (leds.paint T (.statusRow status guide_mode)).Image =
      write leds.Image (matrixRunShowDashboard status guide_mode) := by
  rw [paint_eq, draw]

theorem paint_co2 (leds : Leds) (data : DbData) :
    (leds.paint T (.co2 data)).Image = write leds.Image (screenShowCO2 T data) := by
  rw [paint_eq, draw]

theorem paint_tempHum (leds : Leds) (data : DbData) :
    (leds.paint T (.tempHum data)).Image = write leds.Image (screenShowTempHum T data) := by
  rw [paint_eq, draw]

/-- The picture that `refresh` draws, over the one that is there or on the blank panel. -/
theorem Kept.painted_refresh (h : Kept T m s since) (now : UInt32) (g_db_data : DbData) (t : ℕ)
    (hfirst : IsReading s.display.current_screen → s.display.panel = none) :
    Painted T m ⟨s.display.refresh now g_db_data,
      s.leds.paint T (nextPicture s.display g_db_data), t, t⟩
        (some (nextPicture s.display g_db_data)) := by
  have hsame : (s.display.refresh now g_db_data).current_screen = s.display.current_screen :=
    (Prod.mk.inj (Prod.mk.inj (s.display.modes_refresh now g_db_data)).1).1
  have hpainted := h.painted
  have hblank (hreading : IsReading s.display.current_screen) :
      s.leds.Image = m ∧ s.leds.drawn + 1 = 1 := by
    rw [hfirst hreading] at hpainted
    exact ⟨hpainted.1, congrArg (· + 1) hpainted.2⟩
  rcases screen_cases h.screen_le with hscreen | hscreen | hscreen | hscreen
  · have hnext : nextPicture s.display g_db_data =
        .statusRow s.display.congestion_status s.display.dashboard_guide_mode := if_pos hscreen
    rw [hnext]
    refine ⟨hsame.trans hscreen, ?_⟩
    dsimp only
    rw [paint_dashboard]
    rcases hpainted.dashboard hscreen with himage | ⟨status, guide_mode, himage⟩
    · rw [himage]
    · rw [himage, write_dashboard]
  · have hnext : nextPicture s.display g_db_data = .co2 g_db_data := by
      rw [nextPicture, hscreen]
      rfl
    rw [hnext]
    obtain ⟨himage, hdrawn⟩ := hblank (.inl hscreen)
    refine ⟨hsame.trans hscreen, ?_, hdrawn⟩
    dsimp only
    rw [paint_co2, himage]
  · have hnext : nextPicture s.display g_db_data = .tempHum g_db_data := by
      rw [nextPicture, hscreen]
      rfl
    rw [hnext]
    obtain ⟨himage, hdrawn⟩ := hblank (.inr hscreen)
    refine ⟨hsame.trans hscreen, ?_, hdrawn⟩
    dsimp only
    rw [paint_tempHum, himage]
  · obtain ⟨hnext, hoffset⟩ := refresh_train hscreen now g_db_data
    obtain ⟨hx, hdir⟩ := Prod.mk.inj hoffset
    rw [hnext]
    obtain ⟨hholds, hcode⟩ := holdsTrain_paint h.swinging s.display.train_dest_code
      (hpainted.train hscreen)
    refine ⟨hsame.trans hscreen, h.swinging.swings, hcode, ?_⟩
    dsimp only
    rw [hx, hdir]
    exact hholds

theorem Swinging.refresh {d : MatrixRun}
    (h : Swinging d.train_text_offset_x d.train_text_offset_dir)
    (hle : d.current_screen ≤ screenTrain) (now : UInt32) (g_db_data : DbData) :
    Swinging (d.refresh now g_db_data).train_text_offset_x
      (d.refresh now g_db_data).train_text_offset_dir := by
  have hstill (hscreen : d.current_screen ≤ screenTempHum) :
      Swinging (d.refresh now g_db_data).train_text_offset_x
        (d.refresh now g_db_data).train_text_offset_dir := by
    obtain ⟨hx, hdir⟩ := Prod.mk.inj (offset_refresh hscreen now g_db_data)
    rwa [hx, hdir]
  rcases screen_cases hle with hscreen | hscreen | hscreen | hscreen
  · exact hstill (by rw [hscreen]; decide)
  · exact hstill (by rw [hscreen]; decide)
  · exact hstill (by rw [hscreen]; decide)
  · obtain ⟨hx, hdir⟩ := Prod.mk.inj (refresh_train hscreen now g_db_data).2
    rw [hx, hdir]
    exact h.swing.1

/-- A picture of a screen that may be drawn over what is there. -/
theorem Kept.refresh {t : ℕ} (h : Kept T m s since) (g_db_data : DbData) (ht : s.time ≤ t)
    (hfresh : s.display.current_screen ≤ screenTempHum →
      t < since + stayTime s.display.current_screen)
    (hfirst : IsReading s.display.current_screen → s.display.panel = none) :
    Kept T m ⟨s.display.refresh (halGetTick t) g_db_data,
      s.leds.paint T (nextPicture s.display g_db_data), t, t⟩ since := by
  obtain ⟨hscreen, hrest⟩ := Prod.mk.inj (Prod.mk.inj
    (s.display.modes_refresh (halGetTick t) g_db_data)).1
  obtain ⟨hauto, htick⟩ := Prod.mk.inj hrest
  have hsince := h.visit.since_le.trans ht
  refine ⟨?_, hauto.trans h.auto, hscreen.trans_le h.screen_le,
    h.swinging.refresh h.screen_le (halGetTick t) g_db_data, ?_⟩
  · dsimp only
    rw [refresh_panel_eq]
    exact h.painted_refresh (halGetTick t) g_db_data t hfirst
  · refine ⟨htick.trans h.visit.tick, hsince, le_rfl, ?_, fun _ _ => ⟨t, hsince, le_rfl, rfl⟩⟩
    intro hle
    dsimp only at hle ⊢
    rw [hscreen] at hle ⊢
    exact hfresh hle

def Blank (m : ℤ → UInt8) : Prop := ∀ i, InBuffer i → m i = 0

theorem clear_eq {leds : Leds} (hm : Blank m) (h : Outside m leds.Image) :
    leds.clear.Image = m := by
  funext i
  obtain ⟨hin, hout⟩ := write_hub75Clear leds.Image i
  by_cases hi : InBuffer i
  · exact (hin hi).trans (hm i hi).symm
  · exact (hout hi).trans (h i hi)

theorem Kept.congestion (h : Kept T m s since) (data : Vector UInt8 8) :
    Kept T m (s.step T (.congestion data)) since := by
  have hsame : (s.display.setCongestionBulk data).panel = s.display.panel ∧
      offset (s.display.setCongestionBulk data) = offset s.display ∧
      (s.display.setCongestionBulk data).last_refresh_tick = s.display.last_refresh_tick := by
    unfold MatrixRun.setCongestionBulk
    dsimp only
    split_ifs
    · exact ⟨rfl, rfl, rfl⟩
    · exact ⟨rfl, rfl, rfl⟩
  obtain ⟨hpanel, hoffset, hrefresh⟩ := hsame
  obtain ⟨hx, hdir⟩ := Prod.mk.inj hoffset
  exact h.congr (s.display.cycle_setCongestionBulk data) hpanel (by rw [hx, hdir]; exact h.swinging)
    (by rw [hx, hdir]) (.inl hrefresh) le_rfl

theorem Kept.trainDest (h : Kept T m s since) (dest_code : UInt8) {t : ℕ} (ht : s.time ≤ t) :
    Kept T m (s.step T (.trainDest dest_code t)) since := by
  have hpanel : (s.display.setTrainDest dest_code (halGetTick t)).panel = s.display.panel := by
    unfold MatrixRun.setTrainDest
    dsimp only
    split_ifs <;> rfl
  have hoffset : offset (s.display.setTrainDest dest_code (halGetTick t)) = offset s.display ∨
      offset (s.display.setTrainDest dest_code (halGetTick t)) = (0, 1) := by
    unfold MatrixRun.setTrainDest
    dsimp only
    split_ifs
    all_goals first | exact .inl rfl | exact .inr rfl
  have hrefresh : (s.display.setTrainDest dest_code (halGetTick t)).last_refresh_tick =
      s.display.last_refresh_tick ∨ s.display.current_screen = screenTrain := by
    unfold MatrixRun.setTrainDest
    dsimp only
    split_ifs with _ _ htrain htrain _ htrain htrain
    all_goals first | exact .inl rfl | exact .inr htrain
  have hcycle := s.display.cycle_setTrainDest dest_code (halGetTick t)
  rcases hoffset with hoffset | hoffset
  · obtain ⟨hx, hdir⟩ := Prod.mk.inj hoffset
    exact h.congr hcycle hpanel (by rw [hx, hdir]; exact h.swinging) (by rw [hx, hdir]) hrefresh ht
  · obtain ⟨hx, hdir⟩ := Prod.mk.inj hoffset
    refine h.congr hcycle hpanel (by rw [hx, hdir]; exact swinging_start) ?_ hrefresh ht
    rw [hx, hdir]
    exact h.swinging.untilCentre_nonneg

/-- A call of `matrixRun` that stays on its screen comes before the time of the screen is over. -/
theorem Kept.stays {t : ℕ} (h : Kept T m s since) (ht : s.time ≤ t) (hgap : t < s.ran + 2 ^ 31)
    (hstay : s.display.screenChanged (halGetTick t) = false)
    (hle : s.display.current_screen ≤ screenTempHum) :
    t < since + stayTime s.display.current_screen ∧ t < since + 2 ^ 32 := by
  have hvisit := h.visit
  have hfresh := hvisit.fresh hle
  have hstayTime := stayTime_le s.display.current_screen
  have hchanges := mt (s.display.screenChanged_iff (halGetTick t)).mpr (Bool.eq_false_iff.mp hstay)
  have hfits : t < since + 2 ^ 32 := by omega
  refine ⟨?_, hfits⟩
  unfold MatrixRun.ChangesScreen at hchanges
  split_ifs at hchanges with hactive
  · exfalso
    refine hchanges (.inl fun htrain => ?_)
    rw [htrain] at hle
    exact absurd hle (by decide)
  · have hsince := hvisit.since_le.trans ht
    have hover : ¬ s.display.stayMs ≤ halGetTick t - s.display.last_switch_tick :=
      fun hover => hchanges ⟨h.auto, hle, hover⟩
    rw [UInt32.le_iff_toNat_le, toNat_stayMs, hvisit.tick, toNat_tick_sub hsince hfits] at hover
    omega

theorem Kept.first {t : ℕ} (h : Kept T m s since) (ht : s.time ≤ t) (hgap : t < s.ran + 2 ^ 31)
    (hstay : s.display.screenChanged (halGetTick t) = false)
    (hdue : s.display.Due (halGetTick t) s.display.last_refresh_tick)
    (hreading : IsReading s.display.current_screen) : s.display.panel = none := by
  by_contra hsome
  obtain ⟨drawn, hsince, hran, htick⟩ := h.visit.drawn hsome hreading
  have hle : s.display.current_screen ≤ screenTempHum := by
    rcases hreading with hscreen | hscreen <;> rw [hscreen] <;> decide
  have hne : s.display.current_screen ≠ screenDashboard ∧
      s.display.current_screen ≠ screenTrain := by
    rcases hreading with hscreen | hscreen <;> rw [hscreen] <;> decide
  have hstayTime : stayTime s.display.current_screen = 5000 := if_neg hne.1
  obtain ⟨hover, hfits⟩ := h.stays ht hgap hstay hle
  have hbefore := hran.trans (h.visit.ran_le.trans ht)
  rcases hdue with ⟨hscreen, -⟩ | ⟨hscreen, -⟩ | ⟨-, hold⟩
  · exact hne.1 hscreen
  · exact hne.2 hscreen
  · have hrefreshMs : dashboardRefreshMs.toNat = 5000 := rfl
    rw [htick, UInt32.le_iff_toNat_le, toNat_tick_sub hbefore (by omega), hrefreshMs] at hold
    omega

theorem stayTime_pos (screen : UInt8) : 0 < stayTime screen := by
  unfold stayTime
  split_ifs <;> omega

/-- The toggling of the guide draws nothing and changes nothing of the cycle. -/
theorem Kept.toggle {t : ℕ} (h : Kept T m s since) (active : Bool) (ht : s.time ≤ t) :
    Kept T m { s with
      display := { s.display with train_event_active := active }.toggleGuideMode (halGetTick t)
      time := t } since := by
  have hcycle := congrArg Prod.fst (MatrixRun.modes_toggleGuideMode
    { s.display with train_event_active := active } (halGetTick t))
  have hpanel := MatrixRun.toggleGuideMode_panel
    { s.display with train_event_active := active } (halGetTick t)
  have hsettings := settings_toggleGuideMode
    { s.display with train_event_active := active } (halGetTick t)
  have hrefresh : ({ s.display with train_event_active := active }.toggleGuideMode
      (halGetTick t)).last_refresh_tick = s.display.last_refresh_tick := by
    unfold MatrixRun.toggleGuideMode
    split_ifs <;> rfl
  simp only [settings, Prod.mk.injEq] at hsettings
  obtain ⟨-, -, -, hx, hdir⟩ := hsettings
  exact h.congr hcycle hpanel (by rw [hx, hdir]; exact h.swinging) (by rw [hx, hdir])
    (.inl hrefresh) ht

theorem Kept.run {t : ℕ} (h : Kept T m s since) (hblank : s.leds.clear.Image = m)
    (g_db_data : DbData) (ht : s.time ≤ t) (hgap : t < s.ran + 2 ^ 31) :
    ∃ since, Kept T m (s.run T t g_db_data) since := by
  cases hchanged : s.display.screenChanged (halGetTick t) with
  | true =>
    have hfresh := fresh_staged hchanged
    have hsettings := settings_staged s.display (halGetTick t)
    simp only [settings, Prod.mk.injEq] at hsettings
    obtain ⟨-, hauto, -, hx, hdir⟩ := hsettings
    have hcleared := h.clear hblank hfresh (hauto.trans h.auto)
      (by rw [hx, hdir]; exact h.swinging) ht
    rw [run_changed T g_db_data hchanged]
    exact ⟨t, hcleared.refresh g_db_data le_rfl
      (fun _ => Nat.lt_add_of_pos_right (stayTime_pos _)) fun _ => hfresh.panel⟩
  | false =>
    refine ⟨since, ?_⟩
    have hstays := h.stays ht hgap hchanged
    obtain ⟨active, ⟨hdue, heq⟩ | ⟨-, heq⟩⟩ := run_unchanged T g_db_data hchanged
    · have htoggled := h.toggle active ht
      have hscreen : ({ s.display with train_event_active := active }.toggleGuideMode
          (halGetTick t)).current_screen = s.display.current_screen :=
        (Prod.mk.inj (Prod.mk.inj (MatrixRun.modes_toggleGuideMode _ (halGetTick t))).1).1
      rw [heq]
      refine htoggled.refresh g_db_data le_rfl (fun hle => ?_) fun hreading => ?_
      · dsimp only at hle ⊢
        rw [hscreen] at hle ⊢
        exact (hstays hle).1
      · dsimp only at hreading ⊢
        rw [hscreen] at hreading
        rw [MatrixRun.toggleGuideMode_panel]
        exact h.first ht hgap hchanged hdue hreading
    · have hvisit := h.visit
      rw [heq]
      refine ⟨h.painted.congr rfl rfl le_rfl, h.auto, h.screen_le, h.swinging, hvisit.tick,
        hvisit.since_le.trans ht, le_rfl, fun hle => (hstays hle).1, fun hsome hreading => ?_⟩
      obtain ⟨drawn, hsince, hran, htick⟩ := hvisit.drawn hsome hreading
      exact ⟨drawn, hsince, hran.trans (hvisit.ran_le.trans ht), htick⟩

theorem Kept.step (h : Kept T m s since) (hm : Blank m) (hout : Outside m s.leds.Image)
    {x : TimedStep} (hsteady : Steady s x) : ∃ since, Kept T m (s.step T x) since := by
  have hblank := clear_eq hm hout
  cases x with
  | congestion data => exact ⟨since, h.congestion data⟩
  | trainDest dest_code t => exact ⟨since, h.trainDest dest_code hsteady⟩
  | run t g_db_data => exact h.run hblank g_db_data hsteady.1 hsteady.2
  | autoCycle enable t t' =>
    obtain ⟨rfl, ht, ht'⟩ := hsteady
    exact ⟨t', h.clear hblank ⟨rfl, rfl, (by decide : screenDashboard ≤ screenTrain)⟩ rfl h.swinging
      (ht.trans ht')⟩
  | screen k t =>
    unfold Scene.step MatrixRun.setScreen
    dsimp only
    by_cases hk : screenTrain < k
    · rw [if_pos hk, if_pos hk]
      exact ⟨since, h.congr rfl rfl h.swinging le_rfl (.inl rfl) hsteady⟩
    · rw [if_neg hk, if_neg hk]
      exact ⟨t, h.clear hblank ⟨rfl, rfl, UInt8.not_lt.mp hk⟩ h.auto h.swinging hsteady⟩

theorem kept_start {t t' t'' : ℕ} (hinit : t' ≤ t'') (T : FontTables) (Image : ℤ → UInt8) :
    Kept T (write Image hub75Clear) (Scene.start T Image t t' t'') t' := by
  have hdrawn : ((Leds.clear ⟨Image, 0xFF, 0⟩).paint T
      (.statusRow MatrixRun.boot.congestion_status MatrixRun.boot.dashboard_guide_mode)).Image =
        write (write Image hub75Clear) (matrixRunShowDashboard MatrixRun.boot.congestion_status
          MatrixRun.boot.dashboard_guide_mode) := paint_dashboard _ _ _
  have hpainted : Painted T (write Image hub75Clear) (Scene.start T Image t t' t'')
      (some (.statusRow MatrixRun.boot.congestion_status MatrixRun.boot.dashboard_guide_mode)) :=
    ⟨rfl, hdrawn⟩
  have hscreen : screenDashboard ≤ screenTrain := by decide
  refine ⟨hpainted, rfl, hscreen, swinging_start, rfl, hinit, hinit, fun _ => ?_, fun _ h => ?_⟩
  · exact Nat.lt_add_of_pos_right (stayTime_pos _)
  · exact absurd h (by decide : ¬(screenDashboard = screenCo2 ∨ screenDashboard = screenTempHum))

theorem Painted.holds {p : Option Picture} (h : Painted T m s p)
    (hswinging : Swinging s.display.train_text_offset_x s.display.train_text_offset_dir) :
    Holds T m s.leds p := by
  cases p with
  | none => exact h
  | some p =>
    cases p with
    | statusRow status guide_mode => exact h.2
    | co2 data => exact h.2
    | tempHum data => exact h.2
    | train code x_offset =>
      obtain ⟨-, -, rfl, hwhole | ⟨hfew, hpart⟩⟩ := h
      · exact .inl hwhole
      · have hcentre := hswinging.untilCentre_nonneg
        have hstart : untilCentre 0 1 = 0 := rfl
        exact .inr ⟨by omega, hpart⟩

/-- In every steady run the buffer is blank from a clear to the next picture, and then holds this
picture alone. A screen with readings is drawn once between two clears. -/
theorem picture_run {t t' t'' : ℕ} (hinit : t' ≤ t'') (T : FontTables) (Image : ℤ → UInt8)
    {steps : List TimedStep}
    (hsteady : (scenes T).Along Steady (Scene.start T Image t t' t'') steps) :
    Holds T (write Image hub75Clear) ((scenes T).run (Scene.start T Image t t' t'') steps).leds
      ((scenes T).run (Scene.start T Image t t' t'') steps).display.panel := by
  have hblank : Blank (write Image hub75Clear) := fun i hi => (write_hub75Clear Image i).1 hi
  have hstart : Outside (write Image hub75Clear) (Scene.start T Image t t' t'').leds.Image :=
    fun i hi => (outside_start T Image t t' t'' i hi).trans ((write_hub75Clear Image i).2 hi).symm
  have hrun := Machine.invariant_along
    (I := fun s => (∃ since, Kept T (write Image hub75Clear) s since) ∧
      Outside (write Image hub75Clear) s.leds.Image) (fun s x hI hx => by
        obtain ⟨⟨since, hkept⟩, hout⟩ := hI
        rw [next_scenes]
        exact ⟨hkept.step hblank hout hx, hout.step x⟩)
    ⟨⟨t', kept_start hinit T Image⟩, hstart⟩ hsteady
  obtain ⟨⟨since, hkept⟩, -⟩ := hrun
  exact hkept.painted.holds hkept.swinging

/-- A train is announced, half a second after the start. -/
theorem holds_announced :
    Holds ⟨fun _ => 0, fun _ => 0⟩ (write (fun _ => 0xAA) hub75Clear)
      ((scenes ⟨fun _ => 0, fun _ => 0⟩).run (Scene.start ⟨fun _ => 0, fun _ => 0⟩ (fun _ => 0xAA)
        0 0 0) [.trainDest 1 500, .run 600 ⟨0, 0, 0, 0⟩]).leds
      ((scenes ⟨fun _ => 0, fun _ => 0⟩).run (Scene.start ⟨fun _ => 0, fun _ => 0⟩ (fun _ => 0xAA)
        0 0 0) [.trainDest 1 500, .run 600 ⟨0, 0, 0, 0⟩]).display.panel :=
  picture_run le_rfl _ _ ⟨Nat.zero_le 500, ⟨(by decide : 500 ≤ 600), (by decide : 600 < 0 + 2 ^ 31)⟩,
    trivial⟩

end JeogiAt.Paint
