import JeogiAt.DwellLaw
import JeogiAt.TrainPixels

/-!
# The buffer behind the display

`Scene` runs `matrix_run.c` together with `LED_Buffer`. `HUB75_Clear` blanks the buffer, and all
else that changes it is the drawing of a picture. A screen with readings does not erase what it has
drawn before: it relies on being drawn once between two clears, since it stays for no longer than a
refresh time. `Holds` says what the buffer holds in terms of the picture that was drawn last.
-/

namespace JeogiAt.Paint

open Stores Display

/-- `LED_Buffer` in the memory around it, and the static variable of `Screen_Show_Train`. `drawn` is
not a variable of the program: it counts the pictures since the buffer was cleared. -/
structure Leds where
  Image : ℤ → UInt8
  last_dest_code : UInt8
  drawn : ℕ

/-- `HUB75_Clear` -/
def Leds.clear (l : Leds) : Leds := { l with Image := write l.Image hub75Clear, drawn := 0 }

def Leds.paint (T : FontTables) (l : Leds) (p : Picture) : Leds :=
  let (d, last_dest_code) := draw T l.last_dest_code p
  ⟨write l.Image d, last_dest_code, l.drawn + 1⟩

def nextPicture (s : MatrixRun) (g_db_data : DbData) : Picture :=
  if s.current_screen = screenDashboard then
    .statusRow s.congestion_status s.dashboard_guide_mode
  else if s.current_screen = screenCo2 then .co2 g_db_data
  else if s.current_screen = screenTempHum then .tempHum g_db_data
  else .train s.train_dest_code s.train_text_offset_x

/-- The display and its buffer, with the real times of the latest call and of the latest call of
`matrixRun`. -/
structure Scene where
  display : MatrixRun
  leds : Leds
  time : ℕ
  ran : ℕ

namespace Scene

/-- After `HUB75_Init` and `MatrixRun_Init`. -/
def start (T : FontTables) (Image : ℤ → UInt8) (t t' t'' : ℕ) : Scene where
  display := MatrixRun.boot.matrixRunInit (halGetTick t) (halGetTick t') (halGetTick t'')
  leds := (Leds.clear ⟨Image, 0xFF, 0⟩).paint T
    (.statusRow MatrixRun.boot.congestion_status MatrixRun.boot.dashboard_guide_mode)
  time := t''
  ran := t'

def run (T : FontTables) (s : Scene) (t : ℕ) (g_db_data : DbData) : Scene :=
  let now := halGetTick t
  let screen_changed := s.display.screenChanged now
  let leds := if screen_changed then s.leds.clear else s.leds
  let display := ((s.display.trainEvent now).1.autoCycle now).1.toggleGuideMode now
  if display.needRefresh now screen_changed then
    ⟨display.refresh now g_db_data, leds.paint T (nextPicture display g_db_data), t, t⟩
  else ⟨display, leds, t, t⟩

def step (T : FontTables) (s : Scene) : TimedStep → Scene
  | .congestion data => { s with display := s.display.setCongestionBulk data }
  | .screen k t =>
      { s with
        display := s.display.setScreen k (halGetTick t)
        leds := if screenTrain < k then s.leds else s.leds.clear
        time := t }
  | .autoCycle enable t t' =>
      { s with
        display := s.display.setAutoCycle enable (halGetTick t) (halGetTick t')
        leds := s.leds.clear
        time := t' }
  | .trainDest dest_code t =>
      { s with display := s.display.setTrainDest dest_code (halGetTick t), time := t }
  | .run t g_db_data => s.run T t g_db_data

end Scene

def scenes (T : FontTables) : Machine Scene TimedStep Unit := ⟨fun s x => (s.step T x, ())⟩

theorem next_scenes (T : FontTables) (s : Scene) (x : TimedStep) :
    (scenes T).next s x = s.step T x := rfl

/-- Time does not run backwards, the calls of `matrixRun` are less than 2^31 ms apart, and the cycle
is not turned off. -/
def Steady (s : Scene) : TimedStep → Prop
  | .congestion _ => True
  | .screen _ t => s.time ≤ t
  | .autoCycle enable t t' => enable = true ∧ s.time ≤ t ∧ t ≤ t'
  | .trainDest _ t => s.time ≤ t
  | .run t _ => s.time ≤ t ∧ t < s.ran + 2 ^ 31

/-- A picture alone on the blank panel `m`, a screen with readings as the only one since the panel
was cleared. The upper line of a train screen may have something of an earlier destination below it,
and may be missing from the first eleven pictures. -/
def Holds (T : FontTables) (m : ℤ → UInt8) (leds : Leds) : Option Picture → Prop
  | none => leds.Image = m ∧ leds.drawn = 0
  | some (.train code x_offset) =>
      ShowsBut m (drawTop T code ++ drawBottom T x_offset) leds.Image ∨
        leds.drawn < 12 ∧ leds.Image = write m (drawBottom T x_offset)
  | some (.statusRow status guide_mode) =>
      leds.Image = write m (matrixRunShowDashboard status guide_mode)
  | some (.co2 data) => leds.Image = write m (screenShowCO2 T data) ∧ leds.drawn = 1
  | some (.tempHum data) => leds.Image = write m (screenShowTempHum T data) ∧ leds.drawn = 1

theorem write_hub75Clear (m : ℤ → UInt8) (i : ℤ) :
    (InBuffer i → write m hub75Clear i = 0) ∧ (¬InBuffer i → write m hub75Clear i = m i) := by
  have hstores (s : ℤ × UInt8) : s ∈ hub75Clear ↔ InBuffer s.1 ∧ s.2 = 0 := by
    unfold hub75Clear InBuffer
    rw [List.mem_map]
    constructor
    · rintro ⟨n, hn, rfl⟩
      have hlt := List.mem_range.mp hn
      exact ⟨⟨Int.natCast_nonneg n, by omega⟩, rfl⟩
    · rintro ⟨⟨hpos, hlt⟩, hzero⟩
      refine ⟨s.1.toNat, List.mem_range.mpr (by omega), Prod.ext ?_ hzero.symm⟩
      exact Int.toNat_of_nonneg hpos
  have hmem : i ∈ cells hub75Clear ↔ InBuffer i := by
    unfold cells
    rw [List.mem_map]
    constructor
    · rintro ⟨s, hs, rfl⟩
      exact ((hstores s).mp hs).1
    · exact fun hi => ⟨(i, 0), (hstores (i, 0)).mpr ⟨hi, rfl⟩, rfl⟩
  refine ⟨fun hi => write_eq_of_forall (hmem.mpr hi) fun s hs _ => ?_, fun hi => ?_⟩
  · exact ((hstores s).mp hs).2
  · exact write_of_notMem (mt hmem.mp hi)

def Outside (m Image : ℤ → UInt8) : Prop := ∀ i, ¬InBuffer i → Image i = m i

variable {T : FontTables} {m : ℤ → UInt8}

theorem Outside.clear {l : Leds} (h : Outside m l.Image) : Outside m l.clear.Image :=
  fun i hi => ((write_hub75Clear l.Image i).2 hi).trans (h i hi)

theorem Outside.paint {l : Leds} (h : Outside m l.Image) (p : Picture) :
    Outside m (l.paint T p).Image := fun i hi =>
  (write_of_notMem fun hmem => hi (inBuffer_draw T l.last_dest_code p i hmem)).trans (h i hi)

theorem Outside.step {s : Scene} (h : Outside m s.leds.Image) (x : TimedStep) :
    Outside m (s.step T x).leds.Image := by
  cases x with
  | congestion data => exact h
  | trainDest dest_code t => exact h
  | autoCycle enable t t' => exact h.clear
  | screen k t =>
    unfold Scene.step
    dsimp only
    split_ifs
    · exact h
    · exact h.clear
  | run t g_db_data =>
    have hcleared (p : Prop) [Decidable p] :
        Outside m (if p then s.leds.clear else s.leds).Image := by
      split_ifs
      · exact h.clear
      · exact h
    unfold Scene.step Scene.run
    dsimp only
    by_cases hneed : (((s.display.trainEvent (halGetTick t)).1.autoCycle
        (halGetTick t)).1.toggleGuideMode (halGetTick t)).needRefresh (halGetTick t)
          (s.display.screenChanged (halGetTick t))
    · rw [if_pos hneed]
      exact (hcleared _).paint _
    · rw [if_neg hneed]
      exact hcleared _

theorem outside_start (T : FontTables) (Image : ℤ → UInt8) (t t' t'' : ℕ) :
    Outside Image (Scene.start T Image t t' t'').leds.Image := by
  have hboot : Outside Image (Leds.clear ⟨Image, 0xFF, 0⟩).Image :=
    Outside.clear fun _ _ => rfl
  have hdrawn : Outside Image ((Leds.clear ⟨Image, 0xFF, 0⟩).paint T
    (.statusRow MatrixRun.boot.congestion_status MatrixRun.boot.dashboard_guide_mode)).Image :=
    hboot.paint _
  exact hdrawn

/-- Whatever is sent and whatever the clock and the sensors say, the display stores to `LED_Buffer`
only. -/
theorem outside_run (T : FontTables) (Image : ℤ → UInt8) (t t' t'' : ℕ) (steps : List TimedStep) :
    Outside Image ((scenes T).run (Scene.start T Image t t' t'') steps).leds.Image := by
  refine (scenes T).invariant_run (I := fun s => Outside Image s.leds.Image) ?_
    (outside_start T Image t t' t'') steps
  intro s x h
  rw [next_scenes]
  exact h.step x

/-- The variables that only commands and the drawing of the train screen change. -/
def settings (s : MatrixRun) : Vector UInt8 8 × Bool × UInt8 × Int8 × Int8 :=
  (s.congestion_status, s.auto_cycle_enabled, s.train_dest_code, s.train_text_offset_x,
    s.train_text_offset_dir)

section Stages

variable (s : MatrixRun) (now : UInt32) (g_db_data : DbData)

theorem settings_trainEvent : settings (s.trainEvent now).1 = settings s := by
  unfold MatrixRun.trainEvent MatrixRun.expireTrain MatrixRun.enterTrain
  dsimp only
  split_ifs <;> rfl

theorem settings_autoCycle : settings (s.autoCycle now).1 = settings s := by
  unfold MatrixRun.autoCycle
  dsimp only
  split_ifs <;> rfl

theorem settings_toggleGuideMode : settings (s.toggleGuideMode now) = settings s := by
  unfold MatrixRun.toggleGuideMode
  split_ifs <;> rfl

structure Fresh (s : MatrixRun) (now : UInt32) : Prop where
  panel : s.panel = none
  tick : s.last_switch_tick = now
  screen : s.current_screen ≤ screenTrain

theorem fresh_trainEvent (h : (s.trainEvent now).2 = true) : Fresh (s.trainEvent now).1 now := by
  unfold MatrixRun.trainEvent at h ⊢
  dsimp only at h ⊢
  split_ifs at h ⊢ with hactive
  rw [Bool.or_eq_true] at h
  have htrain : screenTrain ≤ screenTrain := by decide
  have hdashboard : screenDashboard ≤ screenTrain := by decide
  have henter (h : (s.enterTrain now).2 = true) : Fresh (s.enterTrain now).1 now := by
    unfold MatrixRun.enterTrain at h ⊢
    split_ifs at h ⊢
    exact ⟨rfl, rfl, htrain⟩
  unfold MatrixRun.expireTrain at h ⊢
  dsimp only at h ⊢
  split_ifs at h ⊢
  · exact ⟨rfl, rfl, hdashboard⟩
  · have hfresh := henter (h.resolve_right not_false)
    exact ⟨hfresh.panel, hfresh.tick, hfresh.screen⟩
  · exact henter (h.resolve_right not_false)

theorem fresh_autoCycle (h : (s.autoCycle now).2.1 = true) : Fresh (s.autoCycle now).1 now := by
  have hnext := (screen_succ ((s.autoCycle_changed now).mp h).2.1).1
  have hscreen : (s.current_screen + 1) % 3 ≤ screenTrain := by
    rw [hnext]
    unfold nextScreen
    split_ifs <;> decide
  unfold MatrixRun.autoCycle at h ⊢
  dsimp only at h ⊢
  split_ifs at h ⊢
  · exact ⟨rfl, rfl, hscreen⟩
  · exact ⟨rfl, rfl, hscreen⟩

def staged : MatrixRun := ((s.trainEvent now).1.autoCycle now).1.toggleGuideMode now

theorem settings_staged : settings (staged s now) = settings s :=
  (settings_toggleGuideMode _ now).trans
    ((settings_autoCycle _ now).trans (settings_trainEvent s now))

theorem Fresh.toggleGuideMode {s : MatrixRun} {now : UInt32} (h : Fresh s now) :
    Fresh (s.toggleGuideMode now) now := by
  unfold MatrixRun.toggleGuideMode
  split_ifs
  · exact ⟨h.panel, h.tick, h.screen⟩
  · exact h

theorem fresh_staged {s : MatrixRun} {now : UInt32} (h : s.screenChanged now = true) :
    Fresh (staged s now) now := by
  apply Fresh.toggleGuideMode
  cases hcycle : ((s.trainEvent now).1.autoCycle now).2.1 with
  | true => exact fresh_autoCycle _ now hcycle
  | false =>
    rw [MatrixRun.screenChanged, hcycle, Bool.or_false] at h
    rw [MatrixRun.autoCycle_unchanged hcycle]
    exact fresh_trainEvent s now h

end Stages

section Run

variable (T : FontTables) {s : Scene} {t : ℕ} (g_db_data : DbData)

theorem display_run (s : Scene) (t : ℕ) :
    (s.run T t g_db_data).display = (s.display.matrixRun (halGetTick t) g_db_data).1 := by
  unfold Scene.run MatrixRun.matrixRun MatrixRun.screenChanged
  dsimp only
  split_ifs <;> rfl

theorem run_changed (h : s.display.screenChanged (halGetTick t) = true) :
    s.run T t g_db_data =
      ⟨(staged s.display (halGetTick t)).refresh (halGetTick t) g_db_data,
        s.leds.clear.paint T (nextPicture (staged s.display (halGetTick t)) g_db_data), t, t⟩ := by
  unfold Scene.run
  dsimp only
  rw [h, if_pos rfl, if_pos (.inl rfl)]
  rfl

/-- A call that stays on its screen draws it again if the refresh is due, and otherwise changes at
most that there is a train event. -/
theorem run_unchanged (h : s.display.screenChanged (halGetTick t) = false) :
    ∃ active, let display := { s.display with train_event_active := active }
      (s.display.Due (halGetTick t) s.display.last_refresh_tick ∧ s.run T t g_db_data =
        ⟨(display.toggleGuideMode (halGetTick t)).refresh (halGetTick t) g_db_data,
          s.leds.paint T (nextPicture (display.toggleGuideMode (halGetTick t)) g_db_data), t, t⟩) ∨
      (¬s.display.Due (halGetTick t) s.display.last_refresh_tick ∧
        s.run T t g_db_data = ⟨display, s.leds, t, t⟩) := by
  obtain ⟨active, heq⟩ := MatrixRun.autoCycle_of_unchanged h
  refine ⟨active, ?_⟩
  have hneed := MatrixRun.needRefresh_toggleGuideMode
    { s.display with train_event_active := active } (halGetTick t)
  unfold Scene.run
  dsimp only
  rw [h, heq, if_neg Bool.false_ne_true]
  by_cases hdue : s.display.Due (halGetTick t) s.display.last_refresh_tick
  · exact .inl ⟨hdue, if_pos (hneed.mpr hdue)⟩
  · refine .inr ⟨hdue, (if_neg (mt hneed.mp hdue)).trans ?_⟩
    have hmode : ¬(s.display.current_screen = screenDashboard ∧
        dashboardGuideToggleMs ≤ halGetTick t - s.display.last_dashboard_mode_tick) :=
      fun hmode => hdue (.inl ⟨hmode.1, .inr hmode.2⟩)
    rw [MatrixRun.toggleGuideMode, if_neg hmode]

end Run

/-- The offset of the text after a picture, and its direction. -/
def swing (x dir : Int8) : Int8 × Int8 :=
  if 6 ≤ x + dir then (6, -1) else if x + dir ≤ -6 then (-6, 1) else (x + dir, dir)

structure Swinging (x dir : Int8) : Prop where
  swings : Swings x
  turns : dir = 1 ∧ x.toInt < 6 ∨ dir = -1 ∧ -6 < x.toInt

/-- How many pictures there are before one with the text in the middle. -/
def untilCentre (x dir : Int8) : ℤ :=
  if dir = 1 then if x.toInt ≤ 0 then -x.toInt else 12 - x.toInt
  else if 0 ≤ x.toInt then x.toInt else 12 + x.toInt

theorem swinging_start : Swinging 0 1 := ⟨⟨by decide, by decide⟩, .inl (by decide)⟩

theorem Swinging.untilCentre_le {x dir : Int8} (h : Swinging x dir) : untilCentre x dir ≤ 11 := by
  obtain ⟨hlow, hhigh⟩ := h.swings
  have hne : (-1 : Int8) ≠ 1 := by decide
  unfold untilCentre
  rcases h.turns with ⟨rfl, hturn⟩ | ⟨rfl, hturn⟩
  · rw [if_pos rfl]
    split_ifs <;> omega
  · rw [if_neg hne]
    split_ifs <;> omega

theorem Swinging.untilCentre_nonneg {x dir : Int8} (h : Swinging x dir) :
    untilCentre 0 1 ≤ untilCentre x dir := by
  obtain ⟨hlow, hhigh⟩ := h.swings
  have hstart : untilCentre 0 1 = 0 := rfl
  rw [hstart]
  unfold untilCentre
  split_ifs <;> omega

theorem Swinging.swing {x dir : Int8} (h : Swinging x dir) :
    Swinging (swing x dir).1 (swing x dir).2 ∧
      (x ≠ 0 →
        untilCentre (Paint.swing x dir).1 (Paint.swing x dir).2 + 1 = untilCentre x dir) := by
  obtain ⟨hlow, hhigh⟩ := h.swings
  have hone : (1 : Int8).toInt = 1 ∧ (-1 : Int8).toInt = -1 := ⟨rfl, rfl⟩
  have hends : (6 : Int8).toInt = 6 ∧ (-6 : Int8).toInt = -6 := ⟨rfl, rfl⟩
  have hne : (-1 : Int8) ≠ 1 := by decide
  have hzero : x ≠ 0 → x.toInt ≠ 0 := fun hx h0 => hx (Int8.toInt_inj.mp h0)
  have hsum (hdir : dir.toInt = 1 ∨ dir.toInt = -1) :
      (x + dir).toInt = x.toInt + dir.toInt := by
    rw [Int8.toInt_add]
    exact Int.bmod_eq_of_le (by omega) (by omega)
  have hcentre (x dir : Int8) : untilCentre x dir =
      if dir = 1 then if x.toInt ≤ 0 then -x.toInt else 12 - x.toInt
      else if 0 ≤ x.toInt then x.toInt else 12 + x.toInt := rfl
  unfold Paint.swing
  rcases h.turns with ⟨rfl, hturn⟩ | ⟨rfl, hturn⟩
  · have hx := hsum (.inl hone.1)
    have hdown : ¬ x + 1 ≤ -6 := by
      rw [Int8.le_iff_toInt_le]
      omega
    by_cases hup : 6 ≤ x + 1
    · have hup' := Int8.le_iff_toInt_le.mp hup
      rw [if_pos hup]
      refine ⟨⟨⟨by decide, by decide⟩, .inr (by decide)⟩, fun _ => ?_⟩
      rw [hcentre x, hcentre, if_pos rfl, if_neg hne, hends.1]
      split_ifs <;> omega
    · have hup' := mt Int8.le_iff_toInt_le.mpr hup
      have hlands : Swings (x + 1) := ⟨by omega, by omega⟩
      have hturn' : (x + 1).toInt < 6 := by omega
      rw [if_neg hup, if_neg hdown]
      refine ⟨⟨hlands, .inl ⟨rfl, hturn'⟩⟩, fun h0 => ?_⟩
      have hne0 := hzero h0
      rw [hcentre x, hcentre, if_pos rfl, if_pos rfl, hx]
      split_ifs <;> omega
  · have hx := hsum (.inr hone.2)
    have hup : ¬ 6 ≤ x + -1 := by
      rw [Int8.le_iff_toInt_le]
      omega
    by_cases hdown : x + -1 ≤ -6
    · have hdown' := Int8.le_iff_toInt_le.mp hdown
      rw [if_neg hup, if_pos hdown]
      refine ⟨⟨⟨by decide, by decide⟩, .inl (by decide)⟩, fun _ => ?_⟩
      rw [hcentre x, hcentre, if_neg hne, if_pos rfl, hends.2]
      split_ifs <;> omega
    · have hdown' := mt Int8.le_iff_toInt_le.mpr hdown
      have hlands : Swings (x + -1) := ⟨by omega, by omega⟩
      have hturn' : -6 < (x + -1).toInt := by omega
      rw [if_neg hup, if_neg hdown]
      refine ⟨⟨hlands, .inr ⟨rfl, hturn'⟩⟩, fun h0 => ?_⟩
      have hne0 := hzero h0
      rw [hcentre x, hcentre, if_neg hne, if_neg hne, hx]
      split_ifs <;> omega

end JeogiAt.Paint
