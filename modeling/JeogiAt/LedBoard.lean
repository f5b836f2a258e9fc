import JeogiAt.Hub75Scan
import JeogiAt.LedHolds
import JeogiAt.TrainScreen

/-!
# From a packet to the lights

`sceneSteps` is what a run of the main loop does to the display, as the steps of `scenes`. After a
call of `MatrixRun_Run` the dashboard is never behind `congestion_status`: either a packet with new
levels has marked it, and the call has drawn it again, or the levels are those that it was drawn
with. The interrupt then brings the buffer to the panel, row by row.
-/

namespace JeogiAt.Paint

open Audio Decimal Display Stores Uart

/-- A dashboard on the panel that is not marked shows the present levels. -/
def ShowsCongestion (s : Scene) : Prop :=
  s.display.current_screen = screenDashboard → s.display.panel ≠ none →
    ∃ m status guide_mode, s.leds.Image = write m (matrixRunShowDashboard status guide_mode) ∧
      (s.display.dashboard_dirty = true ∨ status = s.display.congestion_status)

def UpToDate (s : Scene) : Prop :=
  s.display.current_screen = screenDashboard → s.display.panel ≠ none →
    ∃ m guide_mode, s.leds.Image =
      write m (matrixRunShowDashboard s.display.congestion_status guide_mode)

/-- The cars of an up-to-date dashboard are in the colours of their levels. -/
theorem UpToDate.pixel_car {s : Scene} (h : UpToDate s)
    (hscreen : s.display.current_screen = screenDashboard) (hshown : s.display.panel ≠ none)
    (i : Fin 8) : s.leds.Image (pixel (8 + i.val * 7) 13) =
      (statusToColor (s.display.congestion_status.get i)).toUInt8 := by
  obtain ⟨m, guide_mode, himage⟩ := h hscreen hshown
  rw [himage, pixel_dashboard]

theorem UpToDate.shows {s : Scene} (h : UpToDate s) : ShowsCongestion s := by
  intro hscreen hsome
  obtain ⟨m, guide_mode, himage⟩ := h hscreen hsome
  exact ⟨m, _, guide_mode, himage, .inr rfl⟩

variable {T : FontTables}

theorem congestion_refresh (d : MatrixRun) (now : UInt32) (g_db_data : DbData) :
    (d.refresh now g_db_data).congestion_status = d.congestion_status := by
  unfold MatrixRun.refresh MatrixRun.showTrain
  dsimp only
  split_ifs <;> rfl

theorem upToDate_refresh (d : MatrixRun) (leds : Leds) (now : UInt32) (g_db_data : DbData)
    (t : ℕ) :
    UpToDate ⟨d.refresh now g_db_data, leds.paint T (nextPicture d g_db_data), t, t⟩ := by
  intro hscreen _
  have hsame : (d.refresh now g_db_data).current_screen = d.current_screen :=
    (Prod.mk.inj (Prod.mk.inj (d.modes_refresh now g_db_data)).1).1
  have hnext : nextPicture d g_db_data =
      .statusRow d.congestion_status d.dashboard_guide_mode := if_pos (hsame.symm.trans hscreen)
  refine ⟨leds.Image, d.dashboard_guide_mode, ?_⟩
  dsimp only
  rw [hnext, paint_dashboard, congestion_refresh]

theorem ShowsCongestion.run {s : Scene} (h : ShowsCongestion s) (t : ℕ) (g_db_data : DbData) :
    UpToDate (s.run T t g_db_data) := by
  cases hchanged : s.display.screenChanged (halGetTick t) with
  | true =>
    rw [run_changed T g_db_data hchanged]
    exact upToDate_refresh _ _ _ _ _
  | false =>
    obtain ⟨active, ⟨-, heq⟩ | ⟨hdue, heq⟩⟩ := run_unchanged T g_db_data hchanged
    · rw [heq]
      exact upToDate_refresh _ _ _ _ _
    · rw [heq]
      intro hscreen hsome
      obtain ⟨m, status, guide_mode, himage, hdirty | rfl⟩ := h hscreen hsome
      · exact absurd (.inl ⟨hscreen, .inl hdirty⟩) hdue
      · exact ⟨m, guide_mode, himage⟩

theorem ShowsCongestion.step {s : Scene} (h : ShowsCongestion s) (x : TimedStep) :
    ShowsCongestion (s.step T x) := by
  cases x with
  | run t g_db_data => exact (h.run t g_db_data).shows
  | autoCycle enable t t' => exact fun _ hsome => absurd rfl hsome
  | congestion data =>
    unfold Scene.step MatrixRun.setCongestionBulk
    dsimp only
    intro hscreen hsome
    split_ifs at hscreen hsome ⊢ with hne
    · obtain ⟨m, status, guide_mode, himage, -⟩ := h hscreen hsome
      exact ⟨m, status, guide_mode, himage, .inl rfl⟩
    · obtain ⟨m, status, guide_mode, himage, hshown⟩ := h hscreen hsome
      refine ⟨m, status, guide_mode, himage, hshown.imp_right fun heq => ?_⟩
      exact heq.trans (not_not.mp hne)
  | screen k t =>
    unfold Scene.step MatrixRun.setScreen
    dsimp only
    split_ifs
    · exact h
    · exact fun _ hsome => absurd rfl hsome
  | trainDest dest_code t =>
    unfold Scene.step MatrixRun.setTrainDest
    dsimp only
    split_ifs <;> exact h

theorem showsCongestion_start (T : FontTables) (Image : ℤ → UInt8) (t t' t'' : ℕ) :
    ShowsCongestion (Scene.start T Image t t' t'') := by
  intro _ _
  have hdrawn : ((Leds.clear ⟨Image, 0xFF, 0⟩).paint T
      (.statusRow MatrixRun.boot.congestion_status MatrixRun.boot.dashboard_guide_mode)).Image =
        write (Leds.clear ⟨Image, 0xFF, 0⟩).Image (matrixRunShowDashboard
          MatrixRun.boot.congestion_status MatrixRun.boot.dashboard_guide_mode) :=
    paint_dashboard _ _ _
  exact ⟨_, _, _, hdrawn, .inr rfl⟩

def displaySteps (w : Surroundings) (pkt : Packet) : List TimedStep :=
  if pkt.cmd = cmdSetLed then
    if pkt.len = 8 ∧ ¬pkt.levels.any (2 < ·) = true then [.congestion pkt.levels] else []
  else if pkt.cmd = cmdTrainDest then
    if pkt.len = 1 then [.trainDest pkt.destCode w.tick.toNat] else []
  else if pkt.cmd = cmdDisplayCtrl then
    if pkt.text = [digit 0] then [.autoCycle true w.tick.toNat w.tick'.toNat]
    else if 1 ≤ atoi pkt.text ∧ atoi pkt.text ≤ 4 then
      [.screen (UInt8.ofNat (atoi pkt.text - 1).toNat) w.tick.toNat]
    else []
  else []

/-- What a step of the main loop does to the display. -/
def sceneStep {W : Type*} (b : Board W) : PanelStep → List TimedStep
  | .packet w pkt => displaySteps w pkt
  | .sensors _ _ => []
  | .run now => [.run now.toNat b.g_db_data]

/-- What a run of the main loop does to the display. -/
def sceneSteps {W : Type*} (E : Env W) (b : Board W) : List PanelStep → List TimedStep
  | [] => []
  | x :: xs => sceneStep b x ++ sceneSteps E ((panel E).next b x) xs

/-- The levels of a packet that is accepted: `CMD_SET_LED` with eight bytes, none above 2. -/
def acceptedLevels : PanelStep → Option (Vector UInt8 8)
  | .packet _ pkt =>
      if pkt.cmd = cmdSetLed ∧ pkt.len = 8 ∧ ¬pkt.levels.any (2 < ·) = true then some pkt.levels
      else none
  | .sensors _ _ => none
  | .run _ => none

/-- The levels of the last packet that was accepted, before the first one those of the boot. -/
def lastLevels (xs : List PanelStep) : Vector UInt8 8 :=
  (xs.filterMap acceptedLevels).getLast?.getD MatrixRun.boot.congestion_status

theorem lastLevels_concat (xs : List PanelStep) (x : PanelStep) :
    lastLevels (xs ++ [x]) = (acceptedLevels x).getD (lastLevels xs) := by
  rw [lastLevels, List.filterMap_append]
  cases haccepted : acceptedLevels x with
  | none => rw [List.filterMap_cons_none haccepted, List.filterMap_nil, List.append_nil,
      Option.getD_none, lastLevels]
  | some levels => rw [List.filterMap_cons_some haccepted, List.filterMap_nil,
      List.getLast?_concat, Option.getD_some, Option.getD_some]

/-- The handler lets only levels through that the dashboard can show. -/
def LevelsShown (status : Vector UInt8 8) : Prop := ∀ i : Fin 8, status.get i ≤ 2

theorem levelsShown_accepted {x : PanelStep} {levels : Vector UInt8 8}
    (h : acceptedLevels x = some levels) : LevelsShown levels := by
  cases x with
  | sensors co co2 => cases h
  | run now => cases h
  | packet w pkt =>
    rw [acceptedLevels] at h
    split_ifs at h with haccepted
    obtain ⟨-, -, hany⟩ := haccepted
    rw [pkt.any_levels_iff, not_not] at hany
    cases h
    exact fun i => hany _ (Vector.getElem_mem i.isLt)

theorem levelsShown_lastLevels (xs : List PanelStep) : LevelsShown (lastLevels xs) := by
  induction xs using List.reverseRecOn with
  | nil =>
    unfold LevelsShown
    decide
  | append_singleton xs x ih =>
    rw [lastLevels_concat]
    cases haccepted : acceptedLevels x with
    | none => exact ih
    | some levels => exact levelsShown_accepted haccepted

section MainLoop

variable {W : Type*} (E : Env W)

theorem halGetTick_toNat (tick : UInt32) : halGetTick tick.toNat = tick := UInt32.ofNat_toNat

theorem display_packet (T : FontTables) {s : Scene} {b : Board W} (h : s.display = b.display)
    (w : Surroundings) (pkt : Packet) :
    ((scenes T).run s (displaySteps w pkt)).display = (process E w b pkt).1.display := by
  unfold displaySteps
  by_cases hled : pkt.cmd = cmdSetLed
  · rw [if_pos hled, process_setLed E w b hled, processSetLed]
    by_cases hlen : pkt.len = 8
    · rw [if_neg (not_not.mpr hlen)]
      by_cases hany : pkt.levels.any (2 < ·) = true
      · rw [if_neg fun hboth => hboth.2 hany, if_pos hany]
        exact h
      · rw [if_pos ⟨hlen, hany⟩, if_neg hany]
        exact congrArg (·.setCongestionBulk pkt.levels) h
    · rw [if_neg fun hboth => hlen hboth.1, if_pos hlen]
      exact h
  · rw [if_neg hled]
    by_cases hdest : pkt.cmd = cmdTrainDest
    · rw [if_pos hdest, process_trainDest E w b hdest, processTrainDest]
      by_cases hlen : pkt.len = 1
      · rw [if_pos hlen, if_neg (not_not.mpr hlen)]
        have hnext := congrArg (·.setTrainDest pkt.destCode w.tick) h
        rw [Machine.run_cons, Machine.run_nil, next_scenes, Scene.step]
        dsimp only
        rw [halGetTick_toNat]
        exact hnext
      · rw [if_neg hlen, if_pos hlen]
        exact h
    · rw [if_neg hdest]
      by_cases hctrl : pkt.cmd = cmdDisplayCtrl
      · rw [if_pos hctrl, process_displayCtrl E w b hctrl, processDisplayCtrl_display]
        split_ifs
        · rw [Machine.run_cons, Machine.run_nil, next_scenes, Scene.step]
          dsimp only
          rw [halGetTick_toNat, halGetTick_toNat, h]
        · rw [Machine.run_cons, Machine.run_nil, next_scenes, Scene.step]
          dsimp only
          rw [halGetTick_toNat, h]
        · exact h
      · rw [if_neg hctrl, process_display E w b hled hdest hctrl]
        exact h

theorem display_step (T : FontTables) {s : Scene} {b : Board W} (h : s.display = b.display)
    (x : PanelStep) :
    ((scenes T).run s (sceneStep b x)).display = ((panel E).next b x).display := by
  cases x with
  | packet w pkt => exact display_packet E T h w pkt
  | sensors co co2 => exact h
  | run now =>
    have hnext := display_run T b.g_db_data s now.toNat
    rw [halGetTick_toNat, h] at hnext
    exact hnext

theorem display_steps (T : FontTables) {s : Scene} {b : Board W} (h : s.display = b.display)
    (xs : List PanelStep) :
    ((scenes T).run s (sceneSteps E b xs)).display = ((panel E).run b xs).display := by
  induction xs generalizing s b with
  | nil => exact h
  | cons x xs ih =>
    rw [sceneSteps, Machine.run_append, Machine.run_cons]
    exact ih (display_step E T h x)

theorem sceneSteps_concat (b : Board W) (xs : List PanelStep) (x : PanelStep) :
    sceneSteps E b (xs ++ [x]) = sceneSteps E b xs ++ sceneStep ((panel E).run b xs) x := by
  induction xs generalizing b with
  | nil => exact List.append_nil _
  | cons y ys ih =>
    rw [List.cons_append, sceneSteps, sceneSteps, ih, List.append_assoc, Machine.run_cons]

theorem congestion_matrixRun (s : MatrixRun) (now : UInt32) (g_db_data : DbData) :
    (s.matrixRun now g_db_data).1.congestion_status = s.congestion_status := by
  have hstaged : (staged s now).congestion_status = s.congestion_status :=
    congrArg Prod.fst (settings_staged s now)
  unfold MatrixRun.matrixRun
  dsimp only
  split_ifs
  · exact (congestion_refresh (staged s now) now g_db_data).trans hstaged
  · exact hstaged

theorem congestion_packet (w : Surroundings) (b : Board W) {pkt : Packet}
    (h : pkt.cmd ≠ cmdSetLed) :
    (process E w b pkt).1.display.congestion_status = b.display.congestion_status := by
  by_cases hdest : pkt.cmd = cmdTrainDest
  · rw [process_trainDest E w b hdest, processTrainDest]
    unfold MatrixRun.setTrainDest
    dsimp only
    split_ifs <;> rfl
  · by_cases hctrl : pkt.cmd = cmdDisplayCtrl
    · rw [process_displayCtrl E w b hctrl, processDisplayCtrl_display]
      unfold MatrixRun.setScreen MatrixRun.setAutoCycle
      dsimp only
      split_ifs <;> rfl
    · rw [process_display E w b h hdest hctrl]

/-- The levels are replaced by those of an accepted packet, and by nothing else. -/
theorem congestion_next (b : Board W) (x : PanelStep) :
    ((panel E).next b x).display.congestion_status =
      (acceptedLevels x).getD b.display.congestion_status := by
  cases x with
  | sensors co co2 => rfl
  | run now => exact congestion_matrixRun b.display now b.g_db_data
  | packet w pkt =>
    rw [acceptedLevels]
    by_cases hled : pkt.cmd = cmdSetLed
    · have hnext : ((panel E).next b (.packet w pkt)).display = (processSetLed w b pkt).1.display :=
        congrArg (·.1.display) (process_setLed E w b hled)
      rw [hnext, processSetLed]
      by_cases hlen : pkt.len = 8
      · by_cases hany : pkt.levels.any (2 < ·) = true
        · rw [if_neg (not_not.mpr hlen), if_pos hany, if_neg fun haccepted => haccepted.2.2 hany]
          rfl
        · rw [if_neg (not_not.mpr hlen), if_neg hany, if_pos ⟨hled, hlen, hany⟩]
          exact MatrixRun.congestion_setCongestionBulk _ _
      · rw [if_pos hlen, if_neg fun haccepted => hlen haccepted.2.1]
        rfl
    · rw [if_neg fun haccepted => hled haccepted.1]
      exact congestion_packet E w b hled

def boardAfter (b : Board W) (tick tick' tick'' : UInt32) (xs : List PanelStep) : Board W :=
  (panel E).run (b.matrixRunInit tick tick' tick'') xs

/-- The display and its buffer after a run of the main loop. -/
def sceneAfter (T : FontTables) (Image : ℤ → UInt8) (b : Board W) (tick tick' tick'' : UInt32)
    (xs : List PanelStep) : Scene :=
  (scenes T).run (Scene.start T Image tick.toNat tick'.toNat tick''.toNat)
    (sceneSteps E (b.matrixRunInit tick tick' tick'') xs)

variable (T : FontTables) (Image : ℤ → UInt8) (b : Board W) (tick tick' tick'' : UInt32)
  (xs : List PanelStep)

theorem display_sceneAfter : (sceneAfter E T Image b tick tick' tick'' xs).display =
    (boardAfter E b tick tick' tick'' xs).display := by
  refine display_steps E T ?_ xs
  unfold Scene.start Board.matrixRunInit
  dsimp only
  rw [halGetTick_toNat, halGetTick_toNat, halGetTick_toNat]

/-- After a run the levels are those of the last packet that was accepted. -/
theorem congestion_boardAfter :
    (boardAfter E b tick tick' tick'' xs).display.congestion_status = lastLevels xs := by
  induction xs using List.reverseRecOn with
  | nil => rfl
  | append_singleton xs x ih =>
    rw [boardAfter, Machine.run_concat, congestion_next, lastLevels_concat, ← ih]
    rfl

theorem showsCongestion_sceneAfter :
    ShowsCongestion (sceneAfter E T Image b tick tick' tick'' xs) := by
  refine (scenes T).invariant_run (I := ShowsCongestion) (fun s x h => ?_)
    (showsCongestion_start T Image _ _ _) _
  rw [next_scenes]
  exact h.step x

theorem sceneAfter_run (now : UInt32) :
    sceneAfter E T Image b tick tick' tick'' (xs ++ [PanelStep.run now]) =
      (sceneAfter E T Image b tick tick' tick'' xs).run T now.toNat
        (boardAfter E b tick tick' tick'' xs).g_db_data := by
  unfold sceneAfter
  rw [sceneSteps_concat, Machine.run_append]
  rfl

theorem upToDate_sceneAfter (now : UInt32) :
    UpToDate (sceneAfter E T Image b tick tick' tick'' (xs ++ [PanelStep.run now])) := by
  rw [sceneAfter_run]
  exact (showsCongestion_sceneAfter E T Image b tick tick' tick'' xs).run _ _

end MainLoop

def levelColour (level : UInt8) : Colour :=
  if level = 0 then (false, true, false)
  else if level = 1 then (true, true, false)
  else (true, false, false)

theorem colour_statusToColor {level : UInt8} (h : level ≤ 2) :
    colour (statusToColor level).toUInt8 = levelColour level := by
  unfold statusToColor levelColour
  split_ifs with hgreen hyellow hred
  · rfl
  · rfl
  · rfl
  · rw [UInt8.le_iff_toNat_le] at h
    rw [← UInt8.toNat_inj] at hgreen hyellow hred
    have hvalues : (0 : UInt8).toNat = 0 ∧ (1 : UInt8).toNat = 1 ∧ (2 : UInt8).toNat = 2 :=
      ⟨rfl, rfl, rfl⟩
    omega

theorem bufferRow_car (Image : ℤ → UInt8) (i : Fin 8) :
    ((bufferRow Image 3)[120 - i.val * 7]?).map Prod.snd =
      some (colour (Image (pixel (8 + i.val * 7) 13))) := by
  have hi := i.isLt
  have hcolumn : ((120 - i.val * 7 : ℕ) : ℤ) = 120 - i.val * 7 := by omega
  have hindex : ((3 : ℕ) + 16 : ℤ) * 128 + (120 - i.val * 7 : ℕ) = pixel (8 + i.val * 7) 13 := by
    unfold pixel
    omega
  rw [bufferRow, List.getElem?_map, List.getElem?_range (by omega), ← hindex]
  rfl

/-- The interrupt lights each car of an up-to-date dashboard in the colour of its level. -/
theorem lit_cars {s : Scene} (h : UpToDate s)
    (hscreen : s.display.current_screen = screenDashboard) (hshown : s.display.panel ≠ none)
    (hlevels : LevelsShown s.display.congestion_status) {p : Hub75} (hp : p.Ready)
    (bufs : List (ℤ → UInt8)) :
    ∃ k < 16, ∃ lanes,
      (p.run (Hub75.scanned (bufs ++ List.replicate (k + 1) s.leds.Image))).lit = some (3, lanes) ∧
      ∀ i : Fin 8, (lanes[120 - i.val * 7]?).map Prod.snd =
        some (levelColour (s.display.congestion_status.get i)) := by
  obtain ⟨k, hk, hlit⟩ := Hub75.lit_frame hp bufs s.leds.Image (show 3 < 16 by omega)
  refine ⟨k, hk, _, hlit, fun i => ?_⟩
  rw [bufferRow_car, h.pixel_car hscreen hshown, colour_statusToColor (hlevels i)]

/-- Whatever packets come and whatever the clock says: when a call of `MatrixRun_Run` has left a
dashboard on the panel, one of the next sixteen calls of the interrupt, if they find the buffer as
that call left it, lights each car in the colour of its level in the last packet that was
accepted. -/
theorem lights_panel {W : Type*} (E : Env W) (T : FontTables) (Image : ℤ → UInt8) (b : Board W)
    (tick tick' tick'' : UInt32) (xs : List PanelStep) (now : UInt32)
    (hscreen :
      (boardAfter E b tick tick' tick'' (xs ++ [PanelStep.run now])).display.current_screen =
        screenDashboard)
    (hshown :
      (boardAfter E b tick tick' tick'' (xs ++ [PanelStep.run now])).display.panel ≠ none)
    {p : Hub75} (hp : p.Ready) (bufs : List (ℤ → UInt8)) :
    ∃ k < 16, ∃ lanes, (p.run (Hub75.scanned (bufs ++ List.replicate (k + 1)
        (sceneAfter E T Image b tick tick' tick''
          (xs ++ [PanelStep.run now])).leds.Image))).lit = some (3, lanes) ∧
      ∀ i : Fin 8, (lanes[120 - i.val * 7]?).map Prod.snd =
        some (levelColour ((lastLevels xs).get i)) := by
  have hdisplay := display_sceneAfter E T Image b tick tick' tick'' (xs ++ [PanelStep.run now])
  have hstatus := congestion_boardAfter E b tick tick' tick'' (xs ++ [PanelStep.run now])
  rw [lastLevels_concat, acceptedLevels, Option.getD_none] at hstatus
  rw [← hdisplay] at hscreen hshown hstatus
  have hlevels := levelsShown_lastLevels xs
  rw [← hstatus] at hlevels ⊢
  have hdrawn := upToDate_sceneAfter E T Image b tick tick' tick'' xs now
  exact lit_cars hdrawn hscreen hshown hlevels hp bufs

/-- All cars are crowded, 100 ms after the start. -/
theorem lights_panel_crowded :
    ∃ k < 16, ∃ lanes, (Hub75.run ⟨fun q => decide (q = .oe), List.replicate 128 default, []⟩
        (Hub75.scanned ([] ++ List.replicate (k + 1)
          (sceneAfter noCard ⟨fun _ => 0, fun _ => 0⟩ (fun _ => 0xAA) (Device.start ()).board 0 0 0
            ([PanelStep.packet .bare ⟨cmdSetLed, 8, Vector.replicate _ 2, 0⟩] ++
              [PanelStep.run 100])).leds.Image))).lit = some (3, lanes) ∧
      ∀ i : Fin 8, (lanes[120 - i.val * 7]?).map Prod.snd = some (true, false, false) := by
  let pkt : Packet := ⟨cmdSetLed, 8, Vector.replicate _ 2, 0⟩
  have hlevels : pkt.levels = Vector.replicate 8 2 := by
    refine Vector.ext fun i hi => ?_
    rw [Packet.levels, Vector.getElem_ofFn, Vector.getElem_replicate]
    exact Vector.getElem_replicate ..
  have hshown : ¬ (Vector.replicate 8 (2 : UInt8)).any (2 < ·) = true := by simp
  have hset (b : Board Unit) : (process noCard .bare b pkt).1 =
      { b with display := b.display.setCongestionBulk (Vector.replicate 8 2) } := by
    have hlen : ¬ pkt.len ≠ 8 := not_not.mpr rfl
    rw [process_setLed noCard .bare b rfl, processSetLed, if_neg hlen, hlevels, if_neg hshown]
  have hboard : boardAfter noCard (Device.start ()).board 0 0 0
      ([PanelStep.packet .bare pkt] ++ [PanelStep.run 100]) =
        Board.matrixRun noCard { (Device.start ()).board.matrixRunInit 0 0 0 with
          display := ((Device.start ()).board.matrixRunInit 0 0 0).display.setCongestionBulk
            (Vector.replicate 8 2) } 100 := by
    simp only [boardAfter, List.singleton_append, Machine.run_cons, Machine.run_nil, Machine.next,
      panel, hset]
  have hlast : lastLevels [PanelStep.packet .bare pkt] = Vector.replicate 8 2 := by
    have haccepted : acceptedLevels (PanelStep.packet .bare pkt) = some (Vector.replicate 8 2) := by
      rw [acceptedLevels, hlevels]
      exact if_pos ⟨rfl, rfl, hshown⟩
    exact (lastLevels_concat [] _).trans (by rw [haccepted, Option.getD_some])
  obtain ⟨k, hk, lanes, hlit, hcars⟩ := lights_panel noCard ⟨fun _ => 0, fun _ => 0⟩
    (fun _ => 0xAA) (Device.start ()).board 0 0 0 [PanelStep.packet .bare pkt] 100
    (by rw [hboard]; rfl) (by rw [hboard]; exact Option.some_ne_none _)
    (p := ⟨fun q => decide (q = .oe), List.replicate 128 default, []⟩)
    ⟨List.length_replicate, rfl⟩ []
  refine ⟨k, hk, lanes, hlit, fun i => ?_⟩
  have hcar : (Vector.replicate 8 (2 : UInt8)).get i = 2 := Vector.getElem_replicate ..
  rw [hcars i, hlast, hcar]
  rfl

end JeogiAt.Paint
