import JeogiAt.CongestionPanel
import JeogiAt.LedBoard
import JeogiAt.ZoneSnapshots

/-!
# From the counts to the lights

The server counts the people in the zones and publishes the levels, the Pi passes a message on to
the firmware, and the firmware draws it. `Station` runs the three together with all else that the
Pi sends and that the main loop does. `Reports` is what they are for: counts are reported, and the
reports arrive in order or not at all. `lights_station` says that the lights on the panel are those
of the last report that has arrived.

The broker keeps the order of the messages of a topic.
-/

namespace JeogiAt.Platform

open Audio Communication Display Paint Server Uart

/-- A round of `CongestionAnalyzer::run`, or of `CongestionPublisher::run`; the oldest message gets
to the Pi, or is lost; another request of the Pi; and what the main loop does besides. -/
inductive StationStep
  | round (current_zones : List ZoneConfig) (cams : CameraObjects)
  | publish (update_time : ℤ)
  | arrive (w : Surroundings)
  | lose
  | request (w : Surroundings) (r : Request) (other : ∀ levels, r ≠ .bulkCongestion levels)
  | sensors (co co2 : ℚ)
  | matrixRun (now : UInt32)

structure Reports where
  counts : Fin 8 → ℕ
  on_the_way : List (Fin 8 → ℕ)
  shown : Option (Fin 8 → ℕ)

namespace Reports

def init : Reports := ⟨fun _ => 0, [], none⟩

def step (s : Reports) : StationStep → Reports
  | .round current_zones cams => { s with counts := tempCounts current_zones cams }
  | .publish _ => { s with on_the_way := s.on_the_way ++ [s.counts] }
  | .arrive _ =>
      match s.on_the_way with
      | [] => s
      | counts :: rest => { s with on_the_way := rest, shown := some counts }
  | .lose => { s with on_the_way := s.on_the_way.tail }
  | _ => s

end Reports

def reports : Machine Reports StationStep Unit := ⟨fun s x => (s.step x, ())⟩

/-- The level shown for a car, which is one of its own before the first report. -/
def levelShown (shown : Option (Fin 8 → ℕ)) (i : Fin 8) : UInt8 :=
  match shown with
  | some counts => UInt8.ofNat (calculateLevel (counts i))
  | none => MatrixRun.boot.congestion_status.get i

structure Station (W : Type*) where
  analyzer : Getters
  on_the_way : List Json
  device : Device W
  scene : Scene

def getCongestionLevels (analyzer : Getters) : List Int32 :=
  List.ofFn fun i => Int32.ofNat (analyzer.m_current_levels i)

section

variable {W : Type*} (E : Env W) (T : FontTables) (uart_fd : ℤ)

namespace Station

def start (Image : ℤ → UInt8) (world : W) (tick tick' tick'' : UInt32) : Station W where
  analyzer := .init
  on_the_way := []
  device := { Device.start world with
    board := (Device.start world).board.matrixRunInit tick tick' tick'' }
  scene := Scene.start T Image tick.toNat tick'.toNat tick''.toNat

/-- Bytes arrive at the firmware, and the packet that they complete is handled before the next one
comes. A frame that is lost in the mailbox counts as a message that is lost. -/
def receive (w : Surroundings) (s : Station W) (bytes : List UInt8) : Station W :=
  let rx := uartRx.run s.device.rx bytes
  { s with
    device := s.device.deliver E w bytes
    scene :=
      if rx.pktReady then (scenes T).run s.scene (displaySteps w rx.pendingPkt) else s.scene }

def write (w : Surroundings) (s : Station W) : Option (List UInt8) → Station W
  | some bytes => s.receive E T w bytes
  | none => s

def step (s : Station W) : StationStep → Station W
  | .round current_zones cams =>
      { s with analyzer := s.analyzer.update (tempCounts current_zones cams) }
  | .publish update_time =>
      { s with on_the_way :=
          s.on_the_way ++ [congestionMessage (getCongestionLevels s.analyzer) update_time] }
  | .arrive w =>
      match s.on_the_way with
      | [] => s
      | data :: rest =>
          { s with on_the_way := rest }.write E T w (displayMessageArrived uart_fd data)
  | .lose => { s with on_the_way := s.on_the_way.tail }
  | .request w r _ => s.write E T w (r.written uart_fd)
  | .sensors co co2 =>
      { s with device := { s.device with
          board := (panel E).next s.device.board (PanelStep.sensors co co2) } }
  | .matrixRun now =>
      { s with
        device := { s.device with board := (panel E).next s.device.board (PanelStep.run now) }
        scene := s.scene.run T now.toNat s.device.board.g_db_data }

end Station

def stations : Machine (Station W) StationStep Unit := ⟨fun s x => (s.step E T uart_fd x, ())⟩

def IsReport (data : Json) (counts : Fin 8 → ℕ) : Prop :=
  IsCongestion data (List.ofFn fun i => Int32.ofNat (calculateLevel (counts i)))

structure Tracks (s : Station W) (r : Reports) : Prop where
  levels : s.analyzer.InForce
  counts : s.analyzer.m_current_counts = r.counts
  on_the_way : List.Forall₂ IsReport s.on_the_way r.on_the_way
  waiting : s.device.rx.rxState = .waitStx
  status : ∀ i, s.device.board.display.congestion_status.get i = levelShown r.shown i
  display : s.scene.display = s.device.board.display
  shows : ShowsCongestion s.scene

theorem calculateLevel_le (count : ℕ) : calculateLevel count ≤ 2 := by
  unfold calculateLevel
  split_ifs <;> omega

theorem levelShown_le (shown : Option (Fin 8 → ℕ)) (i : Fin 8) : levelShown shown i ≤ 2 := by
  cases shown with
  | none =>
    have hboot : ∀ i : Fin 8, MatrixRun.boot.congestion_status.get i ≤ 2 := by decide
    exact hboot i
  | some counts =>
    have hle := calculateLevel_le (counts i)
    have hlt : calculateLevel (counts i) < 256 := by omega
    rw [UInt8.le_iff_toNat_le]
    exact (UInt8.toNat_ofNat_of_lt' hlt).le.trans hle

theorem narrow_ofNat {n : ℕ} (h : n ≤ 2) : narrow (Int32.ofNat n) = UInt8.ofNat n := by
  have hcases : n = 0 ∨ n = 1 ∨ n = 2 := by omega
  rcases hcases with rfl | rfl | rfl <;> rfl

def reportBytes (counts : Fin 8 → ℕ) : List UInt8 :=
  List.ofFn fun i => levelShown (some counts) i

theorem map_narrow_levels (counts : Fin 8 → ℕ) :
    (List.ofFn fun i => Int32.ofNat (calculateLevel (counts i))).map narrow =
      reportBytes counts := by
  rw [List.map_ofFn, reportBytes]
  exact congrArg List.ofFn (funext fun i => narrow_ofNat (calculateLevel_le (counts i)))

theorem validBytes_report (counts : Fin 8 → ℕ) : validBytes (reportBytes counts) = true := by
  rw [validBytes_iff]
  refine ⟨List.length_ofFn, fun level hlevel => ?_⟩
  obtain ⟨i, rfl⟩ := (List.mem_ofFn' _ _).mp hlevel
  exact levelShown_le (some counts) i

theorem cmd_of_other {r : Request} (other : ∀ levels, r ≠ .bulkCongestion levels) :
    r.cmd ≠ cmdSetLed := by
  cases r with
  | getCo => exact (by decide : cmdGetCo ≠ cmdSetLed)
  | getCo2 => exact (by decide : cmdGetCo2 ≠ cmdSetLed)
  | tempHumi temp_raw humi_raw => exact (by decide : cmdGetTempHum ≠ cmdSetLed)
  | playWav filename => exact (by decide : cmdPlayWav ≠ cmdSetLed)
  | getWavs => exact (by decide : cmdGetWavs ≠ cmdSetLed)
  | bulkCongestion levels => exact absurd rfl (other levels)
  | displayControl action => exact (by decide : cmdDisplayCtrl ≠ cmdSetLed)
  | displayScreen screen => exact (by decide : cmdDisplayCtrl ≠ cmdSetLed)
  | trainDest dest_code => exact (by decide : cmdTrainDest ≠ cmdSetLed)

variable {E T uart_fd} {s : Station W} {r : Reports}

theorem showsCongestion_run {s : Scene} (h : ShowsCongestion s) (xs : List TimedStep) :
    ShowsCongestion ((scenes T).run s xs) :=
  (scenes T).invariant_run (I := ShowsCongestion) (fun _ x h => h.step x) h xs

/-- A frame is handled as its command. What it does to the levels is for the caller to say. -/
theorem Tracks.receive (h : Tracks s r) (w : Surroundings) (c : Command)
    {shown : Option (Fin 8 → ℕ)}
    (hstatus : ∀ pkt : Packet, pkt.toCommand = c → ∀ i,
      (process E w s.device.board pkt).1.display.congestion_status.get i = levelShown shown i) :
    Tracks (s.receive E T w c.frame) { r with shown } := by
  obtain ⟨hready, hpkt⟩ := pending_of_frame h.waiting c
  have hdevice : s.device.deliver E w c.frame =
      ⟨{ uartRx.run s.device.rx c.frame with pktReady := false },
        (process E w s.device.board (uartRx.run s.device.rx c.frame).pendingPkt).1⟩ := by
    rw [Device.deliver, uartHandlerProcess_pending E w hready]
  have hscene : (s.receive E T w c.frame).scene = (scenes T).run s.scene
      (displaySteps w (uartRx.run s.device.rx c.frame).pendingPkt) := by
    rw [Station.receive]
    dsimp only
    rw [if_pos hready]
  refine ⟨h.levels, h.counts, h.on_the_way, ?_, ?_, ?_, ?_⟩
  · rw [Station.receive]
    dsimp only
    rw [hdevice]
    exact (Receiver.run_frame h.waiting c).1
  · rw [Station.receive]
    dsimp only
    rw [hdevice]
    exact hstatus _ hpkt
  · rw [hscene, Station.receive]
    dsimp only
    rw [hdevice]
    exact display_packet E T h.display w _
  · rw [hscene]
    exact showsCongestion_run h.shows _

theorem Tracks.request (h : Tracks s r) (w : Surroundings) {q : Request}
    (other : ∀ levels, q ≠ .bulkCongestion levels) :
    Tracks (s.write E T w (q.written uart_fd)) r := by
  cases hwritten : q.written uart_fd with
  | none => exact h
  | some bytes =>
    obtain ⟨hle, rfl⟩ := q.written_eq_frame uart_fd bytes hwritten
    refine h.receive w ⟨q.cmd, q.data, hle⟩ fun pkt hpkt i => ?_
    have hcmd : pkt.cmd ≠ cmdSetLed := by
      have heq : pkt.cmd = q.cmd := congrArg Command.cmd hpkt
      rw [heq]
      exact cmd_of_other other
    rw [congestion_packet E w s.device.board hcmd]
    exact h.status i

theorem Tracks.arrive (h : Tracks s r) (hfd : 0 ≤ uart_fd) (w : Surroundings) {data : Json}
    {counts : Fin 8 → ℕ} (hreport : IsReport data counts) :
    Tracks (s.write E T w (displayMessageArrived uart_fd data))
      { r with shown := some counts } := by
  have hlength : (List.ofFn fun i => Int32.ofNat (calculateLevel (counts i))).length = 8 :=
    List.length_ofFn
  obtain ⟨c, hframe, hcmd, hdata⟩ := bulkCongestion_eq_frame hfd
    (List.ne_nil_of_length_pos (by omega)) hlength.le
  rw [displayMessageArrived_levels hreport, hframe]
  refine h.receive w c fun pkt hpkt i => ?_
  have hpayload : pkt.payload = reportBytes counts := by
    rw [← map_narrow_levels, ← hdata, ← hpkt]
    rfl
  have hled : pkt.cmd = cmdSetLed := by
    rw [← hcmd, ← hpkt]
    rfl
  have hstatus := status_processSetLed w s.device.board pkt
  rw [hpayload, if_pos (validBytes_report counts)] at hstatus
  rw [process_setLed E w s.device.board hled]
  have hvector := Vector.toList_inj.mp (hstatus.trans Vector.toList_ofFn.symm)
  rw [hvector]
  exact Vector.getElem_ofFn i.isLt

theorem isReport_message {analyzer : Getters} (h : analyzer.InForce) (update_time : ℤ) :
    IsReport (congestionMessage (getCongestionLevels analyzer) update_time)
      analyzer.m_current_counts := by
  have hlevels : getCongestionLevels analyzer =
      List.ofFn fun i => Int32.ofNat (calculateLevel (analyzer.m_current_counts i)) :=
    congrArg List.ofFn (funext fun i => congrArg Int32.ofNat (h i))
  rw [hlevels]
  exact isCongestion_message _ _

theorem tracks_start (Image : ℤ → UInt8) (world : W) (tick tick' tick'' : UInt32) :
    Tracks (Station.start T Image world tick tick' tick'') Reports.init where
  levels := Getters.inForce_init
  counts := rfl
  on_the_way := .nil
  waiting := rfl
  status := fun _ => rfl
  display := by
    unfold Station.start Scene.start Board.matrixRunInit
    dsimp only
    rw [halGetTick_toNat, halGetTick_toNat, halGetTick_toNat]
  shows := showsCongestion_start T Image _ _ _

theorem Tracks.matrixRun (h : Tracks s r) (now : UInt32) :
    Tracks (s.step E T uart_fd (.matrixRun now)) r where
  levels := h.levels
  counts := h.counts
  on_the_way := h.on_the_way
  waiting := h.waiting
  status := fun i => by
    have hsame := congestion_matrixRun s.device.board.display now s.device.board.g_db_data
    exact (congrArg (·.get i) hsame).trans (h.status i)
  display := display_step E T h.display (PanelStep.run now)
  shows := (h.shows.run now.toNat s.device.board.g_db_data).shows

theorem Tracks.step (h : Tracks s r) (hfd : 0 ≤ uart_fd) (x : StationStep) :
    Tracks (s.step E T uart_fd x) (r.step x) := by
  cases x with
  | round current_zones cams =>
    exact ⟨fun _ => rfl, rfl, h.on_the_way, h.waiting, h.status, h.display, h.shows⟩
  | publish update_time =>
    have hreport := isReport_message h.levels update_time
    rw [h.counts] at hreport
    exact ⟨h.levels, h.counts, List.rel_append h.on_the_way (.cons hreport .nil), h.waiting,
      h.status, h.display, h.shows⟩
  | arrive w =>
    unfold Station.step Reports.step
    cases hway : s.on_the_way with
    | nil =>
      have hnone := h.on_the_way
      rw [hway, List.forall₂_nil_left_iff] at hnone
      rw [hnone]
      exact h
    | cons data rest =>
      have hsome := h.on_the_way
      rw [hway] at hsome
      obtain ⟨counts, rest', hreport, hrest, heq⟩ := List.forall₂_cons_left_iff.mp hsome
      rw [heq]
      have hpopped : Tracks { s with on_the_way := rest } { r with on_the_way := rest' } :=
        ⟨h.levels, h.counts, hrest, h.waiting, h.status, h.display, h.shows⟩
      exact hpopped.arrive hfd w hreport
  | lose =>
    have htail := List.forall₂_drop 1 h.on_the_way
    rw [List.drop_one, List.drop_one] at htail
    exact ⟨h.levels, h.counts, htail, h.waiting, h.status, h.display, h.shows⟩
  | request w q other => exact h.request w other
  | sensors co co2 =>
    exact ⟨h.levels, h.counts, h.on_the_way, h.waiting, h.status, h.display, h.shows⟩
  | matrixRun now => exact h.matrixRun now

theorem tracks_run (hfd : 0 ≤ uart_fd) (Image : ℤ → UInt8) (world : W)
    (tick tick' tick'' : UInt32) (xs : List StationStep) :
    Tracks ((stations E T uart_fd).run (Station.start T Image world tick tick' tick'') xs)
      (reports.run .init xs) :=
  (Machine.run_refines (M := stations E T uart_fd) (N := reports) (R := Tracks)
    (fun _ _ x h => ⟨h.step hfd x, rfl⟩) (tracks_start Image world tick tick' tick'') xs).1

end

/-- Whatever else happens: when a call of `MatrixRun_Run` has left a dashboard on the panel, one of
the next sixteen calls of the interrupt, if they find the buffer as that call left it, lights each
car in the colour of the level that belongs to its count in the last report that has arrived. -/
theorem lights_station {W : Type*} (E : Env W) (T : FontTables) {uart_fd : ℤ} (hfd : 0 ≤ uart_fd)
    (Image : ℤ → UInt8) (world : W) (tick tick' tick'' : UInt32) (xs : List StationStep)
    (now : UInt32) {s : Station W}
    (hs : (stations E T uart_fd).run (Station.start T Image world tick tick' tick'')
      (xs ++ [StationStep.matrixRun now]) = s)
    (hscreen : s.device.board.display.current_screen = screenDashboard)
    (hshown : s.device.board.display.panel ≠ none) {p : Hub75} (hp : p.Ready)
    (bufs : List (ℤ → UInt8)) :
    ∃ k < 16, ∃ lanes,
      (p.run (Hub75.scanned (bufs ++ List.replicate (k + 1) s.scene.leds.Image))).lit =
        some (3, lanes) ∧
      ∀ i : Fin 8, (lanes[120 - i.val * 7]?).map Prod.snd =
        some (levelColour (levelShown (reports.run .init xs).shown i)) := by
  have htracks : Tracks s (reports.run .init (xs ++ [StationStep.matrixRun now])) :=
    hs ▸ tracks_run hfd Image world tick tick' tick'' _
  have hdrawn : UpToDate s.scene := by
    rw [← hs, Machine.run_concat]
    exact (tracks_run hfd Image world tick tick' tick'' xs).shows.run _ _
  have hstatus (i : Fin 8) : s.scene.display.congestion_status.get i =
      levelShown (reports.run .init xs).shown i := by
    rw [htracks.display, htracks.status, Machine.run_concat]
    rfl
  have hlevels : LevelsShown s.scene.display.congestion_status := fun i => by
    rw [hstatus]
    exact levelShown_le _ i
  rw [← htracks.display] at hscreen hshown
  obtain ⟨k, hk, lanes, hlit, hcars⟩ := lit_cars hdrawn hscreen hshown hlevels hp bufs
  exact ⟨k, hk, lanes, hlit, fun i => hstatus i ▸ hcars i⟩

/-- One person in the first zone, and the report has arrived. -/
def onePerson : List StationStep :=
  [.round [⟨1, "hanwha", 0, 0, 1, 1⟩] ⟨[.point (1 / 2) (1 / 2)], []⟩, .publish 0, .arrive .bare]

theorem lights_station_onePerson :
    ∃ k < 16, ∃ lanes, (Hub75.run ⟨fun q => decide (q = .oe), List.replicate 128 default, []⟩
        (Hub75.scanned ([] ++ List.replicate (k + 1)
          ((stations noCard ⟨fun _ => 0, fun _ => 0⟩ 3).run
            (Station.start ⟨fun _ => 0, fun _ => 0⟩ (fun _ => 0xAA) () 0 0 0)
            (onePerson ++ [StationStep.matrixRun 100])).scene.leds.Image))).lit =
              some (3, lanes) ∧
      ∀ i : Fin 8, (lanes[120 - i.val * 7]?).map Prod.snd =
        some (levelColour (levelShown (reports.run .init onePerson).shown i)) :=
  lights_station noCard _ (by omega) _ () 0 0 0 onePerson 100 rfl (by decide +kernel)
    (Option.ne_none_iff_isSome.mpr (by decide +kernel)) ⟨List.length_replicate, rfl⟩ []

end JeogiAt.Platform
