import JeogiAt.UartHandler

/-!
# What the firmware answers

`ReplyLaw` says what the answer to a packet should be. The handler keeps to it except for
`CMD_PLAY_WAV`, whose answers name another command, and for lists of WAV files that are longer than
`SendPacket` can send or that nobody has written.
-/

namespace JeogiAt.Uart

open Audio Decimal Display Storage

def ack (cmd : UInt8) : Command := ⟨cmdAck, [cmd], Nat.le_of_ble_eq_true rfl⟩

def nack (cmd err : UInt8) : Command := ⟨cmdNack, [cmd, err], Nat.le_of_ble_eq_true rfl⟩

theorem sendAck_eq_frame (stack : Vector UInt8 (pktMaxDataLen + 6)) (cmd : UInt8) :
    sendAck stack cmd = (ack cmd).frame :=
  sendPacket_short stack (ack cmd) (Nat.le_of_ble_eq_true rfl)

theorem sendNack_eq_frame (stack : Vector UInt8 (pktMaxDataLen + 6)) (cmd err : UInt8) :
    sendNack stack cmd err = (nack cmd err).frame :=
  sendPacket_short stack (nack cmd err) (Nat.le_of_ble_eq_true rfl)

theorem ack_ne_nack (cmd cmd' err : UInt8) : [(ack cmd).frame] ≠ [(nack cmd' err).frame] := by
  intro heq
  have hframe := Command.frame_injective (List.singleton_inj.mp heq)
  exact absurd (congrArg Command.cmd hframe) (by decide : cmdAck ≠ cmdNack)

def sensorResponse (cmd : UInt8) (val : ℚ) : Command :=
  ⟨cmdRespSensor, [cmdRespSensor, cmd, (toUint16 (val * 100) >>> 8 &&& 0xFF).toUInt8,
    (toUint16 (val * 100) &&& 0xFF).toUInt8], Nat.le_of_ble_eq_true rfl⟩

theorem respondReading_eq (stack : Vector UInt8 (pktMaxDataLen + 6)) (cmd : UInt8) (val : ℚ) :
    respondReading stack cmd val = (sensorResponse cmd val).frame :=
  sendPacket_short stack (sensorResponse cmd val) (Nat.le_of_ble_eq_true rfl)

/-- The names that a list of WAV files should hold: none if the directory cannot be opened. -/
def names (dir : Directory) : List (List UInt8) := if dir.opendir = frOk then dir.listed else []

theorem length_names_le (dir : Directory) : (lines (names dir)).length ≤ 255 := by
  rw [names]
  split_ifs
  · exact length_lines_listed dir
  · exact Nat.zero_le _

def wavsResponse (dir : Directory) : Command :=
  ⟨cmdRespWavs, lines (names dir), length_names_le dir⟩

theorem wavsResponse_data (dir : Directory) : (wavsResponse dir).data = lines (names dir) := rfl

section

variable (w : Surroundings)

theorem length_data_sdReadFiles :
    (sdReadFiles w.directory w.data.toList w.len).data.length = 255 := by
  by_cases hopen : w.directory.opendir = frOk
  · exact (sdReadFiles_opened hopen w.data w.len).length_data
  · rw [sdReadFiles_unopened hopen]
    exact Vector.length_toList

/-- What `SendPacket` is given for `CMD_GET_WAVS`. -/
def wavsSent : Command :=
  let r := sdReadFiles w.directory w.data.toList w.len
  ⟨cmdRespWavs, r.data.take r.len.toNat, by
    rw [List.length_take]
    exact (Nat.min_le_right ..).trans (length_data_sdReadFiles w).le⟩

theorem wavsSent_len :
    (wavsSent w).len = (sdReadFiles w.directory w.data.toList w.len).len := by
  have hdata := length_data_sdReadFiles w
  have hlt := (sdReadFiles w.directory w.data.toList w.len).len.toNat_lt
  have hmin : min (sdReadFiles w.directory w.data.toList w.len).len.toNat 255 =
      (sdReadFiles w.directory w.data.toList w.len).len.toNat := by omega
  rw [Command.len, wavsSent, List.length_take, hdata, hmin, UInt8.ofNat_toNat]

theorem processGetWavs_eq :
    processGetWavs w =
      sendPacket w.stack (wavsSent w).cmd (wavsSent w).data (wavsSent w).len := by
  rw [processGetWavs, sendPacket_take, wavsSent_len]
  rfl

variable {w}

theorem wavsSent_of_opened (h : w.directory.opendir = frOk) :
    wavsSent w = wavsResponse w.directory := by
  refine Command.ext rfl ((sdReadFiles_opened h w.data w.len).bytes.trans ?_)
  rw [wavsResponse_data, names, if_pos h]

theorem wavsSent_of_unopened (h : w.directory.opendir ≠ frOk) :
    (wavsSent w).data = w.data.toList.take w.len.toNat := by
  have hread := sdReadFiles_unopened h w.data.toList w.len
  exact congrArg (fun r => r.data.take r.len.toNat) hread

end

/-- What is sent is a frame exactly when its data has at most 250 bytes. -/
theorem sendPacket_eq_frame_iff (stack : Vector UInt8 (pktMaxDataLen + 6)) (c c' : Command) :
    sendPacket stack c.cmd c.data c.len = c'.frame ↔
      c.data.length ≤ 250 ∧ c.frame = c'.frame := by
  by_cases hshort : c.data.length ≤ 250
  · rw [sendPacket_short stack c hshort, and_iff_right hshort]
  · refine iff_of_false (fun hsent => ?_) fun h => hshort h.1
    have hlong := length_sendPacket_long stack c (by omega)
    rw [hsent, Command.length_frame] at hlong
    omega

def ListSent (w : Surroundings) : Prop :=
  if w.directory.opendir = frOk then (lines w.directory.listed).length ≤ 250 else w.len = 0

theorem processGetWavs_eq_frame_iff (w : Surroundings) :
    processGetWavs w = (wavsResponse w.directory).frame ↔ ListSent w := by
  rw [processGetWavs_eq, sendPacket_eq_frame_iff, ListSent]
  split_ifs with hopen
  · rw [wavsSent_of_opened hopen, and_iff_left rfl, wavsResponse_data, names, if_pos hopen]
  · have hnone : (wavsResponse w.directory).data = [] := by
      rw [wavsResponse_data, names, if_neg hopen]
      rfl
    have hdata := wavsSent_of_unopened hopen
    constructor
    · rintro ⟨-, hframe⟩
      have hlength := congrArg List.length hframe
      rw [Command.length_frame, Command.length_frame, hnone, hdata, List.length_take,
        Vector.length_toList, List.length_nil] at hlength
      have := w.len.toNat_lt
      exact UInt8.toNat_inj.mp (show w.len.toNat = 0 by omega)
    · intro hzero
      have hsame : wavsSent w = wavsResponse w.directory := by
        refine Command.ext rfl ?_
        rw [hdata, hzero, hnone]
        rfl
      rw [hsame, hnone]
      exact ⟨Nat.zero_le _, rfl⟩

section Law

variable {W : Type*} (E : Env W) (w : Surroundings) (pkt : Packet) (b b' : Board W)

def TempHumSet : Prop :=
  pkt.len = 4 ∧ b' = { b with g_db_data :=
    b.g_db_data.setTempHumValues (pkt.tempDeci.toInt / 100) (pkt.humDeci.toInt / 100) }

def LevelsSet : Prop :=
  pkt.len = 8 ∧ (∀ level ∈ pkt.levels, level ≤ 2) ∧
    b' = { b with display := b.display.setCongestionBulk pkt.levels }

def DestSet : Prop :=
  pkt.len = 1 ∧ b' = { b with display := b.display.setTrainDest pkt.destCode w.tick }

def CycleSet : Prop :=
  pkt.text = [digit 0] ∧ b' = { b with display := b.display.setAutoCycle true w.tick w.tick' }

def ScreenSet : Prop :=
  pkt.text ≠ [digit 0] ∧ ∃ k ≤ screenTrain, atoi pkt.text = k.toNat + 1 ∧
    b' = { b with display := b.display.setScreen k w.tick }

def Playing : Prop :=
  pkt.len ≠ 0 ∧ (b.audio.startWav E (fileName pkt.text)).2 = true ∧
    b' = { b with audio := (b.audio.startWav E (fileName pkt.text)).1 }

/-- One answer: an acknowledgement if the effect was carried out, and otherwise an error, with
nothing changed. -/
def Answered (carriedOut : Prop) (sent : List (List UInt8)) : Prop :=
  (carriedOut ∧ sent = [(ack pkt.cmd).frame]) ∨
    (¬ carriedOut ∧ b' = b ∧ ∃ err ∈ [errInvalidCmd, errInvalidData, errDeviceBusy],
      sent = [(nack pkt.cmd err).frame])

def knownCommands : List UInt8 :=
  [cmdGetCo, cmdGetCo2, cmdGetTempHum, cmdSetLed, cmdTrainDest, cmdDisplayCtrl, cmdPlayWav,
    cmdGetWavs]

/-- The packet takes the board from `b` to `b'`, and these are the answers sent. -/
structure ReplyLaw (sent : List (List UInt8)) : Prop where
  getCo : pkt.cmd = cmdGetCo → sent = [(sensorResponse cmdGetCo w.co_val).frame]
  getCo2 : pkt.cmd = cmdGetCo2 → sent = [(sensorResponse cmdGetCo2 w.co2_val).frame]
  getWavs : pkt.cmd = cmdGetWavs → sent = [(wavsResponse w.directory).frame]
  tempHum : pkt.cmd = cmdGetTempHum → Answered pkt b b' (TempHumSet pkt b b') sent
  setLed : pkt.cmd = cmdSetLed → Answered pkt b b' (LevelsSet pkt b b') sent
  trainDest : pkt.cmd = cmdTrainDest → Answered pkt b b' (DestSet w pkt b b') sent
  displayCtrl : pkt.cmd = cmdDisplayCtrl →
    Answered pkt b b' (CycleSet w pkt b b' ∨ ScreenSet w pkt b b') sent
  playWav : pkt.cmd = cmdPlayWav → Answered pkt b b' (Playing E pkt b b') sent
  unknown : pkt.cmd ∉ knownCommands → sent = [(nack pkt.cmd errInvalidCmd).frame]

end Law

section

variable {W : Type*} (E : Env W) (w : Surroundings) (pkt : Packet) (b : Board W)

theorem answered_ack {b' : Board W} {carriedOut : Prop} (h : carriedOut) :
    Answered pkt b b' carriedOut [sendAck w.stack pkt.cmd] :=
  .inl ⟨h, by rw [sendAck_eq_frame]⟩

theorem answered_nack {carriedOut : Prop} (h : ¬ carriedOut) :
    Answered pkt b b carriedOut [sendNack w.stack pkt.cmd errInvalidData] :=
  .inr ⟨h, rfl, errInvalidData, by simp, by rw [sendNack_eq_frame]⟩

theorem answered_tempHum :
    Answered pkt b (processTempHum w b pkt).1 (TempHumSet pkt b (processTempHum w b pkt).1)
      (processTempHum w b pkt).2 := by
  unfold processTempHum
  split_ifs with hlen
  · exact answered_nack w pkt b fun h => hlen h.1
  · exact answered_ack w pkt b ⟨not_not.mp hlen, rfl⟩

theorem answered_setLed :
    Answered pkt b (processSetLed w b pkt).1 (LevelsSet pkt b (processSetLed w b pkt).1)
      (processSetLed w b pkt).2 := by
  unfold processSetLed
  split_ifs with hlen hhigh
  · exact answered_nack w pkt b fun h => hlen h.1
  · exact answered_nack w pkt b fun h => pkt.any_levels_iff.mp hhigh h.2.1
  · have hlevels := not_not.mp (mt pkt.any_levels_iff.mpr hhigh)
    exact answered_ack w pkt b ⟨not_not.mp hlen, hlevels, rfl⟩

theorem answered_trainDest :
    Answered pkt b (processTrainDest w b pkt).1 (DestSet w pkt b (processTrainDest w b pkt).1)
      (processTrainDest w b pkt).2 := by
  unfold processTrainDest
  split_ifs with hlen
  · exact answered_nack w pkt b fun h => hlen h.1
  · exact answered_ack w pkt b ⟨not_not.mp hlen, rfl⟩

theorem answered_displayCtrl :
    Answered pkt b (processDisplayCtrl w b pkt).1
      (CycleSet w pkt b (processDisplayCtrl w b pkt).1 ∨
        ScreenSet w pkt b (processDisplayCtrl w b pkt).1)
      (processDisplayCtrl w b pkt).2 := by
  have htrain (k : UInt8) : k ≤ screenTrain ↔ k.toNat ≤ 3 := UInt8.le_iff_toNat_le
  rw [processDisplayCtrl_eq]
  split_ifs with haction hscreen
  · exact answered_ack w pkt b (.inl ⟨haction, rfl⟩)
  · have hk := @toNat_screen (atoi pkt.text - 1) (by omega)
    refine answered_ack w pkt b (.inr ⟨haction, _, (htrain _).mpr ?_, ?_, rfl⟩)
    · omega
    · omega
  · refine answered_nack w pkt b ?_
    rintro (⟨hcycle, -⟩ | ⟨-, k, hk, heq, -⟩)
    · exact haction hcycle
    · have := (htrain k).mp hk
      omega

variable {pkt}

theorem process_getCo (h : pkt.cmd = cmdGetCo) :
    process E w b pkt = (b, [(sensorResponse cmdGetCo w.co_val).frame]) := by
  rw [← respondReading_eq w.stack, process, h]
  rfl

theorem process_getCo2 (h : pkt.cmd = cmdGetCo2) :
    process E w b pkt = (b, [(sensorResponse cmdGetCo2 w.co2_val).frame]) := by
  rw [← respondReading_eq w.stack, process, h]
  rfl

theorem process_unknown (h : pkt.cmd ∉ knownCommands) :
    process E w b pkt = (b, [(nack pkt.cmd errInvalidCmd).frame]) := by
  simp only [knownCommands, List.mem_cons, List.not_mem_nil, or_false, not_or] at h
  rw [← sendNack_eq_frame w.stack, process, if_neg h.1, if_neg h.2.1, if_neg h.2.2.1,
    if_neg h.2.2.2.1, if_neg h.2.2.2.2.1, if_neg h.2.2.2.2.2.1, if_neg h.2.2.2.2.2.2.1,
    if_neg h.2.2.2.2.2.2.2]

theorem process_playWav_names (h : pkt.cmd = cmdPlayWav) :
    ∃ cmd err, cmd ≠ cmdPlayWav ∧ (process E w b pkt).2 = [(nack cmd err).frame] := by
  rw [process_playWav E w b h]
  unfold processPlayWav
  split_ifs
  · exact ⟨cmdNack, 1, by decide, by rw [sendNack_eq_frame]⟩
  · exact ⟨cmdAck, 0, by decide, by rw [sendNack_eq_frame]⟩

theorem not_answered_playWav {b' : Board W} {cmd err : UInt8} (hcmd : cmd ≠ pkt.cmd)
    (carriedOut : Prop) : ¬ Answered pkt b b' carriedOut [(nack cmd err).frame] := by
  rintro (⟨-, hsent⟩ | ⟨-, -, err', -, hsent⟩)
  · exact ack_ne_nack _ _ _ hsent.symm
  · have hframe := Command.frame_injective (List.singleton_inj.mp hsent)
    exact hcmd (List.head_eq_of_cons_eq (congrArg Command.data hframe))

end

theorem replyLaw_process {W : Type*} (E : Env W) (w : Surroundings) (b : Board W) {pkt : Packet}
    (hplay : pkt.cmd ≠ cmdPlayWav) (hwavs : pkt.cmd = cmdGetWavs → ListSent w) :
    ReplyLaw E w pkt b (process E w b pkt).1 (process E w b pkt).2 where
  getCo := fun hcmd => by rw [process_getCo E w b hcmd]
  getCo2 := fun hcmd => by rw [process_getCo2 E w b hcmd]
  getWavs := fun hcmd => by
    rw [process_getWavs E w b hcmd, (processGetWavs_eq_frame_iff w).mpr (hwavs hcmd)]
  tempHum := fun hcmd => by
    rw [process_tempHum E w b hcmd]
    exact answered_tempHum w pkt b
  setLed := fun hcmd => by
    rw [process_setLed E w b hcmd]
    exact answered_setLed w pkt b
  trainDest := fun hcmd => by
    rw [process_trainDest E w b hcmd]
    exact answered_trainDest w pkt b
  displayCtrl := fun hcmd => by
    rw [process_displayCtrl E w b hcmd]
    exact answered_displayCtrl w pkt b
  playWav := fun hcmd => absurd hcmd hplay
  unknown := fun hcmd => by rw [process_unknown E w b hcmd]

/-- The handler keeps to the law exactly when the command is not `CMD_PLAY_WAV` and, for
`CMD_GET_WAVS`, the list goes out whole. -/
theorem replyLaw_iff {W : Type*} (E : Env W) (w : Surroundings) {d : Device W}
    (h : d.rx.pktReady = true) :
    ReplyLaw E w d.rx.pendingPkt d.board (uartHandlerProcess E w d).1.board
        (uartHandlerProcess E w d).2 ↔
      d.rx.pendingPkt.cmd ≠ cmdPlayWav ∧
        (d.rx.pendingPkt.cmd = cmdGetWavs → ListSent w) := by
  rw [uartHandlerProcess_pending E w h]
  generalize d.rx.pendingPkt = pkt
  constructor
  · intro hlaw
    constructor
    · intro hplay
      obtain ⟨cmd, err, hcmd, hsent⟩ := process_playWav_names E w d.board hplay
      have hanswer := hlaw.playWav hplay
      rw [hsent] at hanswer
      exact not_answered_playWav d.board (hplay ▸ hcmd) _ hanswer
    · intro hwavs
      have hsent := hlaw.getWavs hwavs
      rw [process_getWavs E w d.board hwavs] at hsent
      exact (processGetWavs_eq_frame_iff w).mp (List.singleton_inj.mp hsent)
  · rintro ⟨hplay, hwavs⟩
    exact replyLaw_process E w d.board hplay hwavs

theorem replyLaw_trainDest :
    let d := (Device.start ()).pending ⟨cmdTrainDest, 1, Vector.replicate _ 2, 0x5F⟩
    d.rx.pktReady = true ∧ ReplyLaw noCard .bare d.rx.pendingPkt d.board
      (uartHandlerProcess noCard .bare d).1.board (uartHandlerProcess noCard .bare d).2 := by
  intro d
  have h : d.rx.pktReady = true := rfl
  exact ⟨h, (replyLaw_iff noCard .bare h).mpr
    ⟨(by decide : cmdTrainDest ≠ cmdPlayWav), fun hcmd => absurd hcmd (by decide)⟩⟩

/-- The answer to a file name that cannot be opened is a NACK that names `CMD_ACK`. -/
theorem playWav_not_answered :
    ¬ ∀ (E : Env Unit) (w : Surroundings) (d : Device Unit), d.rx.pktReady = true →
      ReplyLaw E w d.rx.pendingPkt d.board (uartHandlerProcess E w d).1.board
        (uartHandlerProcess E w d).2 := by
  intro hall
  let d := (Device.start ()).pending ⟨cmdPlayWav, 1, Vector.replicate _ 0x61, 0x15⟩
  have hlaw := (hall noCard .bare d rfl).playWav rfl
  have hsent : (uartHandlerProcess noCard .bare d).2 = [(nack cmdAck 0).frame] :=
    congrArg (fun bytes => [bytes]) (sendNack_eq_frame _ cmdAck 0)
  rw [hsent] at hlaw
  exact not_answered_playWav _ (by decide : cmdAck ≠ cmdPlayWav) _ hlaw

/-- What a list of a directory that can be opened consists of is sent, whatever the surroundings. -/
theorem processGetWavs_of_opened {w : Surroundings} (h : w.directory.opendir = frOk) :
    processGetWavs w = sendPacket (Vector.replicate _ 0) (wavsResponse w.directory).cmd
      (wavsResponse w.directory).data (wavsResponse w.directory).len := by
  rw [processGetWavs_eq, wavsSent_of_opened h, sendPacket_stack]

theorem uartHandlerProcess_getWavs {W : Type*} (E : Env W) (w : Surroundings) {d : Device W}
    (h : d.rx.pktReady = true) (hcmd : d.rx.pendingPkt.cmd = cmdGetWavs) :
    (uartHandlerProcess E w d).2 = [processGetWavs w] := by
  rw [uartHandlerProcess_pending E w h]
  exact congrArg Prod.snd (process_getWavs E w d.board hcmd)

/-- The list sent tells nothing of what was on the stack exactly when the directory can be
opened. -/
theorem getWavs_independent_iff {W : Type*} (E : Env W) {d d' : Device W}
    (h : d.rx.pktReady = true) (hcmd : d.rx.pendingPkt.cmd = cmdGetWavs)
    (h' : d'.rx.pktReady = true) (hcmd' : d'.rx.pendingPkt.cmd = cmdGetWavs)
    (directory : Directory) :
    (∀ w w' : Surroundings, w.directory = directory → w'.directory = directory →
        (uartHandlerProcess E w d).2 = (uartHandlerProcess E w' d').2) ↔
      directory.opendir = frOk := by
  simp only [uartHandlerProcess_getWavs E _ h hcmd, uartHandlerProcess_getWavs E _ h' hcmd',
    List.singleton_inj]
  constructor
  · intro hall
    by_contra hopen
    -- two stacks on which `len` is 0 and 1
    have hlength (len : UInt8) (hlen : len.toNat ≤ 250) :
        (processGetWavs { Surroundings.bare with directory, len }).length = len.toNat + 5 := by
      have hdata := @wavsSent_of_unopened { Surroundings.bare with directory, len } hopen
      have hsize : (wavsSent { Surroundings.bare with directory, len }).data.length =
          len.toNat := by
        rw [hdata, List.length_take, Vector.length_toList]
        exact Nat.min_eq_left (show len.toNat ≤ 255 by omega)
      rw [processGetWavs_eq, sendPacket_short _ _ (by omega), Command.length_frame, hsize]
    have hsame := congrArg List.length (hall { Surroundings.bare with directory, len := 0 }
      { Surroundings.bare with directory, len := 1 } rfl rfl)
    rw [hlength 0 (by decide), hlength 1 (by decide)] at hsame
    exact absurd hsame (by decide)
  · rintro hopen w w' rfl hdir
    rw [processGetWavs_of_opened hopen, processGetWavs_of_opened (hdir ▸ hopen), hdir]

theorem getWavs_independent_empty :
    let d := (Device.start ()).pending ⟨cmdGetWavs, 0, Vector.replicate _ 0, 0x74⟩
    d.rx.pktReady = true ∧ d.rx.pendingPkt.cmd = cmdGetWavs ∧
      ∀ w w' : Surroundings, w.directory = ⟨frOk, []⟩ → w'.directory = ⟨frOk, []⟩ →
        (uartHandlerProcess noCard w d).2 = (uartHandlerProcess noCard w' d).2 := by
  intro d
  exact ⟨rfl, rfl, (getWavs_independent_iff noCard rfl rfl rfl rfl ⟨frOk, []⟩).mpr rfl⟩

/-- Without a card the length of the answer is what the stack holds for `len`. -/
theorem getWavs_stale_length :
    ¬ ∀ (E : Env Unit) (d : Device Unit) (w w' : Surroundings), d.rx.pktReady = true →
      d.rx.pendingPkt.cmd = cmdGetWavs → w.directory = w'.directory →
        (uartHandlerProcess E w d).2 = (uartHandlerProcess E w' d).2 := by
  intro hall
  let d := (Device.start ()).pending ⟨cmdGetWavs, 0, Vector.replicate _ 0, 0x74⟩
  have hsame := hall noCard d .bare { Surroundings.bare with len := 1 } rfl rfl rfl
  have hlength := congrArg (fun sent => (sent.map List.length)) hsame
  exact absurd hlength (by decide)

end JeogiAt.Uart
