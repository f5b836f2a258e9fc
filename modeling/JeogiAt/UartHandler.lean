import JeogiAt.AudioPlayer
import JeogiAt.GasReadings
import JeogiAt.Library.Decimal
import JeogiAt.MatrixRun
import JeogiAt.UartReceiver
import JeogiAt.WavListing

/-!
# The firmware's command handler

`process` is the switch of `UART_Handler_Process`. It takes the board from one state to the next
and gives the calls of `HAL_UART_Transmit` with the bytes of each. What the handler does not compute
itself is in its `Surroundings`: the readings, the clock, the card, and what happens to be on the
stack where its uninitialised variables are.
-/

namespace JeogiAt.Uart

open Audio Decimal Display Storage

def cmdAck : UInt8 := 0xF0
def cmdNack : UInt8 := 0xF1

def errInvalidCmd : UInt8 := 0x01
def errInvalidData : UInt8 := 0x02
def errDeviceBusy : UInt8 := 0x03

structure Board (W : Type*) where
  g_db_data : DbData
  display : MatrixRun
  audio : Player W

/-- What a call of the handler finds: `stack` is the buffer of `SendPacket`, `co_val` and `co2_val`
are what the sensors' functions return, and `data` and `len` are the locals of `CMD_GET_WAVS`. -/
structure Surroundings where
  stack : Vector UInt8 (pktMaxDataLen + 6)
  co_val : ℚ
  co2_val : ℚ
  tick : UInt32
  tick' : UInt32
  directory : Directory
  data : Vector UInt8 255
  len : UInt8

def sendAck (stack : Vector UInt8 (pktMaxDataLen + 6)) (cmd : UInt8) : List UInt8 :=
  sendPacket stack cmdAck [cmd] 1

def sendNack (stack : Vector UInt8 (pktMaxDataLen + 6)) (cmd err : UInt8) : List UInt8 :=
  sendPacket stack cmdNack [cmd, err] 2

namespace Packet

/-- Two bytes of the data as an `int16_t`. -/
def int16 (pkt : Packet) (i : Fin 255) : Int16 :=
  ((pkt.data.get i.castSucc).toUInt16 <<< 8 ||| (pkt.data.get i.succ).toUInt16).toInt16

def tempDeci (pkt : Packet) : Int16 := pkt.int16 0

def humDeci (pkt : Packet) : Int16 := pkt.int16 2

def destCode (pkt : Packet) : UInt8 := pkt.data.get 0

def levels (pkt : Packet) : Vector UInt8 8 :=
  Vector.ofFn fun i => pkt.data.get (i.castLE (by decide))

/-- The data as the C string that the handler makes of it. -/
def text (pkt : Packet) : List UInt8 := pkt.payload.takeWhile (· ≠ 0)

theorem any_levels_iff (pkt : Packet) :
    pkt.levels.any (2 < ·) = true ↔ ¬ ∀ level ∈ pkt.levels, level ≤ 2 := by
  rw [Vector.any_eq_true']
  simp only [decide_eq_true_eq, not_forall, exists_prop, UInt8.not_le]

theorem text_of_len {pkt : Packet} (h : pkt.len = 0) : pkt.text = [] := by
  rw [text, payload, h]
  rfl

end Packet

def fileName (text : List UInt8) : String := String.ofList (text.map fun b => Char.ofNat b.toNat)

section Commands

variable {W : Type*} (E : Env W) (w : Surroundings) (b : Board W) (pkt : Packet)

def processTempHum : Board W × List (List UInt8) :=
  if pkt.len ≠ 4 then (b, [sendNack w.stack pkt.cmd errInvalidData])
  else
    ({ b with g_db_data :=
        b.g_db_data.setTempHumValues (pkt.tempDeci.toInt / 100) (pkt.humDeci.toInt / 100) },
      [sendAck w.stack pkt.cmd])

def processSetLed : Board W × List (List UInt8) :=
  if pkt.len ≠ 8 then (b, [sendNack w.stack pkt.cmd errInvalidData])
  else if pkt.levels.any (2 < ·) then (b, [sendNack w.stack pkt.cmd errInvalidData])
  else
    ({ b with display := b.display.setCongestionBulk pkt.levels }, [sendAck w.stack pkt.cmd])

def processTrainDest : Board W × List (List UInt8) :=
  if pkt.len ≠ 1 then (b, [sendNack w.stack pkt.cmd errInvalidData])
  else
    ({ b with display := b.display.setTrainDest pkt.destCode w.tick },
      [sendAck w.stack pkt.cmd])

def processDisplayCtrl : Board W × List (List UInt8) :=
  -- the second test is for lengths that a `uint8_t` cannot hold
  if pkt.len = 0 ∨ pktMaxDataLen ≤ pkt.len.toNat then
    (b, [sendNack w.stack pkt.cmd errInvalidData])
  else
    let action := pkt.text
    if action = [digit 0] then
      ({ b with display := b.display.setAutoCycle true w.tick w.tick' },
        [sendAck w.stack pkt.cmd])
    else
      let screen := atoi action - 1
      if screen < 0 ∨ 3 < screen then (b, [sendNack w.stack pkt.cmd errInvalidData])
      else
        ({ b with display := b.display.setScreen (UInt8.ofNat screen.toNat) w.tick },
          [sendAck w.stack pkt.cmd])

def processPlayWav : Board W × List (List UInt8) :=
  if pkt.len = 0 ∨ 255 < pkt.len.toNat then (b, [sendNack w.stack cmdNack 1])
  else
    ({ b with audio := (b.audio.startWav E (fileName pkt.text)).1 }, [sendNack w.stack cmdAck 0])

def processGetWavs : List UInt8 :=
  let r := sdReadFiles w.directory w.data.toList w.len
  sendPacket w.stack cmdRespWavs r.data r.len

/-- The switch of `UART_Handler_Process`. -/
def process : Board W × List (List UInt8) :=
  if pkt.cmd = cmdGetCo then (b, [processGetCo w.stack w.co_val])
  else if pkt.cmd = cmdGetCo2 then (b, [processGetCo2 w.stack w.co2_val])
  else if pkt.cmd = cmdGetTempHum then processTempHum w b pkt
  else if pkt.cmd = cmdSetLed then processSetLed w b pkt
  else if pkt.cmd = cmdTrainDest then processTrainDest w b pkt
  else if pkt.cmd = cmdDisplayCtrl then processDisplayCtrl w b pkt
  else if pkt.cmd = cmdPlayWav then processPlayWav E w b pkt
  else if pkt.cmd = cmdGetWavs then (b, [processGetWavs w])
  else (b, [sendNack w.stack pkt.cmd errInvalidCmd])

end Commands

structure Device (W : Type*) where
  rx : Receiver
  board : Board W

def Surroundings.bare : Surroundings where
  stack := Vector.replicate _ 0
  co_val := 0
  co2_val := 0
  tick := 0
  tick' := 0
  directory := ⟨1, []⟩
  data := Vector.replicate _ 0
  len := 0

def noCard : Env Unit where
  f_open _ _ := (false, ())
  f_lseek _ _ := (false, ())
  f_read _ _ := ([], ())
  f_close _ := ()
  transmitDma _ := (true, ())
  dmaStop _ := ()
  getTick _ := (0, ())
  interrupts _ := ([], ())
  length_f_read _ _ := Nat.zero_le _

def Device.start {W : Type*} (world : W) : Device W where
  rx := .init
  board :=
    ⟨⟨0, 0, 24.5, 51⟩, MatrixRun.boot.matrixRunInit 0 0 0, (Player.boot .init world).audioInit⟩

def Device.pending {W : Type*} (d : Device W) (pkt : Packet) : Device W :=
  { d with rx := { d.rx with pktReady := true, pendingPkt := pkt } }

def uartHandlerProcess {W : Type*} (E : Env W) (w : Surroundings) (d : Device W) :
    Device W × List (List UInt8) :=
  if !d.rx.pktReady then (d, [])
  else
    let pkt := d.rx.pendingPkt
    let (board, sent) := process E w d.board pkt
    (⟨{ d.rx with pktReady := false }, board⟩, sent)

theorem uartHandlerProcess_pending {W : Type*} (E : Env W) (w : Surroundings) {d : Device W}
    (h : d.rx.pktReady = true) :
    uartHandlerProcess E w d =
      (⟨{ d.rx with pktReady := false }, (process E w d.board d.rx.pendingPkt).1⟩,
        (process E w d.board d.rx.pendingPkt).2) := by
  rw [uartHandlerProcess, h]
  rfl

section

variable {W : Type*} (E : Env W) (w : Surroundings) (b : Board W) {pkt : Packet}

theorem process_tempHum (h : pkt.cmd = cmdGetTempHum) :
    process E w b pkt = processTempHum w b pkt := by
  rw [process, h]
  rfl

theorem process_setLed (h : pkt.cmd = cmdSetLed) :
    process E w b pkt = processSetLed w b pkt := by
  rw [process, h]
  rfl

theorem process_trainDest (h : pkt.cmd = cmdTrainDest) :
    process E w b pkt = processTrainDest w b pkt := by
  rw [process, h]
  rfl

theorem process_displayCtrl (h : pkt.cmd = cmdDisplayCtrl) :
    process E w b pkt = processDisplayCtrl w b pkt := by
  rw [process, h]
  rfl

theorem process_playWav (h : pkt.cmd = cmdPlayWav) :
    process E w b pkt = processPlayWav E w b pkt := by
  rw [process, h]
  rfl

theorem process_getWavs (h : pkt.cmd = cmdGetWavs) :
    process E w b pkt = (b, [processGetWavs w]) := by
  rw [process, h]
  rfl

theorem process_display (hled : pkt.cmd ≠ cmdSetLed) (hdest : pkt.cmd ≠ cmdTrainDest)
    (hctrl : pkt.cmd ≠ cmdDisplayCtrl) : (process E w b pkt).1.display = b.display := by
  unfold process processTempHum processPlayWav
  split_ifs <;> rfl

theorem toNat_screen {screen : ℤ} (h : screen ≤ 3) :
    (UInt8.ofNat screen.toNat).toNat = screen.toNat := by
  rw [UInt8.toNat_ofNat']
  omega

variable (pkt)

/-- `"0"` starts the cycle, and the numbers 1 to 4 select a screen. No data are an empty text, which
is neither. -/
theorem processDisplayCtrl_eq :
    processDisplayCtrl w b pkt =
      if pkt.text = [digit 0] then
        ({ b with display := b.display.setAutoCycle true w.tick w.tick' },
          [sendAck w.stack pkt.cmd])
      else if 1 ≤ atoi pkt.text ∧ atoi pkt.text ≤ 4 then
        ({ b with display := b.display.setScreen (UInt8.ofNat (atoi pkt.text - 1).toNat) w.tick },
          [sendAck w.stack pkt.cmd])
      else (b, [sendNack w.stack pkt.cmd errInvalidData]) := by
  by_cases hlen : pkt.len = 0 ∨ pktMaxDataLen ≤ pkt.len.toNat
  · have htext := pkt.text_of_len (hlen.resolve_right (toNat_lt_pktMaxDataLen _).not_ge)
    rw [processDisplayCtrl, if_pos hlen, htext, if_neg (List.cons_ne_nil _ _).symm, atoi_nil]
    rfl
  · rw [processDisplayCtrl, if_neg hlen]
    dsimp only
    by_cases haction : pkt.text = [digit 0]
    · rw [if_pos haction, if_pos haction]
    · rw [if_neg haction, if_neg haction]
      by_cases hrange : 1 ≤ atoi pkt.text ∧ atoi pkt.text ≤ 4
      · rw [if_pos hrange, if_neg (by omega)]
      · rw [if_neg hrange, if_pos (by omega)]

theorem processDisplayCtrl_display :
    (processDisplayCtrl w b pkt).1.display =
      if pkt.text = [digit 0] then b.display.setAutoCycle true w.tick w.tick'
      else if 1 ≤ atoi pkt.text ∧ atoi pkt.text ≤ 4 then
        b.display.setScreen (UInt8.ofNat (atoi pkt.text - 1).toNat) w.tick
      else b.display := by
  rw [processDisplayCtrl_eq]
  split_ifs
  · rfl
  · rfl
  · rfl

end

/-- A frame that the receiver gets while it waits for one leaves its command to the handler. -/
theorem pending_of_frame {r : Receiver} (h : r.rxState = .waitStx) (c : Command) :
    (uartRx.run r c.frame).pktReady = true ∧
      (uartRx.run r c.frame).pendingPkt.toCommand = c := by
  obtain ⟨-, htrace⟩ := Receiver.run_frame h c
  rw [Command.frame, Machine.trace_concat, List.map_append] at htrace
  obtain ⟨-, hlast⟩ := List.append_inj' htrace rfl
  rw [List.map_singleton, List.singleton_inj] at hlast
  obtain ⟨pkt, hout, hpkt⟩ := Option.map_eq_some_iff.mp hlast
  obtain ⟨hready, hpending⟩ := Receiver.pending_of_accepted hout
  rw [Command.frame, Machine.run_concat]
  exact ⟨hready, hpending ▸ hpkt⟩

def Device.deliver {W : Type*} (E : Env W) (w : Surroundings) (d : Device W)
    (bytes : List UInt8) : Device W :=
  (uartHandlerProcess E w { d with rx := uartRx.run d.rx bytes }).1

/-- A frame is handled as the packet with its command, and the receiver waits for the next one. -/
theorem handle_frame {W : Type*} (E : Env W) (w : Surroundings) {d : Device W}
    (h : d.rx.rxState = .waitStx) (c : Command) :
    ∃ pkt : Packet, pkt.toCommand = c ∧
      (uartHandlerProcess E w { d with rx := uartRx.run d.rx c.frame }).1.rx.rxState = .waitStx ∧
      (uartHandlerProcess E w { d with rx := uartRx.run d.rx c.frame }).1.board =
        (process E w d.board pkt).1 ∧
      (uartHandlerProcess E w { d with rx := uartRx.run d.rx c.frame }).2 =
        (process E w d.board pkt).2 := by
  obtain ⟨hready, hpkt⟩ := pending_of_frame h c
  refine ⟨_, hpkt, ?_⟩
  rw [uartHandlerProcess_pending E w hready]
  exact ⟨(Receiver.run_frame h c).1, rfl, rfl⟩

theorem deliver_frame {W : Type*} (E : Env W) (w : Surroundings) {d : Device W}
    (h : d.rx.rxState = .waitStx) (c : Command) :
    ∃ pkt : Packet, pkt.toCommand = c ∧
      (d.deliver E w c.frame).board = (process E w d.board pkt).1 := by
  obtain ⟨pkt, hpkt, -, hboard, -⟩ := handle_frame E w h c
  exact ⟨pkt, hpkt, hboard⟩

end JeogiAt.Uart
