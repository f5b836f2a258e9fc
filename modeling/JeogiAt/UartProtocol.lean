import JeogiAt.Library.Bytes
import Mathlib.Tactic.SplitIfs

/-!
# The UART packet format and its two implementations of the checksum

The firmware (`uart_protocol.h`, `uart_protocol.c`) and the Raspberry Pi (`communication.cpp`)
share the format `[STX][CMD][LEN][DATA...][CRC][ETX]`. `Command` is what a frame carries and
`Command.frame` its bytes. The Pi's senders are given as the source writes them, byte by byte;
each returns the bytes that it passes to `write`, or `none` when it returns before, and writes
either nothing or the `Command.frame` of its own command and data.
-/

namespace JeogiAt.Uart

open Bytes

def pktStx : UInt8 := 0xAA
def pktEtx : UInt8 := 0x55

def cmdGetCo : UInt8 := 0x01
def cmdGetCo2 : UInt8 := 0x02
def cmdGetTempHum : UInt8 := 0x03
def cmdTrainDest : UInt8 := 0x09
def cmdSetLed : UInt8 := 0x10
def cmdDisplayCtrl : UInt8 := 0x11
def cmdPlayWav : UInt8 := 0x20
def cmdGetWavs : UInt8 := 0x21
def cmdRespWavs : UInt8 := 0x22

abbrev pktMaxDataLen : ℕ := 256

theorem toNat_lt_pktMaxDataLen (i : UInt8) : i.toNat < pktMaxDataLen := i.toNat_lt

/-- `Packet_t`, with its data array of `PKT_MAX_DATA_LEN` bytes. -/
structure Packet where
  cmd : UInt8
  len : UInt8
  data : Vector UInt8 pktMaxDataLen
  crc : UInt8
  deriving DecidableEq

namespace Packet

def zero : Packet := ⟨0, 0, Vector.replicate pktMaxDataLen 0, 0⟩

/-- The data bytes that count: the first `len` of the array. -/
def payload (pkt : Packet) : List UInt8 := pkt.data.toList.take pkt.len.toNat

def writeData (pkt : Packet) (i byte : UInt8) : Packet :=
  { pkt with data := pkt.data.set i.toNat byte (toNat_lt_pktMaxDataLen i) }

@[simp] theorem writeData_cmd (pkt : Packet) (i byte : UInt8) :
    (pkt.writeData i byte).cmd = pkt.cmd := rfl

@[simp] theorem writeData_len (pkt : Packet) (i byte : UInt8) :
    (pkt.writeData i byte).len = pkt.len := rfl

@[simp] theorem length_data (pkt : Packet) : pkt.data.toList.length = 256 :=
  Vector.length_toList

theorem length_payload (pkt : Packet) : pkt.payload.length = pkt.len.toNat := by
  have := pkt.len.toNat_lt
  rw [payload, List.length_take, length_data]
  omega

theorem getElem?_payload (pkt : Packet) (i : Fin pktMaxDataLen) (h : i.val < pkt.len.toNat) :
    pkt.payload[i.val]? = some (pkt.data.get i) := by
  rw [payload, List.getElem?_take_of_lt h, List.getElem?_eq_getElem (by simp),
    Vector.getElem_toList]
  rfl

/-- Writing at index `i` extends the first `i` bytes by the byte written. -/
theorem take_writeData (pkt : Packet) (i byte : UInt8) :
    (pkt.writeData i byte).data.toList.take (i.toNat + 1) =
      pkt.data.toList.take i.toNat ++ [byte] := by
  have hi : i.toNat < (pkt.data.toList.set i.toNat byte).length := by
    rw [List.length_set, length_data]
    exact toNat_lt_pktMaxDataLen i
  rw [writeData, Vector.toList_set, List.take_succ_eq_append_getElem hi,
    List.take_set_of_le le_rfl, List.getElem_set_self]

end Packet

def calcCRC (pkt : Packet) : UInt8 := xorFold (pkt.cmd ^^^ pkt.len) pkt.payload ^^^ pktEtx

/-- What a frame carries: a command byte and at most 255 data bytes. -/
structure Command where
  cmd : UInt8
  data : List UInt8
  length_le : data.length ≤ 255

namespace Command

@[ext] theorem ext {c c' : Command} (hcmd : c.cmd = c'.cmd) (hdata : c.data = c'.data) :
    c = c' := by
  cases c
  cases c'
  rw [mk.injEq]
  exact ⟨hcmd, hdata⟩

def len (c : Command) : UInt8 := UInt8.ofNat c.data.length

@[simp] theorem toNat_len (c : Command) : c.len.toNat = c.data.length := by
  have := c.length_le
  rw [len, UInt8.toNat_ofNat']
  omega

def crc (c : Command) : UInt8 := xorFold (c.cmd ^^^ c.len) c.data ^^^ pktEtx

def body (c : Command) : List UInt8 := pktStx :: c.cmd :: c.len :: (c.data ++ [c.crc])

def frame (c : Command) : List UInt8 := c.body ++ [pktEtx]

def bodyWith (c : Command) (crc : UInt8) : List UInt8 :=
  pktStx :: c.cmd :: c.len :: (c.data ++ [crc])

theorem bodyWith_crc (c : Command) : c.bodyWith c.crc = c.body := rfl

@[simp] theorem length_bodyWith (c : Command) (crc : UInt8) :
    (c.bodyWith crc).length = c.data.length + 4 := by
  simp [bodyWith]

@[simp] theorem length_body (c : Command) : c.body.length = c.data.length + 4 := by
  simp [body]

@[simp] theorem length_frame (c : Command) : c.frame.length = c.data.length + 5 := by
  simp [frame]

theorem frame_injective {c c' : Command} (h : c.frame = c'.frame) : c = c' := by
  have hlength := congrArg List.length h
  rw [length_frame, length_frame] at hlength
  obtain ⟨hbody, -⟩ := List.append_inj' h rfl
  simp only [body, List.cons.injEq, true_and] at hbody
  exact Command.ext hbody.1 (List.append_inj hbody.2.2 (by omega)).1

end Command

end JeogiAt.Uart

namespace JeogiAt.Communication

open Uart Bytes

def calcCrc (cmd len : UInt8) (data : List UInt8) : UInt8 :=
  xorFold (cmd ^^^ len) (data.take len.toNat) ^^^ pktEtx

theorem calcCrc_eq_crc (c : Command) : calcCrc c.cmd c.len c.data = c.crc := by
  rw [calcCrc, Command.toNat_len, List.take_length, Command.crc]

def sendToStm32GetCo (uart_fd : ℤ) : Option (List UInt8) :=
  if uart_fd < 0 then none else some [0xAA, 0x01, 0x00, 0x54, 0x55]

def sendToStm32GetCo2 (uart_fd : ℤ) : Option (List UInt8) :=
  if uart_fd < 0 then none else some [0xAA, 0x02, 0x00, 0x57, 0x55]

/-- `send_to_stm32_temp_humi` from the rounded readings on. -/
def sendToStm32TempHumi (uart_fd : ℤ) (temp_raw humi_raw : Int16) : Option (List UInt8) :=
  if uart_fd < 0 then none
  else
    let data := [(temp_raw >>> 8).toUInt16.toUInt8, temp_raw.toUInt16.toUInt8,
      (humi_raw >>> 8).toUInt16.toUInt8, humi_raw.toUInt16.toUInt8]
    some ([pktStx, cmdGetTempHum, 0x04] ++ data ++ [calcCrc cmdGetTempHum 0x04 data, pktEtx])

def sendToStm32PlayWav (uart_fd : ℤ) (filename : List UInt8) : Option (List UInt8) :=
  if uart_fd < 0 ∨ 255 < filename.length then none
  else
    let len := UInt8.ofNat filename.length
    some ([pktStx, cmdPlayWav, len] ++ filename ++ [calcCrc cmdPlayWav len filename, pktEtx])

def sendToStm32GetWavs (uart_fd : ℤ) : Option (List UInt8) :=
  if uart_fd < 0 then none
  else some [pktStx, cmdGetWavs, 0x00, calcCrc cmdGetWavs 0 [], pktEtx]

def sendToStm32BulkCongestion (uart_fd : ℤ) (levels : List Int32) : Option (List UInt8) :=
  if uart_fd < 0 ∨ levels = [] ∨ 8 < levels.length then none
  else
    let payload := levels.map fun level => level.toUInt32.toUInt8
    let len := UInt8.ofNat payload.length
    let crc := calcCrc cmdSetLed len payload
    some ([pktStx, cmdSetLed, len] ++ payload ++ [crc, pktEtx])

def sendToStm32DisplayControl (uart_fd : ℤ) (action : List UInt8) : Option (List UInt8) :=
  if uart_fd < 0 ∨ action = [] ∨ 255 < action.length then none
  else
    let len := UInt8.ofNat action.length
    some ([pktStx, cmdDisplayCtrl, len] ++ action ++ [calcCrc cmdDisplayCtrl len action, pktEtx])

def sendToStm32DisplayScreen (uart_fd screen : ℤ) : Option (List UInt8) :=
  if screen < 0 ∨ 9 < screen then none
  else sendToStm32DisplayControl uart_fd [UInt8.ofNat (0x30 + screen.toNat)]

def sendToStm32TrainDest (uart_fd : ℤ) (dest_code : UInt8) : Option (List UInt8) :=
  if uart_fd < 0 then none
  else some [pktStx, cmdTrainDest, 0x01, dest_code, calcCrc cmdTrainDest 0x01 [dest_code], pktEtx]

inductive Request
  | getCo
  | getCo2
  | tempHumi (temp_raw humi_raw : Int16)
  | playWav (filename : List UInt8)
  | getWavs
  | bulkCongestion (levels : List Int32)
  | displayControl (action : List UInt8)
  | displayScreen (screen : ℤ)
  | trainDest (dest_code : UInt8)

def Request.written (uart_fd : ℤ) : Request → Option (List UInt8)
  | .getCo => sendToStm32GetCo uart_fd
  | .getCo2 => sendToStm32GetCo2 uart_fd
  | .tempHumi temp_raw humi_raw => sendToStm32TempHumi uart_fd temp_raw humi_raw
  | .playWav filename => sendToStm32PlayWav uart_fd filename
  | .getWavs => sendToStm32GetWavs uart_fd
  | .bulkCongestion levels => sendToStm32BulkCongestion uart_fd levels
  | .displayControl action => sendToStm32DisplayControl uart_fd action
  | .displayScreen screen => sendToStm32DisplayScreen uart_fd screen
  | .trainDest dest_code => sendToStm32TrainDest uart_fd dest_code

def Request.cmd : Request → UInt8
  | .getCo => cmdGetCo
  | .getCo2 => cmdGetCo2
  | .tempHumi _ _ => cmdGetTempHum
  | .playWav _ => cmdPlayWav
  | .getWavs => cmdGetWavs
  | .bulkCongestion _ => cmdSetLed
  | .displayControl _ => cmdDisplayCtrl
  | .displayScreen _ => cmdDisplayCtrl
  | .trainDest _ => cmdTrainDest

def Request.data : Request → List UInt8
  | .getCo => []
  | .getCo2 => []
  | .tempHumi temp_raw humi_raw =>
      [(temp_raw >>> 8).toUInt16.toUInt8, temp_raw.toUInt16.toUInt8,
        (humi_raw >>> 8).toUInt16.toUInt8, humi_raw.toUInt16.toUInt8]
  | .playWav filename => filename
  | .getWavs => []
  | .bulkCongestion levels => levels.map fun level => level.toUInt32.toUInt8
  | .displayControl action => action
  | .displayScreen screen => [UInt8.ofNat (0x30 + screen.toNat)]
  | .trainDest dest_code => [dest_code]

/-- The bytes a sender pushes one after the other are a command's frame. -/
theorem pushed_eq_frame (c : Command) :
    [pktStx, c.cmd, c.len] ++ c.data ++ [calcCrc c.cmd c.len c.data, pktEtx] = c.frame := by
  rw [calcCrc_eq_crc]
  simp [Command.frame, Command.body]

theorem displayControl_frame (uart_fd : ℤ) (action bytes : List UInt8)
    (h : sendToStm32DisplayControl uart_fd action = some bytes) :
    ∃ hle : action.length ≤ 255, bytes = (Command.mk cmdDisplayCtrl action hle).frame := by
  rw [sendToStm32DisplayControl] at h
  split_ifs at h with hguard
  have hle : action.length ≤ 255 := by omega
  exact ⟨hle, (Option.some.inj h).symm.trans (pushed_eq_frame ⟨cmdDisplayCtrl, action, hle⟩)⟩

/-- Whatever a sender writes is the frame of its command with its data. -/
theorem Request.written_eq_frame (uart_fd : ℤ) (r : Request) (bytes : List UInt8)
    (h : r.written uart_fd = some bytes) :
    ∃ hle : r.data.length ≤ 255, bytes = (Command.mk r.cmd r.data hle).frame := by
  cases r with
  | getCo =>
    simp only [written, sendToStm32GetCo] at h
    split_ifs at h
    exact ⟨Nat.zero_le 255, (Option.some.inj h).symm.trans (by decide)⟩
  | getCo2 =>
    simp only [written, sendToStm32GetCo2] at h
    split_ifs at h
    exact ⟨Nat.zero_le 255, (Option.some.inj h).symm.trans (by decide)⟩
  | tempHumi temp_raw humi_raw =>
    simp only [written, sendToStm32TempHumi] at h
    split_ifs at h
    exact ⟨Nat.le_of_ble_eq_true rfl, (Option.some.inj h).symm.trans
      (pushed_eq_frame ⟨cmdGetTempHum, [_, _, _, _], Nat.le_of_ble_eq_true rfl⟩)⟩
  | playWav filename =>
    simp only [written, sendToStm32PlayWav] at h
    split_ifs at h with hguard
    have hle : filename.length ≤ 255 := by omega
    exact ⟨hle, (Option.some.inj h).symm.trans (pushed_eq_frame ⟨cmdPlayWav, filename, hle⟩)⟩
  | getWavs =>
    simp only [written, sendToStm32GetWavs] at h
    split_ifs at h
    exact ⟨Nat.zero_le 255, (Option.some.inj h).symm.trans
      (pushed_eq_frame ⟨cmdGetWavs, [], Nat.zero_le 255⟩)⟩
  | bulkCongestion levels =>
    simp only [written, sendToStm32BulkCongestion] at h
    split_ifs at h with hguard
    have hle : (levels.map fun level => level.toUInt32.toUInt8).length ≤ 255 := by
      rw [List.length_map]
      omega
    exact ⟨hle, (Option.some.inj h).symm.trans (pushed_eq_frame ⟨cmdSetLed, _, hle⟩)⟩
  | displayControl action => exact displayControl_frame uart_fd action bytes h
  | displayScreen screen =>
    simp only [written, sendToStm32DisplayScreen] at h
    split_ifs at h
    exact displayControl_frame uart_fd _ bytes h
  | trainDest dest_code =>
    simp only [written, sendToStm32TrainDest] at h
    split_ifs at h
    exact ⟨Nat.le_of_ble_eq_true rfl, (Option.some.inj h).symm.trans
      (pushed_eq_frame ⟨cmdTrainDest, [dest_code], Nat.le_of_ble_eq_true rfl⟩)⟩

end JeogiAt.Communication
