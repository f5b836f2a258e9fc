import JeogiAt.UartReceiver
import Mathlib.Data.Vector.Basic

/-!
# USART6 reception through the HAL

The part of the vendored HAL that receives for `uart_handler.c`: the handle's reception state, the
USART interrupt enables, the DMA stream in normal mode over the 64-byte `rx_buf`, and the handlers
of the half-transfer, transfer-complete, IDLE and line-error interrupts, each down to the callback
it calls. `rxEventCallback` is `HAL_UARTEx_RxEventCallback`, the only place that arms reception
again.

`Armed` survives every event except a line error, whose abort ends in the HAL's empty
`HAL_UART_ErrorCallback`; from then on reception is `Dead`.
-/

namespace JeogiAt.Uart

abbrev rxBufSize : ℕ := 64

inductive HalUartState
  | ready
  | busyRx
  deriving DecidableEq

inductive ReceptionType
  | standard
  | toIdle
  deriving DecidableEq

inductive DmaState
  | ready
  | busy
  | abort
  deriving DecidableEq

/-- `hdma_usart6_rx`: its state, the items left to transfer, and the interrupts of the stream. -/
structure DmaHandle where
  state : DmaState
  ndtr : ℕ
  tcie : Bool
  htie : Bool

/-- `huart6`: the fields of the handle and the register bits that reception uses. Parity is off,
so there is no parity interrupt, and RXNE interrupts are not used. -/
structure UartHandle where
  rxState : HalUartState
  receptionType : ReceptionType
  rxXferSize : ℕ
  rxXferCount : ℕ
  idleie : Bool
  eie : Bool
  dmar : Bool
  hdmarx : DmaHandle

/-- USART6 with `rx_buf`, the receiver behind it, and all bytes passed to `UART_RxCallback`. -/
structure Usart where
  huart : UartHandle
  rxBuf : Vector UInt8 rxBufSize
  rx : Receiver
  fed : List UInt8

inductive LineError
  | framing
  | noise
  | overrun
  deriving DecidableEq

def halDmaStartIT (hdma : DmaHandle) (length : ℕ) : DmaHandle :=
  if hdma.state = .ready then { state := .busy, ndtr := length, tcie := true, htie := true }
  else hdma

def uartStartReceiveDMA (huart : UartHandle) (size : ℕ) : UartHandle :=
  { huart with
    rxXferSize := size
    rxState := .busyRx
    hdmarx := halDmaStartIT huart.hdmarx size
    eie := true
    dmar := true }

/-- `HAL_UARTEx_ReceiveToIdle_DMA`; with a reception going on it returns BUSY and does nothing. -/
def halUARTExReceiveToIdleDMA (huart : UartHandle) (size : ℕ) : UartHandle :=
  if huart.rxState = .ready then
    { uartStartReceiveDMA { huart with receptionType := .toIdle } size with idleie := true }
  else huart

/-- `HAL_UARTEx_RxEventCallback` of `uart_handler.c`. -/
def rxEventCallback (u : Usart) (size : ℕ) : Usart :=
  let bytes := u.rxBuf.toList.take size
  { u with
    rx := uartRx.run u.rx bytes
    fed := u.fed ++ bytes
    huart := halUARTExReceiveToIdleDMA u.huart rxBufSize }

def uartEndRxTransfer (huart : UartHandle) : UartHandle :=
  { huart with
    eie := false
    idleie := if huart.receptionType = .toIdle then false else huart.idleie
    rxState := .ready
    receptionType := .standard }

def uartDMARxHalfCplt (u : Usart) : Usart :=
  if u.huart.receptionType = .toIdle then rxEventCallback u (u.huart.rxXferSize / 2) else u

/-- `UART_DMAReceiveCplt` in normal mode. -/
def uartDMAReceiveCplt (u : Usart) : Usart :=
  let huart := { u.huart with
    rxXferCount := 0
    eie := false
    dmar := false
    rxState := .ready
    idleie := if u.huart.receptionType = .toIdle then false else u.huart.idleie }
  if u.huart.receptionType = .toIdle then rxEventCallback { u with huart } u.huart.rxXferSize
  else { u with huart }

/-- `UART_DMAAbortOnError`, which ends in the weak, empty `HAL_UART_ErrorCallback`. -/
def uartDMAAbortOnError (u : Usart) : Usart := { u with huart := { u.huart with rxXferCount := 0 } }

/-- `HAL_DMA_IRQHandler` on the half-transfer flag. -/
def halfTransferIRQ (u : Usart) : Usart :=
  if u.huart.hdmarx.htie then
    uartDMARxHalfCplt { u with
      huart := { u.huart with hdmarx := { u.huart.hdmarx with htie := false } } }
  else u

/-- `HAL_DMA_IRQHandler` on the transfer-complete flag, also raised by a stream that stops. -/
def transferCompleteIRQ (u : Usart) : Usart :=
  if u.huart.hdmarx.tcie then
    if u.huart.hdmarx.state = .abort then
      uartDMAAbortOnError { u with
        huart := { u.huart with
          hdmarx := { u.huart.hdmarx with tcie := false, htie := false, state := .ready } } }
    else
      uartDMAReceiveCplt { u with
        huart := { u.huart with hdmarx := { u.huart.hdmarx with tcie := false, state := .ready } } }
  else u

def halDmaAbort (hdma : DmaHandle) : DmaHandle :=
  if hdma.state = .busy then { hdma with tcie := false, htie := false, state := .ready } else hdma

/-- `HAL_UART_IRQHandler` on the IDLE flag. -/
def idleIRQ (u : Usart) : Usart :=
  if u.huart.receptionType = .toIdle ∧ u.huart.idleie then
    if u.huart.dmar then
      let remaining := u.huart.hdmarx.ndtr
      if 0 < remaining ∧ remaining < u.huart.rxXferSize then
        rxEventCallback { u with
          huart := { u.huart with
            rxXferCount := remaining
            eie := false
            dmar := false
            rxState := .ready
            receptionType := .standard
            idleie := false
            hdmarx := halDmaAbort u.huart.hdmarx } } (u.huart.rxXferSize - remaining)
      else u
    else
      let received := u.huart.rxXferSize - u.huart.rxXferCount
      if 0 < u.huart.rxXferCount ∧ 0 < received then
        rxEventCallback { u with
          huart := { u.huart with
            eie := false
            rxState := .ready
            receptionType := .standard
            idleie := false } } received
      else u
  else u

/-- `HAL_DMA_Abort_IT` with `UART_DMAAbortOnError` as its callback: stopping the stream raises its
transfer-complete flag, and a stream that is not busy gets the callback at once. -/
def halDmaAbortIT (u : Usart) : Usart :=
  if u.huart.hdmarx.state = .busy then
    transferCompleteIRQ { u with
      huart := { u.huart with hdmarx := { u.huart.hdmarx with state := .abort } } }
  else uartDMAAbortOnError u

/-- `HAL_UART_IRQHandler` on an error flag. Only the error interrupt lets it through; an error
that is not blocking is reported to the empty callback. -/
def lineErrorIRQ (u : Usart) (e : LineError) : Usart :=
  if u.huart.eie then
    if e = .overrun ∨ u.huart.dmar then
      let huart := uartEndRxTransfer u.huart
      if huart.dmar then halDmaAbortIT { u with huart := { huart with dmar := false } }
      else { u with huart }
    else u
  else u

/-- The stream moves a received byte to the next place of `rx_buf`, and raises its flags at half
and at the end of the transfer. A byte that no armed reception takes is not received. -/
def receiveByte (u : Usart) (byte : UInt8) : Usart :=
  if u.huart.dmar ∧ u.huart.hdmarx.state = .busy ∧ 0 < u.huart.hdmarx.ndtr then
    let ndtr := u.huart.hdmarx.ndtr - 1
    let u := { u with
      rxBuf := u.rxBuf.setIfInBounds (u.huart.rxXferSize - u.huart.hdmarx.ndtr) byte
      huart := { u.huart with hdmarx := { u.huart.hdmarx with ndtr } } }
    if ndtr = 0 then transferCompleteIRQ u
    else if ndtr = u.huart.rxXferSize / 2 then halfTransferIRQ u
    else u
  else u

/-- What happens on USART6: a byte arrives, the line falls idle, an error is flagged, or one of
the DMA interrupts comes at a time of its own. -/
inductive UsartEvent
  | byte (byte : UInt8)
  | halfTransfer
  | transferComplete
  | idle
  | lineError (e : LineError)
  deriving DecidableEq

namespace Usart

def step (u : Usart) : UsartEvent → Usart × Unit
  | .byte byte => (receiveByte u byte, ())
  | .halfTransfer => (halfTransferIRQ u, ())
  | .transferComplete => (transferCompleteIRQ u, ())
  | .idle => (idleIRQ u, ())
  | .lineError e => (lineErrorIRQ u e, ())

/-- USART6 after `MX_USART6_UART_Init`. -/
def reset : Usart where
  huart :=
    { rxState := .ready, receptionType := .standard, rxXferSize := 0, rxXferCount := 0,
      idleie := false, eie := false, dmar := false,
      hdmarx := { state := .ready, ndtr := 0, tcie := false, htie := false } }
  rxBuf := Vector.replicate rxBufSize 0
  rx := .init
  fed := []

def uartCMDInit (u : Usart) : Usart :=
  { u with huart := halUARTExReceiveToIdleDMA u.huart rxBufSize }

def init : Usart := uartCMDInit reset

end Usart

def usart : Machine Usart UsartEvent Unit := ⟨Usart.step⟩

namespace UartHandle

/-- A reception to idle over the whole of `rx_buf` is going on, with its interrupts enabled. -/
structure Listening (h : UartHandle) : Prop where
  rxState : h.rxState = .busyRx
  receptionType : h.receptionType = .toIdle
  rxXferSize : h.rxXferSize = rxBufSize
  idleie : h.idleie = true
  eie : h.eie = true
  dmar : h.dmar = true
  dmaState : h.hdmarx.state = .busy
  tcie : h.hdmarx.tcie = true

/-- Reception is going on and has room for the next byte. -/
structure Armed (h : UartHandle) : Prop extends h.Listening where
  ndtr_pos : 0 < h.hdmarx.ndtr
  ndtr_le : h.hdmarx.ndtr ≤ rxBufSize

structure Dead (h : UartHandle) : Prop where
  idleie : h.idleie = false
  eie : h.eie = false
  dmar : h.dmar = false
  tcie : h.hdmarx.tcie = false
  htie : h.hdmarx.htie = false

theorem Dead.not_armed {h : UartHandle} (hd : h.Dead) : ¬ h.Armed := by
  intro ha
  have := ha.dmar
  rw [hd.dmar] at this
  cases this

structure Fresh (h : UartHandle) : Prop extends h.Armed where
  ndtr_full : h.hdmarx.ndtr = rxBufSize
  htie : h.hdmarx.htie = true

theorem fresh_receiveToIdle {h : UartHandle} (hs : h.rxState = .ready)
    (hd : h.hdmarx.state = .ready) : (halUARTExReceiveToIdleDMA h rxBufSize).Fresh := by
  have harm : halUARTExReceiveToIdleDMA h rxBufSize =
      { h with
        receptionType := .toIdle
        rxXferSize := rxBufSize
        rxState := .busyRx
        hdmarx := ⟨.busy, rxBufSize, true, true⟩
        eie := true
        dmar := true
        idleie := true } := by
    simp only [halUARTExReceiveToIdleDMA, uartStartReceiveDMA, halDmaStartIT, if_pos hs, if_pos hd]
  rw [harm]
  exact { rxState := rfl, receptionType := rfl, rxXferSize := rfl, idleie := rfl, eie := rfl,
          dmar := rfl, dmaState := rfl, tcie := rfl, ndtr_pos := Nat.zero_lt_succ _,
          ndtr_le := le_rfl, ndtr_full := rfl, htie := rfl }

theorem receiveToIdle_busy {h : UartHandle} (hs : h.rxState = .busyRx) :
    halUARTExReceiveToIdleDMA h rxBufSize = h := by
  have hne : h.rxState ≠ .ready := by
    rw [hs]
    exact nofun
  rw [halUARTExReceiveToIdleDMA, if_neg hne]

end UartHandle

namespace Usart

open UartHandle

theorem init_fresh : init.huart.Fresh := fresh_receiveToIdle (h := reset.huart) rfl rfl

theorem halfTransferIRQ_listening {u : Usart} (h : u.huart.Listening) :
    (halfTransferIRQ u).huart = { u.huart with hdmarx := { u.huart.hdmarx with htie := false } } ∧
      (halfTransferIRQ u).rxBuf = u.rxBuf ∧
      (halfTransferIRQ u).fed =
        u.fed ++ if u.huart.hdmarx.htie then u.rxBuf.toList.take 32 else [] := by
  cases ht : u.huart.hdmarx.htie with
  | true =>
    simp only [halfTransferIRQ, uartDMARxHalfCplt, rxEventCallback, ht, if_true, h.receptionType,
      h.rxXferSize]
    exact ⟨receiveToIdle_busy h.rxState, trivial, rfl⟩
  | false =>
    have hsame : { u.huart.hdmarx with htie := false } = u.huart.hdmarx := by rw [← ht]
    simp [halfTransferIRQ, ht, hsame]

theorem transferCompleteIRQ_listening {u : Usart} (h : u.huart.Listening) :
    (transferCompleteIRQ u).huart.Fresh ∧
      (transferCompleteIRQ u).fed = u.fed ++ u.rxBuf.toList.take rxBufSize := by
  have hne : u.huart.hdmarx.state ≠ .abort := by
    rw [h.dmaState]
    exact nofun
  simp only [transferCompleteIRQ, uartDMAReceiveCplt, rxEventCallback, h.tcie, if_true,
    if_neg hne, h.receptionType, h.rxXferSize]
  exact ⟨fresh_receiveToIdle rfl rfl, trivial⟩

/-- The IDLE handler feeds what has arrived, if anything has, and starts over. -/
theorem idleIRQ_armed {u : Usart} (h : u.huart.Armed) :
    if u.huart.hdmarx.ndtr < rxBufSize then
      (idleIRQ u).huart.Fresh ∧
        (idleIRQ u).fed = u.fed ++ u.rxBuf.toList.take (rxBufSize - u.huart.hdmarx.ndtr)
    else idleIRQ u = u := by
  split_ifs with hlt
  · simp only [idleIRQ, rxEventCallback, halDmaAbort, h.receptionType, h.idleie, h.dmar,
      h.dmaState, h.rxXferSize, and_self, if_true, if_pos (And.intro h.ndtr_pos hlt)]
    exact ⟨fresh_receiveToIdle rfl rfl, trivial⟩
  · have hfull : ¬ (0 < u.huart.hdmarx.ndtr ∧ u.huart.hdmarx.ndtr < rxBufSize) :=
      fun hr => hlt hr.2
    simp only [idleIRQ, h.receptionType, h.idleie, h.dmar, h.rxXferSize, and_self, if_true,
      if_neg hfull]

theorem lineErrorIRQ_listening {u : Usart} (h : u.huart.Listening) (e : LineError) :
    (lineErrorIRQ u e).huart.Dead := by
  simp only [lineErrorIRQ, uartEndRxTransfer, halDmaAbortIT, transferCompleteIRQ,
    uartDMAAbortOnError, h.eie, h.dmar, h.dmaState, h.tcie, h.receptionType, or_true, if_true]
  exact ⟨rfl, rfl, rfl, rfl, rfl⟩

/-- The buffer after a byte has landed at the place of the next item. -/
def landed (u : Usart) (byte : UInt8) : Usart :=
  { u with
    rxBuf := u.rxBuf.setIfInBounds (rxBufSize - u.huart.hdmarx.ndtr) byte
    huart := { u.huart with hdmarx := { u.huart.hdmarx with ndtr := u.huart.hdmarx.ndtr - 1 } } }

theorem receiveByte_armed {u : Usart} (h : u.huart.Armed) (byte : UInt8) :
    receiveByte u byte =
      if u.huart.hdmarx.ndtr = 1 then transferCompleteIRQ (u.landed byte)
      else if u.huart.hdmarx.ndtr = 33 then halfTransferIRQ (u.landed byte)
      else u.landed byte := by
  have hpos := h.ndtr_pos
  have hlast : u.huart.hdmarx.ndtr - 1 = 0 ↔ u.huart.hdmarx.ndtr = 1 := by omega
  have hhalf : u.huart.hdmarx.ndtr - 1 = 64 / 2 ↔ u.huart.hdmarx.ndtr = 33 := by omega
  simp only [receiveByte, landed, h.dmar, h.dmaState, h.rxXferSize, hpos, and_self, if_true, hlast,
    hhalf]

theorem landed_listening {u : Usart} (h : u.huart.Listening) (byte : UInt8) :
    (u.landed byte).huart.Listening := { h with }

theorem landed_armed {u : Usart} (h : u.huart.Armed) (hne : u.huart.hdmarx.ndtr ≠ 1)
    (byte : UInt8) : (u.landed byte).huart.Armed := by
  have hpos := h.ndtr_pos
  have hle := h.ndtr_le
  exact { h with ndtr_pos := by simp only [landed]; omega
                 ndtr_le := by simp only [landed]; omega }

end Usart

end JeogiAt.Uart
