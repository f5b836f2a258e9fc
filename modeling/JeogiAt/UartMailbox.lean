import JeogiAt.UartReceiver

/-!
# The one-place mailbox between the receive interrupt and the main loop

The interrupt side runs `UART_RxCallback` atomically on one byte; `UART_Handler_Process` takes its
four steps one at a time. `pktReady` and `pendingPkt` are all they share, so a packet accepted
while the mailbox is in use overwrites the one in it. `Free` is the condition under which that
cannot happen, and commands are executed in the order of their acceptance exactly on the runs
whose acceptances all meet it.
-/

namespace JeogiAt.Uart

inductive HandlerPc
  | test
  | clear
  | copy
  | execute (pkt : Packet)
  deriving DecidableEq

/-- The receiver, the handler, and the packets accepted and executed so far. -/
structure Firmware where
  rx : Receiver
  pc : HandlerPc
  accepted : List Packet
  executed : List Packet

inductive FirmwareStep
  | rxByte (byte : UInt8)
  | handler

namespace Firmware

def init : Firmware := ⟨.init, .test, [], []⟩

/-- One step of `UART_Handler_Process`, entered again as soon as it returns. -/
def handlerStep (f : Firmware) : Firmware :=
  match f.pc with
  | .test => if f.rx.pktReady then { f with pc := .clear } else f
  | .clear => { f with rx := { f.rx with pktReady := false }, pc := .copy }
  | .copy => { f with pc := .execute f.rx.pendingPkt }
  | .execute pkt => { f with pc := .test, executed := f.executed ++ [pkt] }

def step (f : Firmware) : FirmwareStep → Firmware × Unit
  | .rxByte byte =>
      ({ f with
          rx := uartRx.next f.rx byte
          accepted := f.accepted ++ (uartRx.output f.rx byte).toList }, ())
  | .handler => (f.handlerStep, ())

end Firmware

open Firmware

def firmware : Machine Firmware FirmwareStep Unit := ⟨Firmware.step⟩

namespace Firmware

theorem next_rxByte (f : Firmware) (byte : UInt8) : firmware.next f (.rxByte byte) =
    { f with
      rx := uartRx.next f.rx byte
      accepted := f.accepted ++ (uartRx.output f.rx byte).toList } := rfl

def inHand (f : Firmware) : List Packet :=
  match f.pc with
  | .execute pkt => [pkt]
  | _ => []

/-- The mailbox is in use from the acceptance of a packet until the handler has copied it. -/
def Occupied (f : Firmware) : Prop := f.rx.pktReady = true ∨ f.pc = .copy

instance (f : Firmware) : Decidable f.Occupied := inferInstanceAs (Decidable (_ ∨ _))

def pending (f : Firmware) : List Packet := if f.Occupied then [f.rx.pendingPkt] else []

/-- The packets executed, then the one still pending, are the packets accepted. -/
def InOrder (f : Firmware) : Prop := f.executed ++ f.inHand ++ f.pending = f.accepted

def Free (f : Firmware) : FirmwareStep → Prop
  | .rxByte byte => f.Occupied → ¬ f.rx.Accepts byte
  | .handler => True

/-- The handler clears a raised flag, and copies while the flag is down. -/
def Synced (f : Firmware) : Prop :=
  (f.pc = .clear → f.rx.pktReady = true) ∧ (f.pc = .copy → f.rx.pktReady = false)

theorem synced_handlerStep (f : Firmware) : f.handlerStep.Synced := by
  cases hpc : f.pc with
  | test =>
    cases hr : f.rx.pktReady <;> simp [handlerStep, Synced, hpc, hr]
  | clear => simp [handlerStep, Synced, hpc]
  | copy => simp [handlerStep, Synced, hpc]
  | execute pkt => simp [handlerStep, Synced, hpc]

theorem synced_next {f : Firmware} {x : FirmwareStep} (h : f.Synced) (hx : f.Free x) :
    (firmware.next f x).Synced := by
  cases x with
  | handler => exact synced_handlerStep f
  | rxByte byte =>
    cases hout : uartRx.output f.rx byte with
    | none =>
      obtain ⟨hready, -⟩ := Receiver.mailbox_of_not_accepted hout
      simpa only [Synced, next_rxByte, hready] using h
    | some pkt =>
      have hpc : f.pc ≠ .copy := by
        intro hc
        have hnone := Receiver.output_eq_none_iff.mpr (hx (Or.inr hc))
        rw [hout] at hnone
        cases hnone
      obtain ⟨hready, -⟩ := Receiver.pending_of_accepted hout
      exact ⟨fun _ => hready, fun hc => absurd hc hpc⟩

/-- The handler moves packets from the mailbox to its hand to the executed ones, in order. -/
theorem inOrder_handlerStep {f : Firmware} (hs : f.Synced) (h : f.InOrder) :
    f.handlerStep.InOrder := by
  cases hpc : f.pc with
  | test =>
    cases hr : f.rx.pktReady <;>
      simpa [InOrder, inHand, pending, Occupied, handlerStep, hpc, hr] using h
  | clear =>
    have hr := hs.1 hpc
    simpa [InOrder, inHand, pending, Occupied, handlerStep, hpc, hr] using h
  | copy =>
    have hr := hs.2 hpc
    simpa [InOrder, inHand, pending, Occupied, handlerStep, hpc, hr] using h
  | execute pkt =>
    simpa [InOrder, inHand, pending, Occupied, handlerStep, hpc] using h

theorem pending_rejected {f : Firmware} {byte : UInt8} (hout : uartRx.output f.rx byte = none) :
    (firmware.next f (.rxByte byte)).pending = f.pending := by
  obtain ⟨hready, hpend⟩ := Receiver.mailbox_of_not_accepted hout
  have hocc : (firmware.next f (.rxByte byte)).Occupied ↔ f.Occupied := by
    simp only [Occupied, next_rxByte, hready]
  have hmail : (firmware.next f (.rxByte byte)).rx.pendingPkt = f.rx.pendingPkt := hpend
  simp only [pending, hocc, hmail]

theorem pending_accepted {f : Firmware} {byte : UInt8} {pkt : Packet}
    (hout : uartRx.output f.rx byte = some pkt) :
    (firmware.next f (.rxByte byte)).pending = [pkt] := by
  obtain ⟨hready, hpend⟩ := Receiver.pending_of_accepted hout
  have hocc : (firmware.next f (.rxByte byte)).Occupied := Or.inl hready
  rw [pending, if_pos hocc, next_rxByte, hpend]

/-- A byte keeps the order if and only if it accepts nothing into a mailbox in use. -/
theorem inOrder_rxByte {f : Firmware} (h : f.InOrder) (byte : UInt8) :
    (firmware.next f (.rxByte byte)).InOrder ↔ f.Free (.rxByte byte) := by
  cases hout : uartRx.output f.rx byte with
  | none =>
    have hsame : (firmware.next f (.rxByte byte)).InOrder := by
      rw [InOrder, pending_rejected hout, next_rxByte, hout, Option.toList_none, List.append_nil]
      exact h
    exact iff_of_true hsame (fun _ => Receiver.output_eq_none_iff.mp hout)
  | some pkt =>
    have hafter : (firmware.next f (.rxByte byte)).InOrder ↔
        f.executed ++ f.inHand ++ [pkt] = f.accepted ++ [pkt] := by
      rw [InOrder, pending_accepted hout, next_rxByte, hout, Option.toList_some]
      rfl
    rw [hafter, List.append_left_inj]
    by_cases hocc : f.Occupied
    · -- the packet in the mailbox is accepted but neither executed nor pending any more
      have hlost : f.executed ++ f.inHand ≠ f.accepted := by
        intro heq
        have hlen := congrArg List.length h
        rw [pending, if_pos hocc, List.length_append, heq, List.length_singleton] at hlen
        omega
      have hrefused : ¬ f.Free (.rxByte byte) := by
        intro hfree
        have hnone := Receiver.output_eq_none_iff.mpr (hfree hocc)
        rw [hout] at hnone
        cases hnone
      exact iff_of_false hlost hrefused
    · have hkept : f.executed ++ f.inHand = f.accepted := by
        simpa only [InOrder, pending, if_neg hocc, List.append_nil] using h
      exact iff_of_true hkept (fun ho => absurd ho hocc)

theorem synced_run {schedule : List FirmwareStep} (h : firmware.Along Free init schedule) :
    (firmware.run init schedule).Synced :=
  Machine.invariant_along (fun _ _ hs hx => synced_next hs hx) ⟨nofun, nofun⟩ h

/-- Throughout a run the commands executed and pending are those accepted, in order, exactly when
no step of the run accepts a packet into a mailbox in use. -/
theorem commands_in_order_iff (schedule : List FirmwareStep) :
    (∀ past, past <+: schedule → (firmware.run init past).InOrder) ↔
      firmware.Along Free init schedule := by
  apply Machine.prefixes_iff_along (I := fun past => (firmware.run init past).InOrder) rfl
  intro past x hfree hin
  rw [Machine.run_concat]
  cases x with
  | handler => exact iff_of_true (inOrder_handlerStep (synced_run hfree) hin) trivial
  | rxByte byte => exact inOrder_rxByte hin byte

/-- Two commands sent back to back, as on the arrival of a train: the first is overwritten. -/
theorem back_to_back_command_lost :
    ¬ ∀ (schedule : List FirmwareStep) past, past <+: schedule →
      (firmware.run init past).InOrder := by
  intro hall
  have h := hall _ _ (List.prefix_refl
    ([0xAA, 0x09, 0x01, 0x01, 0x5C, 0x55, 0xAA, 0x11, 0x01, 0x34, 0x71, 0x55].map
      FirmwareStep.rxByte))
  have hlen := congrArg List.length h
  revert hlen
  decide

end Firmware

end JeogiAt.Uart
