import JeogiAt.Library.Machine
import JeogiAt.UartProtocol

/-!
# The firmware's byte receiver

`uartRxCallback` is `UART_RxCallback` of `uart_handler.c`: one byte takes the receiver to its next
state and, at the ETX of a packet whose checksum holds, accepts the packet.

`partialFrame` reads off a state the bytes of the frame under reception. A byte that neither
starts nor ends a frame extends it (`next_receiving`), so a frame fed from `waitStx` leaves exactly
its own bytes there, whatever they are, and its last byte accepts it (`run_frame`).
-/

namespace JeogiAt.Uart

inductive RxState
  | waitStx
  | recvCmd
  | recvLen
  | recvData
  | recvCrc
  | waitEtx
  deriving DecidableEq

structure Receiver where
  rxState : RxState
  rxPkt : Packet
  dataIdx : UInt8
  pktReady : Bool
  pendingPkt : Packet
  deriving DecidableEq

def Packet.toCommand (pkt : Packet) : Command where
  cmd := pkt.cmd
  data := pkt.payload
  length_le := by
    have := pkt.len.toNat_lt
    rw [pkt.length_payload]
    omega

theorem Packet.toCommand_len (pkt : Packet) : pkt.toCommand.len = pkt.len := by
  rw [Command.len, toCommand, pkt.length_payload, UInt8.ofNat_toNat]

theorem Packet.toCommand_crc (pkt : Packet) : pkt.toCommand.crc = calcCRC pkt := by
  rw [Command.crc, toCommand_len]
  rfl

namespace Receiver

def init : Receiver := ⟨.waitStx, .zero, 0, false, .zero⟩

/-- `UART_RxCallback`. The second component is the packet when this byte sets `pktReady`. -/
def uartRxCallback (r : Receiver) (byte : UInt8) : Receiver × Option Packet :=
  match r.rxState with
  | .waitStx => (if byte = pktStx then { r with rxState := .recvCmd } else r, none)
  | .recvCmd => ({ r with rxPkt := { r.rxPkt with cmd := byte }, rxState := .recvLen }, none)
  | .recvLen =>
      let r' := { r with rxPkt := { r.rxPkt with len := byte }, dataIdx := 0 }
      -- a `uint8_t` length never exceeds the array, so the reset is dead code
      if pktMaxDataLen < byte.toNat then ({ r' with rxState := .waitStx }, none)
      else ({ r' with rxState := if 0 < byte then .recvData else .recvCrc }, none)
  | .recvData =>
      let r' := { r with rxPkt := r.rxPkt.writeData r.dataIdx byte, dataIdx := r.dataIdx + 1 }
      (if r'.rxPkt.len ≤ r'.dataIdx then { r' with rxState := .recvCrc } else r', none)
  | .recvCrc => ({ r with rxPkt := { r.rxPkt with crc := byte }, rxState := .waitEtx }, none)
  | .waitEtx =>
      if byte = pktEtx ∧ calcCRC r.rxPkt = r.rxPkt.crc then
        ({ r with pktReady := true, pendingPkt := r.rxPkt, rxState := .waitStx }, some r.rxPkt)
      else ({ r with rxState := .waitStx }, none)

end Receiver

open Receiver

def uartRx : Machine Receiver UInt8 (Option Packet) := ⟨uartRxCallback⟩

namespace Receiver

/-- The bytes of the frame under reception, from its STX on. -/
def partialFrame (r : Receiver) : List UInt8 :=
  match r.rxState with
  | .waitStx => []
  | .recvCmd => [pktStx]
  | .recvLen => [pktStx, r.rxPkt.cmd]
  | .recvData => pktStx :: r.rxPkt.cmd :: r.rxPkt.len :: r.rxPkt.data.toList.take r.dataIdx.toNat
  | .recvCrc => pktStx :: r.rxPkt.cmd :: r.rxPkt.len :: r.rxPkt.payload
  | .waitEtx => pktStx :: r.rxPkt.cmd :: r.rxPkt.len :: (r.rxPkt.payload ++ [r.rxPkt.crc])

/-- While data is awaited the next index is one of the packet's data bytes. -/
def WellFormed (r : Receiver) : Prop := r.rxState = .recvData → r.dataIdx < r.rxPkt.len

theorem wellFormed_of_waitStx {r : Receiver} (h : r.rxState = .waitStx) : r.WellFormed := by
  intro hd
  rw [h] at hd
  cases hd

theorem wellFormed_next (r : Receiver) (byte : UInt8) : (uartRx.next r byte).WellFormed := by
  intro hd
  cases hs : r.rxState with
  | waitStx =>
    simp only [Machine.next, uartRx, uartRxCallback, hs] at hd
    split_ifs at hd
    rw [hs] at hd
    cases hd
  | recvLen =>
    simp only [Machine.next, uartRx, uartRxCallback, hs] at hd ⊢
    split_ifs at hd ⊢ with hlen hpos
    exact hpos
  | recvData =>
    simp only [Machine.next, uartRx, uartRxCallback, hs] at hd ⊢
    split_ifs at hd ⊢ with hlast
    exact UInt8.not_le.mp hlast
  | waitEtx =>
    simp only [Machine.next, uartRx, uartRxCallback, hs] at hd
    split_ifs at hd
  | recvCmd => simp [Machine.next, uartRx, uartRxCallback, hs] at hd
  | recvCrc => simp [Machine.next, uartRx, uartRxCallback, hs] at hd

theorem wellFormed_run {r : Receiver} (h : r.WellFormed) (bytes : List UInt8) :
    (uartRx.run r bytes).WellFormed :=
  Machine.invariant_run (fun r byte _ => wellFormed_next r byte) h bytes

theorem next_start {r : Receiver} (h : r.rxState = .waitStx) :
    uartRx.next r pktStx = { r with rxState := .recvCmd } := by
  simp [Machine.next, uartRx, uartRxCallback, h]

theorem next_junk {r : Receiver} (h : r.rxState = .waitStx) {byte : UInt8} (hb : byte ≠ pktStx) :
    uartRx.next r byte = r := by
  simp [Machine.next, uartRx, uartRxCallback, h, hb]

theorem output_waitStx {r : Receiver} (h : r.rxState = .waitStx) (byte : UInt8) :
    uartRx.output r byte = none := by
  simp [Machine.output, uartRx, uartRxCallback, h]

theorem toNat_dataIdx_succ {r : Receiver} (hr : r.dataIdx < r.rxPkt.len) :
    (r.dataIdx + 1).toNat = r.dataIdx.toNat + 1 := by
  have hlt : r.dataIdx.toNat < r.rxPkt.len.toNat := hr
  have hlen := r.rxPkt.len.toNat_lt
  rw [UInt8.toNat_add, UInt8.toNat_one]
  omega

/-- The data index advances by one and the payload so far by the byte. -/
theorem take_next_data {r : Receiver} (hr : r.dataIdx < r.rxPkt.len) (byte : UInt8) :
    (r.rxPkt.writeData r.dataIdx byte).data.toList.take (r.dataIdx + 1).toNat =
      r.rxPkt.data.toList.take r.dataIdx.toNat ++ [byte] := by
  rw [toNat_dataIdx_succ hr, Packet.take_writeData]

theorem next_receiving {r : Receiver} (hr : r.WellFormed) (hstx : r.rxState ≠ .waitStx)
    (hetx : r.rxState ≠ .waitEtx) (byte : UInt8) :
    (uartRx.next r byte).partialFrame = r.partialFrame ++ [byte] ∧
      uartRx.output r byte = none ∧ (uartRx.next r byte).rxState ≠ .waitStx := by
  cases hs : r.rxState with
  | waitStx => exact absurd hs hstx
  | recvCmd => simp [Machine.next, Machine.output, uartRx, uartRxCallback, partialFrame, hs]
  | recvLen =>
    have hmax : ¬ pktMaxDataLen < byte.toNat := by
      have := toNat_lt_pktMaxDataLen byte
      omega
    simp only [Machine.next, Machine.output, uartRx, uartRxCallback, partialFrame, hs, if_neg hmax]
    split_ifs with hpos
    · simp
    · have hzero : byte.toNat = 0 := by
        have := UInt8.not_lt.mp hpos
        exact Nat.le_zero.mp this
      simp [Packet.payload, hzero]
  | recvData =>
    have hlt := hr hs
    have htake := take_next_data hlt byte
    simp only [Machine.next, Machine.output, uartRx, uartRxCallback, partialFrame, hs]
    split_ifs with hlast
    · -- the packet's last data byte: its length is the new index
      have hlen : r.rxPkt.len = r.dataIdx + 1 := by
        have h1 : r.dataIdx.toNat < r.rxPkt.len.toNat := hlt
        have h2 : r.rxPkt.len.toNat ≤ (r.dataIdx + 1).toNat := hlast
        have h3 := r.rxPkt.len.toNat_lt
        apply UInt8.toNat_inj.mp
        rw [UInt8.toNat_add, UInt8.toNat_one] at h2 ⊢
        omega
      have hpay : (r.rxPkt.writeData r.dataIdx byte).payload =
          r.rxPkt.data.toList.take r.dataIdx.toNat ++ [byte] := by
        rw [Packet.payload, Packet.writeData_len, hlen, htake]
      simp [hpay]
    · simp only [Packet.writeData_cmd, Packet.writeData_len, htake, List.cons_append]
      refine ⟨trivial, trivial, ?_⟩
      intro hwait
      cases hwait
  | recvCrc =>
    simp [Machine.next, Machine.output, uartRx, uartRxCallback, partialFrame, Packet.payload, hs]
  | waitEtx => exact absurd hs hetx

theorem next_waitEtx {r : Receiver} (h : r.rxState = .waitEtx) (byte : UInt8) :
    (uartRx.next r byte).rxState = .waitStx := by
  simp only [Machine.next, uartRx, uartRxCallback, h]
  split_ifs <;> rfl

theorem output_waitEtx {r : Receiver} (h : r.rxState = .waitEtx) (byte : UInt8) :
    uartRx.output r byte =
      if byte = pktEtx ∧ calcCRC r.rxPkt = r.rxPkt.crc then some r.rxPkt else none := by
  simp only [Machine.output, uartRx, uartRxCallback, h]
  split_ifs <;> rfl

/-- The byte is the ETX of a packet whose checksum holds. -/
def Accepts (r : Receiver) (byte : UInt8) : Prop :=
  r.rxState = .waitEtx ∧ byte = pktEtx ∧ calcCRC r.rxPkt = r.rxPkt.crc

instance (r : Receiver) (byte : UInt8) : Decidable (r.Accepts byte) :=
  inferInstanceAs (Decidable (_ ∧ _))

theorem output_eq (r : Receiver) (byte : UInt8) :
    uartRx.output r byte = if r.Accepts byte then some r.rxPkt else none := by
  by_cases hs : r.rxState = .waitEtx
  · rw [output_waitEtx hs]
    simp only [Accepts, hs, true_and]
  · rw [if_neg fun ha => hs ha.1]
    cases hc : r.rxState with
    | waitEtx => exact absurd hc hs
    | recvLen =>
      simp only [Machine.output, uartRx, uartRxCallback, hc]
      split_ifs <;> rfl
    | waitStx => simp [Machine.output, uartRx, uartRxCallback, hc]
    | recvCmd => simp [Machine.output, uartRx, uartRxCallback, hc]
    | recvData => simp [Machine.output, uartRx, uartRxCallback, hc]
    | recvCrc => simp [Machine.output, uartRx, uartRxCallback, hc]

theorem output_eq_none_iff {r : Receiver} {byte : UInt8} :
    uartRx.output r byte = none ↔ ¬ r.Accepts byte := by
  rw [output_eq]
  split_ifs with h <;> simp [h]

/-- An accepted packet is the one left pending, and the flag is up. -/
theorem pending_of_accepted {r : Receiver} {byte : UInt8} {pkt : Packet}
    (h : uartRx.output r byte = some pkt) :
    (uartRx.next r byte).pktReady = true ∧ (uartRx.next r byte).pendingPkt = pkt := by
  rw [output_eq] at h
  split_ifs at h with ha
  simp only [Machine.next, uartRx, uartRxCallback, ha.1, if_pos ha.2]
  exact ⟨trivial, Option.some.inj h⟩

theorem mailbox_of_not_accepted {r : Receiver} {byte : UInt8} (h : uartRx.output r byte = none) :
    (uartRx.next r byte).pktReady = r.pktReady ∧
      (uartRx.next r byte).pendingPkt = r.pendingPkt := by
  cases hs : r.rxState with
  | waitEtx =>
    simp only [Machine.output, Machine.next, uartRx, uartRxCallback, hs] at h ⊢
    split_ifs at h ⊢
    exact ⟨rfl, rfl⟩
  | recvLen =>
    simp only [Machine.next, uartRx, uartRxCallback, hs]
    split_ifs <;> exact ⟨rfl, rfl⟩
  | waitStx =>
    simp only [Machine.next, uartRx, uartRxCallback, hs]
    split_ifs <;> exact ⟨rfl, rfl⟩
  | recvData =>
    simp only [Machine.next, uartRx, uartRxCallback, hs]
    split_ifs <;> exact ⟨rfl, rfl⟩
  | recvCmd => simp [Machine.next, uartRx, uartRxCallback, hs]
  | recvCrc => simp [Machine.next, uartRx, uartRxCallback, hs]

theorem run_junk {r : Receiver} (h : r.rxState = .waitStx) {junk : List UInt8}
    (hj : pktStx ∉ junk) :
    uartRx.run r junk = r ∧ uartRx.trace r junk = List.replicate junk.length none := by
  induction junk with
  | nil => exact ⟨rfl, rfl⟩
  | cons b junk ih =>
    have hb : b ≠ pktStx := fun he => hj (he ▸ List.mem_cons_self)
    obtain ⟨hrun, htrace⟩ := ih (fun hm => hj (List.mem_cons_of_mem b hm))
    rw [Machine.run_cons, Machine.trace_cons, next_junk h hb, output_waitStx h, hrun, htrace]
    exact ⟨rfl, rfl⟩

/-- A frame's length byte tells how long it is: before all of the body has arrived the receiver
is not waiting for ETX. -/
theorem not_waitEtx_of_short {r : Receiver} {c : Command} {crc : UInt8}
    (hp : r.partialFrame <+: c.bodyWith crc)
    (hlen : r.partialFrame.length < (c.bodyWith crc).length) : r.rxState ≠ .waitEtx := by
  intro hs
  simp only [partialFrame, hs, Command.bodyWith, List.cons_prefix_cons] at hp hlen
  have hn : r.rxPkt.len.toNat = c.data.length := by rw [hp.2.2.1, Command.toNat_len]
  simp only [List.length_cons, List.length_append, Packet.length_payload, hn] at hlen
  omega

/-- With the whole body received the receiver waits for ETX and holds the command. -/
theorem waitEtx_of_body {r : Receiver} (hr : r.WellFormed) {c : Command} {crc : UInt8}
    (h : r.partialFrame = c.bodyWith crc) :
    r.rxState = .waitEtx ∧ r.rxPkt.toCommand = c ∧ r.rxPkt.crc = crc := by
  have hlength := congrArg List.length h
  rw [Command.length_bodyWith] at hlength
  cases hs : r.rxState with
  | waitStx => simp [partialFrame, hs] at hlength
  | recvCmd => simp [partialFrame, hs] at hlength
  | recvLen => simp [partialFrame, hs] at hlength
  | recvData =>
    have hlt : r.dataIdx.toNat < r.rxPkt.len.toNat := hr hs
    have hidx := toNat_lt_pktMaxDataLen r.dataIdx
    simp only [partialFrame, hs, Command.bodyWith, List.cons.injEq] at h hlength
    have hn : r.rxPkt.len.toNat = c.data.length := by rw [h.2.2.1, Command.toNat_len]
    simp only [List.length_cons, List.length_take, Packet.length_data] at hlength
    omega
  | recvCrc =>
    simp only [partialFrame, hs, Command.bodyWith, List.cons.injEq] at h hlength
    have hn : r.rxPkt.len.toNat = c.data.length := by rw [h.2.2.1, Command.toNat_len]
    simp only [List.length_cons, Packet.length_payload] at hlength
    omega
  | waitEtx =>
    simp only [partialFrame, hs, Command.bodyWith, List.cons.injEq] at h
    obtain ⟨hpay, hcrc⟩ := List.append_inj' h.2.2.2 rfl
    refine ⟨rfl, ?_, List.singleton_inj.mp hcrc⟩
    obtain ⟨cmd, data, hle⟩ := c
    simp only [Packet.toCommand, Command.mk.injEq]
    exact ⟨h.2.1, hpay⟩

/-- Fed any part of a frame's body from `waitStx`, the receiver holds exactly these bytes. -/
theorem run_body_part {r : Receiver} (h : r.rxState = .waitStx) {c : Command} {crc : UInt8}
    {bytes : List UInt8} (hp : bytes <+: c.bodyWith crc) (hne : bytes ≠ []) :
    (uartRx.run r bytes).partialFrame = bytes ∧ (uartRx.run r bytes).rxState ≠ .waitStx ∧
      uartRx.trace r bytes = List.replicate bytes.length none := by
  induction bytes using List.reverseRecOn with
  | nil => exact absurd rfl hne
  | append_singleton bytes b ih =>
    by_cases hnil : bytes = []
    · subst bytes
      have hb : b = pktStx := by
        simpa only [List.nil_append, Command.bodyWith, List.cons_prefix_cons, List.nil_prefix,
          and_true] using hp
      subst b
      simp [next_start h, output_waitStx h, partialFrame]
    · obtain ⟨hpart, hstx, htrace⟩ := ih ((List.prefix_append _ _).trans hp) hnil
      have hlt : bytes.length < (c.bodyWith crc).length := by
        have := hp.length_le
        rw [List.length_append, List.length_singleton] at this
        omega
      have hetx : (uartRx.run r bytes).rxState ≠ .waitEtx := by
        apply not_waitEtx_of_short (c := c)
        · rw [hpart]
          exact (List.prefix_append _ _).trans hp
        · rwa [hpart]
      obtain ⟨hnext, hout, hnstx⟩ := next_receiving
        (wellFormed_run (wellFormed_of_waitStx h) bytes) hstx hetx b
      rw [Machine.run_concat, Machine.trace_concat, hnext, hpart, hout, htrace]
      exact ⟨rfl, hnstx, by rw [List.length_append, List.length_singleton, List.replicate_succ']⟩

/-- A frame fed from `waitStx` takes the receiver back there, whatever its last two bytes are. Its
command is accepted at the last byte if that is ETX and the checksum is right. -/
theorem run_bodyWith {r : Receiver} (h : r.rxState = .waitStx) (c : Command) (crc etx : UInt8) :
    (uartRx.run r (c.bodyWith crc ++ [etx])).rxState = .waitStx ∧
      (uartRx.trace r (c.bodyWith crc ++ [etx])).map (Option.map Packet.toCommand) =
        List.replicate (c.bodyWith crc).length none ++
          [if etx = pktEtx ∧ c.crc = crc then some c else none] := by
  obtain ⟨hpart, -, htrace⟩ :=
    run_body_part h (List.prefix_refl (c.bodyWith crc)) (by simp [Command.bodyWith])
  obtain ⟨hs, hcmd, hcrc⟩ := waitEtx_of_body (wellFormed_run (wellFormed_of_waitStx h) _) hpart
  have hsum : calcCRC (uartRx.run r (c.bodyWith crc)).rxPkt = c.crc := by
    rw [← Packet.toCommand_crc, hcmd]
  rw [Machine.run_concat, Machine.trace_concat, next_waitEtx hs, output_waitEtx hs, hcrc, hsum,
    htrace, List.map_append, List.map_replicate, Option.map_none]
  refine ⟨rfl, ?_⟩
  split_ifs
  · rw [List.map_singleton, Option.map_some, hcmd]
  · rfl

/-- A frame fed from `waitStx` accepts its command at its ETX byte and at no other. -/
theorem run_frame {r : Receiver} (h : r.rxState = .waitStx) (c : Command) :
    (uartRx.run r c.frame).rxState = .waitStx ∧
      (uartRx.trace r c.frame).map (Option.map Packet.toCommand) =
        List.replicate c.body.length none ++ [some c] := by
  have hrun := run_bodyWith h c c.crc pktEtx
  rwa [if_pos ⟨rfl, rfl⟩, Command.bodyWith_crc] at hrun

end Receiver

/-- Line noise that cannot be taken for the start of a frame. -/
structure Junk where
  bytes : List UInt8
  no_stx : pktStx ∉ bytes

def stream : List (Junk × Command) → List UInt8
  | [] => []
  | (junk, c) :: rest => junk.bytes ++ c.frame ++ stream rest

/-- What a receiver should answer to the bytes of a stream: each command at its own ETX. -/
def answers : List (Junk × Command) → List (Option Command)
  | [] => []
  | (junk, c) :: rest =>
      List.replicate junk.bytes.length none ++ (List.replicate c.body.length none ++ [some c]) ++
        answers rest

theorem run_stream {r : Receiver} (h : r.rxState = .waitStx) (frames : List (Junk × Command)) :
    (uartRx.run r (stream frames)).rxState = .waitStx ∧
      (uartRx.trace r (stream frames)).map (Option.map Packet.toCommand) = answers frames := by
  induction frames generalizing r with
  | nil => exact ⟨h, rfl⟩
  | cons head rest ih =>
    obtain ⟨junk, c⟩ := head
    obtain ⟨hjrun, hjtrace⟩ := run_junk h junk.no_stx
    obtain ⟨hcrun, hctrace⟩ := run_frame h c
    obtain ⟨hrest, htrest⟩ := ih hcrun
    simp only [stream, answers, Machine.run_append, Machine.trace_append, hjrun, hjtrace,
      List.map_append, List.map_replicate, hctrace, htrest, Option.map_none]
    exact ⟨hrest, trivial⟩

/-- Every sender of the Pi writes the frame of its command with its data, and any frames separated
by junk are accepted in order, each command at its own ETX, with the receiver back in `waitStx` after
every frame. -/
theorem pi_commands_accepted {r : Receiver} (h : r.rxState = .waitStx)
    (frames : List (Junk × Command)) (tail : Junk) :
    (∀ uart_fd (request : Communication.Request) bytes,
        request.written uart_fd = some bytes →
          ∃ hle : request.data.length ≤ 255,
            bytes = (Command.mk request.cmd request.data hle).frame) ∧
      (uartRx.trace r (stream frames ++ tail.bytes)).map (Option.map Packet.toCommand) =
        answers frames ++ List.replicate tail.bytes.length none ∧
      (∀ sent, sent <+: frames → (uartRx.run r (stream sent)).rxState = .waitStx) ∧
      (uartRx.run r (stream frames ++ tail.bytes)).rxState = .waitStx := by
  obtain ⟨hrun, htrace⟩ := run_stream h frames
  obtain ⟨htail, httail⟩ := run_junk hrun tail.no_stx
  refine ⟨Communication.Request.written_eq_frame, ?_, fun sent _ => (run_stream h sent).1, ?_⟩
  · rw [Machine.trace_append, List.map_append, htrace, httail, List.map_replicate,
      Option.map_none]
  · rw [Machine.run_append, htail]
    exact hrun

/-- A file name made of framing bytes, after noise, from the receiver's initial state. -/
theorem pi_commands_accepted_framing_bytes :
    (uartRx.trace .init (stream [(⟨[0x00, 0x55], by decide⟩, ⟨cmdPlayWav, [0xAA, 0x55], by decide⟩)]
        ++ [])).map (Option.map Packet.toCommand) =
      List.replicate 8 none ++ [some ⟨cmdPlayWav, [0xAA, 0x55], by decide⟩] :=
  (pi_commands_accepted (r := .init) rfl
    [(⟨[0x00, 0x55], by decide⟩, ⟨cmdPlayWav, [0xAA, 0x55], by decide⟩)]
    ⟨[], by decide⟩).2.1

end JeogiAt.Uart
