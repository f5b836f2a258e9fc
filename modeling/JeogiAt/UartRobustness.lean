import JeogiAt.Library.Streams
import JeogiAt.UartReceiver

/-!
# The receiver on arbitrary bytes

`partialFrame_suffix`: whatever has been fed, the frame under reception is the end of it, so that an
accepted packet has just been sent as a frame, byte for byte. `pending` bounds the bytes until the
receiver waits for STX again, in whatever state it is.

A corruption of a frame is the list of the differences of its bytes. As the checksum is linear, it
goes unnoticed exactly when the differences cancel and ETX is intact.
-/

namespace JeogiAt.Uart

open Bytes

namespace Receiver

theorem next_waitStx_cases {r : Receiver} (h : r.rxState = .waitStx) (byte : UInt8) :
    (uartRx.next r byte).partialFrame = [] ∨ (uartRx.next r byte).partialFrame = [byte] := by
  by_cases hb : byte = pktStx
  · right
    rw [hb, next_start h]
    rfl
  · left
    rw [next_junk h hb, partialFrame, h]

theorem partialFrame_suffix {r : Receiver} (h : r.rxState = .waitStx) (bytes : List UInt8) :
    (uartRx.run r bytes).partialFrame <:+ bytes := by
  induction bytes using List.reverseRecOn with
  | nil => rw [Machine.run_nil, partialFrame, h]
  | append_singleton bytes b ih =>
    rw [Machine.run_concat]
    have hwf := wellFormed_run (wellFormed_of_waitStx h) bytes
    generalize uartRx.run r bytes = s at ih hwf ⊢
    by_cases hstx : s.rxState = .waitStx
    · rcases next_waitStx_cases hstx b with hnil | hone
      · rw [hnil]
        exact List.nil_suffix
      · rw [hone]
        exact List.suffix_append bytes [b]
    · by_cases hetx : s.rxState = .waitEtx
      · rw [partialFrame, next_waitEtx hetx]
        exact List.nil_suffix
      · obtain ⟨before, rfl⟩ := ih
        rw [(next_receiving hwf hstx hetx b).1, List.append_assoc]
        exact List.suffix_append before _

/-- The frame of an accepted packet is what was under reception, and ETX. -/
theorem frame_of_accepted {r : Receiver} {byte : UInt8} {pkt : Packet}
    (h : uartRx.output r byte = some pkt) :
    r.rxState = .waitEtx ∧ pkt.crc = calcCRC pkt ∧
      pkt.toCommand.frame = r.partialFrame ++ [byte] := by
  rw [output_eq] at h
  split_ifs at h with ha
  obtain ⟨hs, hetx, hcrc⟩ := ha
  cases h
  refine ⟨hs, hcrc.symm, ?_⟩
  rw [Command.frame, Command.body, Packet.toCommand_len, Packet.toCommand_crc, hcrc, hetx,
    partialFrame, hs]
  rfl

def AcceptedAt (r : Receiver) (bytes : List UInt8) (pkt : Packet) : Prop :=
  ∃ before byte, bytes = before ++ [byte] ∧ uartRx.output (uartRx.run r before) byte = some pkt

theorem acceptedAt_of_accepts {r : Receiver} {before : List UInt8} {byte : UInt8}
    (h : (uartRx.run r before).Accepts byte) :
    r.AcceptedAt (before ++ [byte]) (uartRx.run r before).rxPkt :=
  ⟨before, byte, rfl, by rw [output_eq, if_pos h]⟩

theorem AcceptedAt.frame_suffix {r : Receiver} (h : r.rxState = .waitStx) {bytes : List UInt8}
    {pkt : Packet} (ha : r.AcceptedAt bytes pkt) : pkt.toCommand.frame <:+ bytes := by
  obtain ⟨before, byte, rfl, hout⟩ := ha
  obtain ⟨earlier, hearlier⟩ := partialFrame_suffix h before
  refine ⟨earlier, ?_⟩
  rw [(frame_of_accepted hout).2.2, ← List.append_assoc, hearlier]

theorem AcceptedAt.waitStx {r : Receiver} {bytes : List UInt8} {pkt : Packet}
    (ha : r.AcceptedAt bytes pkt) : (uartRx.run r bytes).rxState = .waitStx := by
  obtain ⟨before, byte, rfl, hout⟩ := ha
  rw [Machine.run_concat]
  exact next_waitEtx (frame_of_accepted hout).1 byte

theorem AcceptedAt.later {r : Receiver} {first more : List UInt8} {pkt : Packet}
    (hne : more ≠ []) (ha : r.AcceptedAt (first ++ more) pkt) :
    (uartRx.run r first).AcceptedAt more pkt := by
  obtain ⟨before, byte, heq, hout⟩ := ha
  obtain ⟨more, last, rfl⟩ := (List.eq_nil_or_concat more).resolve_left hne
  rw [List.concat_eq_append, ← List.append_assoc, List.append_singleton_inj] at heq
  obtain ⟨rfl, rfl⟩ := heq
  rw [Machine.run_append] at hout
  exact ⟨more, last, List.concat_eq_append, hout⟩

theorem length_toCommand_frame (pkt : Packet) :
    pkt.toCommand.frame.length = pkt.len.toNat + 5 := by
  rw [Command.length_frame, Packet.toCommand, pkt.length_payload]

end Receiver

open Receiver

/-- An accepted packet's frame is the end of the bytes fed so far, it starts after the end of any
packet accepted before, and every data byte goes inside the array. -/
theorem accepted_frames {r : Receiver} (h : r.rxState = .waitStx) :
    (∀ bytes pkt, r.AcceptedAt bytes pkt →
        pkt.crc = calcCRC pkt ∧ pkt.toCommand.frame.length = pkt.len.toNat + 5 ∧
          pkt.toCommand.frame <:+ bytes) ∧
      (∀ first more pkt pkt', more ≠ [] → r.AcceptedAt first pkt →
        r.AcceptedAt (first ++ more) pkt' → pkt'.toCommand.frame <:+ more) ∧
      ∀ bytes, (uartRx.run r bytes).rxState = .recvData →
        (uartRx.run r bytes).dataIdx < (uartRx.run r bytes).rxPkt.len ∧
          (uartRx.run r bytes).rxPkt.len.toNat ≤ 255 ∧
          (uartRx.run r bytes).dataIdx.toNat < pktMaxDataLen := by
  refine ⟨fun bytes pkt ha => ?_, fun first more pkt pkt' hne ha ha' => ?_, fun bytes hs => ?_⟩
  · refine ⟨?_, length_toCommand_frame pkt, ha.frame_suffix h⟩
    obtain ⟨before, byte, -, hout⟩ := ha
    exact (frame_of_accepted hout).2.1
  · exact (ha'.later hne).frame_suffix ha.waitStx
  · have hlen := (uartRx.run r bytes).rxPkt.len.toNat_lt
    exact ⟨wellFormed_run (wellFormed_of_waitStx h) bytes hs, by omega,
      toNat_lt_pktMaxDataLen _⟩

/-- The second of two packets, after noise, from the receiver's initial state. -/
theorem accepted_frames_second :
    (⟨0x09, [0x01], by decide⟩ : Command).frame <:+ [0x00, 0xAA, 0x09, 0x01, 0x01, 0x5C, 0x55] :=
  (accepted_frames (r := .init) rfl).2.1 [0xAA, 0x01, 0x00, 0x54, 0x55] _ _ _ (List.cons_ne_nil _ _)
    (@acceptedAt_of_accepts _ [0xAA, 0x01, 0x00, 0x54] 0x55 (by decide +kernel))
    (@acceptedAt_of_accepts _ [0xAA, 0x01, 0x00, 0x54, 0x55, 0x00, 0xAA, 0x09, 0x01, 0x01, 0x5C]
      0x55 (by decide +kernel))

namespace Receiver

theorem mailbox_of_silent {r : Receiver} {bytes : List UInt8}
    (h : ∀ o ∈ uartRx.trace r bytes, o = none) :
    (uartRx.run r bytes).pktReady = r.pktReady ∧
      (uartRx.run r bytes).pendingPkt = r.pendingPkt := by
  induction bytes generalizing r with
  | nil => exact ⟨rfl, rfl⟩
  | cons b bytes ih =>
    rw [Machine.trace_cons, List.forall_mem_cons] at h
    obtain ⟨hready, hpending⟩ := mailbox_of_not_accepted h.1
    obtain ⟨hready', hpending'⟩ := ih h.2
    exact ⟨hready'.trans hready, hpending'.trans hpending⟩

end Receiver

/-- The differences of the bytes of a frame of `c` that arrive from those that were sent; STX and
LEN arrive intact. -/
structure Errors (c : Command) where
  cmd : UInt8
  data : List UInt8
  crc : UInt8
  etx : UInt8
  length_data : data.length = c.data.length

namespace Errors

variable {c : Command} (e : Errors c)

def pattern : List UInt8 := 0 :: e.cmd :: 0 :: (e.data ++ [e.crc, e.etx])

def corrupted : List UInt8 := List.zipWith (· ^^^ ·) c.frame e.pattern

def command : Command where
  cmd := c.cmd ^^^ e.cmd
  data := List.zipWith (· ^^^ ·) c.data e.data
  length_le := by
    rw [List.length_zipWith, e.length_data, Nat.min_self]
    exact c.length_le

def Unnoticed : Prop := e.etx = 0 ∧ xorFold 0 e.pattern = 0

instance : Decidable e.Unnoticed := inferInstanceAs (Decidable (_ ∧ _))

theorem command_len : e.command.len = c.len := by
  rw [Command.len, command, List.length_zipWith, e.length_data, Nat.min_self, Command.len]

theorem corrupted_eq :
    e.corrupted = e.command.bodyWith (c.crc ^^^ e.crc) ++ [pktEtx ^^^ e.etx] := by
  have hlen : c.data.length = e.data.length := e.length_data.symm
  rw [corrupted, pattern, Command.frame, Command.body, Command.bodyWith, command_len, command]
  simp only [List.cons_append, List.append_assoc, List.zipWith_cons_cons, UInt8.xor_zero,
    List.zipWith_append hlen, List.zipWith_nil_left, List.nil_append]

theorem command_crc :
    e.command.crc = c.crc ^^^ e.crc ↔ xorFold e.cmd e.data = e.crc := by
  have hseed : c.cmd ^^^ e.cmd ^^^ c.len = c.cmd ^^^ c.len ^^^ e.cmd := by
    rw [UInt8.xor_assoc, UInt8.xor_comm e.cmd, ← UInt8.xor_assoc]
  have hswap : xorFold (c.cmd ^^^ c.len) c.data ^^^ pktEtx ^^^ e.crc =
      xorFold (c.cmd ^^^ c.len) c.data ^^^ e.crc ^^^ pktEtx := by
    rw [UInt8.xor_assoc, UInt8.xor_comm pktEtx, ← UInt8.xor_assoc]
  rw [Command.crc, command_len, Command.crc, hswap, UInt8.xor_left_inj]
  simp only [command]
  rw [hseed, xorFold_zipWith e.length_data.symm, UInt8.xor_right_inj]

theorem unnoticed_iff :
    e.Unnoticed ↔ pktEtx ^^^ e.etx = pktEtx ∧ e.command.crc = c.crc ^^^ e.crc := by
  have hetx : pktEtx ^^^ e.etx = pktEtx ↔ e.etx = 0 := by
    rw [← UInt8.xor_right_inj (a := e.etx) (b := 0) pktEtx, UInt8.xor_zero]
  rw [Unnoticed, hetx, command_crc]
  refine and_congr_right fun hzero => ?_
  rw [pattern, hzero, xorFold_cons, xorFold_cons, xorFold_cons, xorFold_append, xorFold_cons,
    xorFold_cons, xorFold_nil, UInt8.xor_zero, UInt8.xor_zero, UInt8.xor_zero, UInt8.zero_xor,
    UInt8.xor_eq_zero_iff]

theorem not_unnoticed_of_single (h : e.pattern.countP (· ≠ 0) = 1) : ¬ e.Unnoticed :=
  fun hu => xorFold_ne_zero h hu.2

end Errors

/-- A corrupted frame is accepted exactly when its differences cancel and ETX is intact, so never
with a single byte changed. It ends where the frame ends, and one that is rejected leaves the
mailbox as it was; the next frame is accepted. -/
theorem corrupted_frame {r : Receiver} (h : r.rxState = .waitStx) (c : Command) (e : Errors c) :
    (uartRx.trace r e.corrupted).filterMap (Option.map Packet.toCommand) =
        (if e.Unnoticed then [e.command] else []) ∧
      (e.pattern.countP (· ≠ 0) = 1 → ¬ e.Unnoticed) ∧
      (¬ e.Unnoticed → (uartRx.run r e.corrupted).pktReady = r.pktReady ∧
        (uartRx.run r e.corrupted).pendingPkt = r.pendingPkt) ∧
      (uartRx.run r e.corrupted).rxState = .waitStx ∧
      (∀ bytes, bytes <+: e.corrupted → bytes ≠ [] → bytes ≠ e.corrupted →
        (uartRx.run r bytes).rxState ≠ .waitStx) ∧
      ∀ next : Command, (uartRx.trace (uartRx.run r e.corrupted) next.frame).map
        (Option.map Packet.toCommand) = List.replicate next.body.length none ++ [some next] := by
  rw [e.corrupted_eq]
  obtain ⟨hback, htrace⟩ := run_bodyWith h e.command (c.crc ^^^ e.crc) (pktEtx ^^^ e.etx)
  simp only [← e.unnoticed_iff] at htrace
  refine ⟨?_, e.not_unnoticed_of_single, fun hnot => ?_, hback, fun bytes hp hne hall => ?_,
    fun next => (run_frame hback next).2⟩
  · have hfilter : ∀ l : List (Option Packet), l.filterMap (Option.map Packet.toCommand) =
        (l.map (Option.map Packet.toCommand)).filterMap id := fun l => by
      rw [List.filterMap_map, Function.id_comp]
    rw [hfilter, htrace, List.filterMap_append, List.filterMap_replicate_of_none rfl]
    split_ifs <;> rfl
  · apply mailbox_of_silent
    intro o ho
    have hmem := List.mem_map_of_mem (f := Option.map Packet.toCommand) ho
    rw [htrace, if_neg hnot, ← List.replicate_succ'] at hmem
    exact Option.map_eq_none_iff.mp (List.eq_of_mem_replicate hmem)
  · have hbody := (List.prefix_concat_iff.mp hp).resolve_left hall
    exact (run_body_part h hbody hne).2.1

/-- One changed checksum byte of a request for the CO reading. -/
theorem corrupted_frame_crc :
    let e : Errors ⟨cmdGetCo, [], by decide⟩ := ⟨0, [], 1, 0, rfl⟩
    e.pattern.countP (· ≠ 0) = 1 ∧ (uartRx.run .init e.corrupted).pktReady = false := by
  intro e
  have hone : e.pattern.countP (· ≠ 0) = 1 := rfl
  have h := corrupted_frame (r := .init) rfl ⟨cmdGetCo, [], by decide⟩ e
  exact ⟨hone, (h.2.2.1 (h.2.1 hone)).1⟩

namespace Receiver

/-- At most so many bytes are read before the receiver waits for STX again. -/
def pending (r : Receiver) : ℕ :=
  match r.rxState with
  | .waitStx => 0
  | .recvCmd => 259
  | .recvLen => 258
  | .recvData => r.rxPkt.len.toNat - r.dataIdx.toNat + 2
  | .recvCrc => 2
  | .waitEtx => 1

theorem pending_le (r : Receiver) : r.pending ≤ 259 := by
  have := r.rxPkt.len.toNat_lt
  unfold pending
  split <;> omega

theorem pending_next {r : Receiver} (hr : r.WellFormed) (hstx : r.rxState ≠ .waitStx)
    (byte : UInt8) : (uartRx.next r byte).pending < r.pending := by
  cases hs : r.rxState with
  | waitStx => exact absurd hs hstx
  | recvCmd => simp [Machine.next, uartRx, uartRxCallback, pending, hs]
  | recvLen =>
    have hlt := byte.toNat_lt
    have hmax : ¬ pktMaxDataLen < byte.toNat := (toNat_lt_pktMaxDataLen byte).not_gt
    simp only [Machine.next, uartRx, uartRxCallback, pending, hs, if_neg hmax]
    split_ifs
    · dsimp only
      omega
    · exact Nat.lt_of_sub_eq_succ rfl
  | recvData =>
    have hlt : r.dataIdx.toNat < r.rxPkt.len.toNat := hr hs
    have hmax := r.rxPkt.len.toNat_lt
    have hidx := toNat_dataIdx_succ (hr hs)
    simp only [Machine.next, uartRx, uartRxCallback, pending, hs]
    split_ifs
    · dsimp only
      omega
    · simp only [Packet.writeData_len, hidx]
      omega
  | recvCrc => simp [Machine.next, uartRx, uartRxCallback, pending, hs]
  | waitEtx =>
    rw [pending, next_waitEtx hs, pending, hs]
    exact Nat.one_pos

theorem exists_waitStx {r : Receiver} (hr : r.WellFormed) (s : Stream' UInt8) :
    ∃ n ≤ r.pending, (uartRx.run r (s.take n)).rxState = .waitStx := by
  induction hp : r.pending using Nat.strong_induction_on generalizing r s with
  | _ p ih =>
    by_cases hstx : r.rxState = .waitStx
    · exact ⟨0, Nat.zero_le _, hstx⟩
    · have hlt := pending_next hr hstx s.head
      obtain ⟨n, hn, hrun⟩ := ih _ (hp ▸ hlt) (wellFormed_next r s.head) s.tail rfl
      exact ⟨n + 1, by omega, hrun⟩

theorem some_mem_trace_frame {r : Receiver} (h : r.rxState = .waitStx) (c : Command) :
    some c ∈ (uartRx.trace r c.frame).map (Option.map Packet.toCommand) := by
  rw [(run_frame h c).2]
  exact List.mem_append_right _ (List.mem_singleton_self _)

/-- Copies of a frame with no STX inside, from a receiver that waits for STX: what is left of the
first copy is skipped, and the next one is accepted. -/
theorem accepts_copy {r : Receiver} (h : r.rxState = .waitStx) {c : Command}
    (hc : pktStx ∉ c.frame.tail) (hne : c.frame ≠ []) (offset : ℕ) :
    ∃ n ≤ 2 * c.frame.length, some c ∈ (uartRx.trace r
      (((Stream'.cycle c.frame hne).drop offset).take n)).map (Option.map Packet.toCommand) := by
  obtain ⟨k, hk, hdrop⟩ := Streams.exists_drop_cycle hne offset
  rw [hdrop]
  cases k with
  | zero =>
    refine ⟨c.frame.length, by omega, ?_⟩
    rw [List.drop_zero, Streams.take_length_append]
    exact some_mem_trace_frame h c
  | succ k =>
    have hjunk : pktStx ∉ c.frame.drop (k + 1) := by
      rw [← List.drop_tail]
      exact fun hm => hc (List.mem_of_mem_drop hm)
    refine ⟨(c.frame.drop (k + 1) ++ c.frame).length, ?_, ?_⟩
    · rw [List.length_append, List.length_drop]
      omega
    · rw [Stream'.cycle_eq, ← Stream'.append_append_stream, Streams.take_length_append,
        Machine.trace_append, (run_junk h hjunk).1, List.map_append]
      exact List.mem_append_right _ (some_mem_trace_frame h c)

end Receiver

theorem Command.frame_ne_nil (c : Command) : c.frame ≠ [] :=
  List.append_ne_nil_of_right_ne_nil _ (List.cons_ne_nil _ _)

/-- Whatever the receiver has been fed: it waits for STX within 259 bytes, and copies of a frame
with no STX inside are accepted within 259 bytes and two frames. -/
theorem resynchronises (past : List UInt8) :
    (∀ s : Stream' UInt8, ∃ n ≤ 259,
        (uartRx.run (uartRx.run .init past) (s.take n)).rxState = .waitStx) ∧
      ∀ c : Command, pktStx ∉ c.frame.tail → ∀ offset, ∃ n ≤ 259 + 2 * c.frame.length,
        some c ∈ (uartRx.trace (uartRx.run .init past)
          (((Stream'.cycle c.frame c.frame_ne_nil).drop offset).take n)).map
            (Option.map Packet.toCommand) := by
  have hwf : (uartRx.run .init past).WellFormed := wellFormed_run (wellFormed_of_waitStx rfl) past
  have hsync (s : Stream' UInt8) : ∃ n ≤ 259,
      (uartRx.run (uartRx.run .init past) (s.take n)).rxState = .waitStx := by
    obtain ⟨n, hn, hrun⟩ := exists_waitStx hwf s
    exact ⟨n, hn.trans (pending_le _), hrun⟩
  refine ⟨hsync, fun c hc offset => ?_⟩
  obtain ⟨n, hn, hrun⟩ := hsync ((Stream'.cycle c.frame c.frame_ne_nil).drop offset)
  obtain ⟨m, hm, hmem⟩ := accepts_copy hrun hc c.frame_ne_nil (offset + n)
  refine ⟨n + m, by omega, ?_⟩
  rw [Streams.take_add, Machine.trace_append, List.map_append, Stream'.drop_drop]
  exact List.mem_append_right _ hmem

/-- A stray STX announces 255 data bytes before a request for the CO reading is repeated. -/
theorem resynchronises_stray_stx :
    ∃ n ≤ 259 + 2 * (⟨cmdGetCo, [], by decide⟩ : Command).frame.length,
      some ⟨cmdGetCo, [], by decide⟩ ∈ (uartRx.trace (uartRx.run .init [0xAA, 0x01, 0xFF])
        (((Stream'.cycle _ (Command.frame_ne_nil ⟨cmdGetCo, [], by decide⟩)).drop 3).take n)).map
          (Option.map Packet.toCommand) :=
  (resynchronises [0xAA, 0x01, 0xFF]).2 ⟨cmdGetCo, [], by decide⟩ (by decide) 3

end JeogiAt.Uart
