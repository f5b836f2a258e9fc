import JeogiAt.UartReceiver
import JeogiAt.UartResponse

/-!
# The Pi's frame reader and the firmware's byte receiver

`readPacket` is straight-line code with early returns, `uartRx` a state machine fed byte by byte.
`readPackets` calls the first one until the bytes run out and `accepted` collects what the second
one accepts. Each `readPacket` call reads some bytes; these take the receiver from `waitStx` back
to `waitStx`, or they are all the bytes there are, and on them both find the same packet or none
(`readPacket_simulates`). So both find the same packets in every stream.
-/

namespace JeogiAt.Uart

/-- `(cmd, len, data)` -/
abbrev Fields := UInt8 × UInt8 × List UInt8

def Packet.fields (pkt : Packet) : Fields := (pkt.cmd, pkt.len, pkt.payload)

def Command.fields (c : Command) : Fields := (c.cmd, c.len, c.data)

theorem Packet.fields_toCommand (pkt : Packet) : pkt.toCommand.fields = pkt.fields := by
  rw [Command.fields, toCommand_len]
  rfl

def accepted (r : Receiver) (bytes : List UInt8) : List Fields :=
  (uartRx.trace r bytes).filterMap (Option.map Packet.fields)

theorem accepted_append (r : Receiver) (xs ys : List UInt8) :
    accepted r (xs ++ ys) = accepted r xs ++ accepted (uartRx.run r xs) ys := by
  rw [accepted, Machine.trace_append, List.filterMap_append]
  rfl

theorem accepted_of_silent {r : Receiver} {bytes : List UInt8} {n : ℕ}
    (h : uartRx.trace r bytes = List.replicate n none) : accepted r bytes = [] := by
  rw [accepted, h, List.filterMap_replicate_of_none]
  rfl

theorem accepted_eq_commands (r : Receiver) (bytes : List UInt8) :
    accepted r bytes = ((uartRx.trace r bytes).map (Option.map Packet.toCommand)).filterMap
      (Option.map Command.fields) := by
  rw [List.filterMap_map, accepted]
  apply List.filterMap_congr
  intro o _
  cases o with
  | none => rfl
  | some pkt => exact congrArg some pkt.fields_toCommand.symm

theorem accepted_junk {r : Receiver} (h : r.rxState = .waitStx) {junk : List UInt8}
    (hj : pktStx ∉ junk) : accepted r junk = [] :=
  accepted_of_silent (Receiver.run_junk h hj).2

theorem accepted_short {r : Receiver} (h : r.rxState = .waitStx) {c : Command} {crc : UInt8}
    {bytes : List UInt8} (hp : bytes <+: c.bodyWith crc) : accepted r bytes = [] := by
  by_cases hnil : bytes = []
  · rw [hnil]
    rfl
  · exact accepted_of_silent (Receiver.run_body_part h hp hnil).2.2

theorem accepted_bodyWith {r : Receiver} (h : r.rxState = .waitStx) (c : Command)
    (crc etx : UInt8) :
    accepted r (c.bodyWith crc ++ [etx]) =
      if etx = pktEtx ∧ c.crc = crc then [c.fields] else [] := by
  rw [accepted_eq_commands, (Receiver.run_bodyWith h c crc etx).2, List.filterMap_append,
    List.filterMap_replicate_of_none rfl]
  split_ifs <;> rfl

end JeogiAt.Uart

namespace JeogiAt.Communication

open Uart

/-- The fields of a frame where the callers of `read_packet` find them. -/
def frameFields : List UInt8 → Option Fields
  | _ :: cmd :: len :: rest => some (cmd, len, rest.take len.toNat)
  | _ => none

def ReadResult.packets (r : ReadResult) : List Fields :=
  if r.ok then (frameFields r.out).toList else []

theorem findStx_eq_none {input : List UInt8} (h : findStx input = none) : pktStx ∉ input := by
  induction input with
  | nil => exact List.not_mem_nil
  | cons b input ih =>
    rw [findStx] at h
    split_ifs at h with hb
    exact List.not_mem_cons_of_ne_of_not_mem (Ne.symm hb) (ih h)

theorem findStx_eq_some {input tail : List UInt8} (h : findStx input = some tail) :
    ∃ junk, pktStx ∉ junk ∧ input = junk ++ pktStx :: tail := by
  induction input with
  | nil => cases h
  | cons b input ih =>
    rw [findStx] at h
    split_ifs at h with hb
    · cases h
      exact ⟨[], List.not_mem_nil, by rw [hb, List.nil_append]⟩
    · obtain ⟨junk, hj, hinput⟩ := ih h
      refine ⟨b :: junk, List.not_mem_cons_of_ne_of_not_mem (Ne.symm hb) hj, ?_⟩
      rw [hinput, List.cons_append]

/-- The command whose length byte is `len` and whose data are the next `len` bytes. -/
theorem exists_command (cmd len : UInt8) (tail : List UInt8) (h : len.toNat ≤ tail.length) :
    ∃ c : Command, c.fields = (cmd, len, tail.take len.toNat) := by
  have hlen : (tail.take len.toNat).length = len.toNat := by
    rw [List.length_take, Nat.min_eq_left h]
  have hlt := len.toNat_lt
  have hnat : UInt8.ofNat (tail.take len.toNat).length = len := by rw [hlen, UInt8.ofNat_toNat]
  exact ⟨⟨cmd, tail.take len.toNat, by omega⟩,
    congrArg (fun n => (cmd, n, tail.take len.toNat)) hnat⟩

/-- Bytes that run out before the last byte of a frame are the front of some frame. -/
theorem prefix_of_short (cmd len : UInt8) (tail : List UInt8)
    (h : tail.length ≤ len.toNat + 1) :
    ∃ (c : Command) (crc : UInt8), pktStx :: cmd :: len :: tail <+: c.bodyWith crc := by
  let whole := tail ++ List.replicate (len.toNat + 1 - tail.length) 0
  have hwhole : whole.length = len.toNat + 1 := by
    rw [List.length_append, List.length_replicate]
    omega
  obtain ⟨c, hc⟩ := exists_command cmd len whole (by omega)
  obtain ⟨hcmd, hrest⟩ := Prod.mk.inj hc
  obtain ⟨hlen, hdata⟩ := Prod.mk.inj hrest
  obtain ⟨crc, hcrc⟩ := List.length_eq_one_iff.mp
    (show (whole.drop len.toNat).length = 1 by rw [List.length_drop]; omega)
  refine ⟨c, crc, List.replicate (len.toNat + 1 - tail.length) 0, ?_⟩
  rw [Command.bodyWith, hcmd, hlen, hdata, ← hcrc, List.take_append_drop]
  rfl

/-- A call that finds a whole frame reads it, whatever its last two bytes are. -/
theorem readPacket_whole {junk : List UInt8} (hj : pktStx ∉ junk) (c : Command)
    (crc etx : UInt8) (rest : List UInt8) :
    (readPacket (junk ++ c.bodyWith crc ++ etx :: rest)).rest = rest ∧
      (readPacket (junk ++ c.bodyWith crc ++ etx :: rest)).packets =
        if etx = pktEtx ∧ c.crc = crc then [c.fields] else [] := by
  have hfind : findStx (junk ++ c.bodyWith crc ++ etx :: rest) =
      some (c.cmd :: c.len :: (c.data ++ crc :: etx :: rest)) := by
    induction junk with
    | nil => simp [Command.bodyWith, findStx]
    | cons b junk ih =>
      have hb : b ≠ pktStx := fun he => hj (he ▸ List.mem_cons_self)
      rw [List.cons_append, List.cons_append, findStx, if_neg hb]
      exact ih fun hm => hj (List.mem_cons_of_mem b hm)
  simp only [readPacket, hfind, c.toNat_len, List.drop_left, List.take_left, calcCrc_eq_crc]
  by_cases hetx : etx = pktEtx
  · by_cases hcrc : c.crc = crc
    · simp [hetx, hcrc, ReadResult.packets, frameFields, Command.fields]
    · simp [hetx, hcrc, Ne.symm hcrc, ReadResult.packets]
  · simp [hetx, ReadResult.packets]

theorem readPacket_short {input tail : List UInt8} {cmd len : UInt8}
    (hfind : findStx input = some (cmd :: len :: tail)) (h : tail.length ≤ len.toNat + 1) :
    readPacket input = ⟨false, [], []⟩ := by
  simp only [readPacket, hfind]
  split
  · rename_i crc_rx etx rest hdrop
    have hlen := congrArg List.length hdrop
    simp only [List.length_drop, List.length_cons] at hlen
    omega
  · rfl

/-- The bytes one call reads are those the receiver needs to find the same packet, or none. -/
structure Simulates (r : Receiver) (input : List UInt8) (used : List UInt8) : Prop where
  split : input = used ++ (readPacket input).rest
  same : (readPacket input).packets = accepted r used
  back : (uartRx.run r used).rxState = .waitStx ∨ (readPacket input).rest = []

theorem simulates_of_exhausted {r : Receiver} {input : List UInt8}
    (hread : readPacket input = ⟨false, [], []⟩) (hacc : accepted r input = []) :
    Simulates r input input where
  split := by rw [hread, List.append_nil]
  same := by rw [hread, hacc]; rfl
  back := .inr (by rw [hread])

theorem simulates_of_truncated {r : Receiver} (h : r.rxState = .waitStx)
    {junk tail : List UInt8} (hj : pktStx ∉ junk) {c : Command} {crc : UInt8}
    (hp : pktStx :: tail <+: c.bodyWith crc)
    (hread : readPacket (junk ++ pktStx :: tail) = ⟨false, [], []⟩) :
    Simulates r (junk ++ pktStx :: tail) (junk ++ pktStx :: tail) := by
  apply simulates_of_exhausted hread
  rw [accepted_append, accepted_junk h hj, (Receiver.run_junk h hj).1, accepted_short h hp,
    List.nil_append]

theorem simulates_of_whole {r : Receiver} (h : r.rxState = .waitStx) {junk : List UInt8}
    (hj : pktStx ∉ junk) (c : Command) (crc etx : UInt8) (rest : List UInt8) :
    Simulates r (junk ++ c.bodyWith crc ++ etx :: rest) (junk ++ (c.bodyWith crc ++ [etx])) := by
  obtain ⟨hrest, hpackets⟩ := readPacket_whole hj c crc etx rest
  have hrun := (Receiver.run_junk h hj).1
  constructor
  · rw [hrest]
    simp only [List.append_assoc, List.singleton_append]
  · rw [hpackets, accepted_append, accepted_junk h hj, hrun, accepted_bodyWith h, List.nil_append]
  · left
    rw [Machine.run_append, hrun]
    exact (Receiver.run_bodyWith h c crc etx).1

/-- One call of the reader, by how far the bytes reach: no STX, a truncated frame, a whole one. -/
theorem readPacket_simulates {r : Receiver} (h : r.rxState = .waitStx) (input : List UInt8) :
    ∃ used, Simulates r input used := by
  cases hfind : findStx input with
  | none =>
    have hread : readPacket input = ⟨false, [], []⟩ := by simp only [readPacket, hfind]
    exact ⟨input, simulates_of_exhausted hread (accepted_junk h (findStx_eq_none hfind))⟩
  | some tail =>
    obtain ⟨junk, hj, rfl⟩ := findStx_eq_some hfind
    rcases tail with _ | ⟨cmd, _ | ⟨len, tail⟩⟩
    · obtain ⟨c, crc, hp⟩ := prefix_of_short 0 0 [] (Nat.zero_le _)
      have hread : readPacket (junk ++ [pktStx]) = ⟨false, [], []⟩ := by
        simp only [readPacket, hfind]
      exact ⟨_, simulates_of_truncated h hj ((List.prefix_append [pktStx] [0, 0]).trans hp) hread⟩
    · obtain ⟨c, crc, hp⟩ := prefix_of_short cmd 0 [] (Nat.zero_le _)
      have hread : readPacket (junk ++ [pktStx, cmd]) = ⟨false, [], []⟩ := by
        simp only [readPacket, hfind]
      exact ⟨_, simulates_of_truncated h hj ((List.prefix_append [pktStx, cmd] [0]).trans hp) hread⟩
    · by_cases hshort : tail.length ≤ len.toNat + 1
      · obtain ⟨c, crc, hp⟩ := prefix_of_short cmd len tail hshort
        exact ⟨_, simulates_of_truncated h hj hp (readPacket_short hfind hshort)⟩
      · obtain ⟨c, hc⟩ := exists_command cmd len tail (by omega)
        obtain ⟨crc, etx, rest, hdrop⟩ :
            ∃ crc etx rest, tail.drop len.toNat = crc :: etx :: rest := by
          have hlen : 2 ≤ (tail.drop len.toNat).length := by
            rw [List.length_drop]
            omega
          rcases hd : tail.drop len.toNat with _ | ⟨crc, _ | ⟨etx, rest⟩⟩
          · rw [hd] at hlen
            cases hlen
          · rw [hd] at hlen
            exact absurd hlen (Nat.not_succ_le_self 1)
          · exact ⟨crc, etx, rest, rfl⟩
        have hinput : junk ++ pktStx :: cmd :: len :: tail =
            junk ++ c.bodyWith crc ++ etx :: rest := by
          obtain ⟨hcmd, hrest⟩ := Prod.mk.inj hc
          obtain ⟨hlen, hdata⟩ := Prod.mk.inj hrest
          have htail : tail = c.data ++ crc :: etx :: rest := by
            rw [hdata, ← hdrop, List.take_append_drop]
          rw [Command.bodyWith, hcmd, hlen, htail]
          simp only [List.append_assoc, List.cons_append, List.nil_append]
        rw [hinput]
        exact ⟨_, simulates_of_whole h hj c crc etx rest⟩

theorem length_rest_lt {input : List UInt8} (h : input ≠ []) :
    (readPacket input).rest.length < input.length := by
  have hpos := List.length_pos_iff.mpr h
  unfold readPacket
  split
  · rename_i cmd len tail hfind
    split
    · rename_i crc_rx etx rest hdrop
      have hlt := length_packet_lt hfind hdrop
      dsimp only
      split_ifs <;> (dsimp only; omega)
    · exact hpos
  · exact hpos

/-- `read_packet` called until the bytes run out; a failed call contributes nothing. -/
def readPackets (input : List UInt8) : List Fields :=
  if h : input = [] then []
  else
    have := length_rest_lt h
    (readPacket input).packets ++ readPackets (readPacket input).rest
termination_by input.length

/-- The two parsers find the same packets in every stream. -/
theorem readPackets_eq_accepted {r : Receiver} (h : r.rxState = .waitStx) (input : List UInt8) :
    readPackets input = accepted r input := by
  induction hn : input.length using Nat.strong_induction_on generalizing r input with
  | _ n ih =>
    by_cases hnil : input = []
    · rw [readPackets, dif_pos hnil, hnil]
      rfl
    · obtain ⟨used, hsim⟩ := readPacket_simulates h input
      have hlt := length_rest_lt hnil
      rw [readPackets, dif_neg hnil]
      conv_rhs => rw [hsim.split, accepted_append]
      rw [hsim.same]
      congr 1
      rcases hsim.back with hback | hrest
      · exact ih _ (hn ▸ hlt) hback _ rfl
      · rw [hrest, readPackets, dif_pos rfl]
        rfl

/-- A frame inside a corrupted frame is lost to both; the one after them is found by both. -/
theorem readPackets_nested :
    readPackets [0xAA, 0x10, 0x02, 0xAA, 0x01, 0x00, 0x54, 0x55, 0xAA, 0x01, 0x00, 0x54, 0x55] =
      [(0x01, 0x00, [])] :=
  (readPackets_eq_accepted (r := .init) rfl _).trans (by decide +kernel)

end JeogiAt.Communication
