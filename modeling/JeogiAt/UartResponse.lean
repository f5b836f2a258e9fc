import JeogiAt.UartProtocol

/-!
# The firmware's responses and the Pi's frame reader

`sendPacket` is `SendPacket` of `uart_handler.c`. It fills a stack buffer of `PKT_MAX_DATA_LEN + 6`
bytes, but counts its index in a `uint8_t`. Up to 255 bytes this is the frame; a frame of 256 to
260 bytes wraps the index and at most four bytes are handed to the transmitter.

`readPacket` is `read_packet` of `communication.cpp` on the bytes that will arrive; running out of
them is its timeout.
-/

namespace JeogiAt.Uart

open Bytes

structure TxBuffer where
  buf : Vector UInt8 (pktMaxDataLen + 6)
  idx : UInt8

namespace TxBuffer

theorem toNat_lt_size (i : UInt8) : i.toNat < pktMaxDataLen + 6 :=
  (toNat_lt_pktMaxDataLen i).trans (Nat.lt_add_of_pos_right (by decide))

/-- `buf[idx++] = byte` -/
def push (t : TxBuffer) (byte : UInt8) : TxBuffer :=
  ⟨t.buf.set t.idx.toNat byte (toNat_lt_size t.idx), t.idx + 1⟩

/-- What `HAL_UART_Transmit(uart, buf, idx, 100)` is handed. -/
def transmitted (t : TxBuffer) : List UInt8 := t.buf.toList.take t.idx.toNat

theorem length_transmitted (t : TxBuffer) : t.transmitted.length = t.idx.toNat := by
  have := toNat_lt_size t.idx
  rw [transmitted, List.length_take, Vector.length_toList]
  omega

theorem transmitted_push (t : TxBuffer) (byte : UInt8) (h : t.idx.toNat < 255) :
    (t.push byte).transmitted = t.transmitted ++ [byte] := by
  have hidx : (t.idx + 1).toNat = t.idx.toNat + 1 := by
    rw [UInt8.toNat_add, UInt8.toNat_one]
    omega
  have hlt : t.idx.toNat < (t.buf.toList.set t.idx.toNat byte).length := by
    rw [List.length_set, Vector.length_toList]
    exact toNat_lt_size t.idx
  rw [transmitted, push, hidx, Vector.toList_set, List.take_succ_eq_append_getElem hlt,
    List.take_set_of_le le_rfl, List.getElem_set_self, transmitted]

theorem idx_pushes (t : TxBuffer) (bytes : List UInt8) :
    (bytes.foldl push t).idx.toNat = (t.idx.toNat + bytes.length) % 256 := by
  induction bytes generalizing t with
  | nil =>
    have := t.idx.toNat_lt
    rw [List.foldl_nil, List.length_nil, Nat.add_zero, Nat.mod_eq_of_lt this]
  | cons b bytes ih =>
    rw [List.foldl_cons, ih, push, UInt8.toNat_add, UInt8.toNat_one, List.length_cons]
    omega

/-- As long as the index does not wrap the buffer holds the bytes pushed. -/
theorem transmitted_pushes (t : TxBuffer) (bytes : List UInt8)
    (h : t.idx.toNat + bytes.length ≤ 255) :
    (bytes.foldl push t).transmitted = t.transmitted ++ bytes := by
  induction bytes generalizing t with
  | nil => rw [List.foldl_nil, List.append_nil]
  | cons b bytes ih =>
    rw [List.length_cons] at h
    have hidx : (t.push b).idx.toNat = t.idx.toNat + 1 := by
      rw [push, UInt8.toNat_add, UInt8.toNat_one]
      omega
    rw [List.foldl_cons, ih _ (by rw [hidx]; omega), transmitted_push t b (by omega),
      List.append_assoc, List.singleton_append]

theorem take_push_last {t : TxBuffer} (h : t.idx.toNat = 255) (byte : UInt8) :
    (t.push byte).buf.toList.take 256 = t.transmitted ++ [byte] := by
  have hsize : 255 < (t.buf.toList.set 255 byte).length := by
    rw [List.length_set, Vector.length_toList]
    exact Nat.lt_add_right 6 (toNat_lt_pktMaxDataLen 255)
  have hset : (t.push byte).buf.toList = t.buf.toList.set 255 byte := by
    rw [push, Vector.toList_set, h]
  rw [hset, List.take_succ_eq_append_getElem hsize, List.take_set_of_le le_rfl,
    List.getElem_set_self, transmitted, h]

/-- Once the index has been everywhere, what was in the buffer before does not matter. -/
def SameBytes (t t' : TxBuffer) : Prop :=
  t.idx = t'.idx ∧ (t.transmitted = t'.transmitted ∨ t.buf.toList.take 256 = t'.buf.toList.take 256)

theorem sameBytes_push {t t' : TxBuffer} (h : SameBytes t t') (byte : UInt8) :
    SameBytes (t.push byte) (t'.push byte) := by
  obtain ⟨hidx, hbytes⟩ := h
  refine ⟨congrArg (· + 1) hidx, ?_⟩
  rcases hbytes with htrans | hall
  · by_cases hlt : t.idx.toNat < 255
    · have hlt' : t'.idx.toNat < 255 := hidx ▸ hlt
      exact .inl (by rw [transmitted_push t byte hlt, transmitted_push t' byte hlt', htrans])
    · have hmax : t.idx.toNat = 255 := by
        have := t.idx.toNat_lt
        omega
      have hmax' : t'.idx.toNat = 255 := hidx ▸ hmax
      exact .inr (by rw [take_push_last hmax, take_push_last hmax', htrans])
  · exact .inr (by rw [push, push, Vector.toList_set, Vector.toList_set, List.take_set,
      List.take_set, hall, hidx])

theorem sameBytes_pushes {t t' : TxBuffer} (h : SameBytes t t') (bytes : List UInt8) :
    SameBytes (bytes.foldl push t) (bytes.foldl push t') := by
  induction bytes generalizing t t' with
  | nil => exact h
  | cons b bytes ih => exact ih (sameBytes_push h b)

theorem SameBytes.transmitted_eq {t t' : TxBuffer} (h : SameBytes t t') :
    t.transmitted = t'.transmitted := by
  obtain ⟨hidx, htrans | hall⟩ := h
  · exact htrans
  · have hle : min t.idx.toNat 256 = t.idx.toNat := Nat.min_eq_left (toNat_lt_pktMaxDataLen _).le
    have hcut := congrArg (List.take t.idx.toNat) hall
    rw [List.take_take, List.take_take, hle] at hcut
    rw [transmitted, transmitted, ← hidx, hcut]

end TxBuffer

/-- `SendPacket`: the bytes handed to the transmitter, over any stack contents. -/
def sendPacket (stack : Vector UInt8 (pktMaxDataLen + 6)) (cmd : UInt8) (data : List UInt8)
    (len : UInt8) : List UInt8 :=
  let t := (((TxBuffer.mk stack 0).push pktStx).push cmd).push len
  let t := (data.take len.toNat).foldl TxBuffer.push t
  let crc := xorFold (cmd ^^^ len ^^^ pktEtx) (data.take len.toNat)
  ((t.push crc).push pktEtx).transmitted

theorem sendPacket_eq_pushes (stack : Vector UInt8 (pktMaxDataLen + 6)) (c : Command) :
    sendPacket stack c.cmd c.data c.len =
      (c.frame.foldl TxBuffer.push ⟨stack, 0⟩).transmitted := by
  have hdata : c.data.take c.len.toNat = c.data := by rw [c.toNat_len, List.take_length]
  simp only [sendPacket, hdata, xorFold_xor, Command.frame, Command.body, Command.crc,
    List.foldl_cons, List.foldl_append, List.foldl_nil]

theorem sendPacket_stack (stack stack' : Vector UInt8 (pktMaxDataLen + 6)) (cmd : UInt8)
    (data : List UInt8) (len : UInt8) :
    sendPacket stack cmd data len = sendPacket stack' cmd data len := by
  have hstart : TxBuffer.SameBytes ⟨stack, 0⟩ ⟨stack', 0⟩ := ⟨rfl, .inl rfl⟩
  have hdata := TxBuffer.sameBytes_pushes (TxBuffer.sameBytes_pushes hstart [pktStx, cmd, len])
    (data.take len.toNat)
  exact (TxBuffer.sameBytes_pushes hdata [_, pktEtx]).transmitted_eq

theorem sendPacket_take (stack : Vector UInt8 (pktMaxDataLen + 6)) (cmd : UInt8)
    (data : List UInt8) (len : UInt8) :
    sendPacket stack cmd data len = sendPacket stack cmd (data.take len.toNat) len := by
  simp only [sendPacket, List.take_take, Nat.min_self]

theorem sendPacket_short (stack : Vector UInt8 (pktMaxDataLen + 6)) (c : Command)
    (h : c.data.length ≤ 250) : sendPacket stack c.cmd c.data c.len = c.frame := by
  have hzero : (TxBuffer.mk stack 0).transmitted = [] := rfl
  rw [sendPacket_eq_pushes, TxBuffer.transmitted_pushes, hzero, List.nil_append]
  rw [c.length_frame]
  exact (Nat.zero_add _).trans_le (by omega)

theorem length_sendPacket_long (stack : Vector UInt8 (pktMaxDataLen + 6)) (c : Command)
    (h : 251 ≤ c.data.length) : (sendPacket stack c.cmd c.data c.len).length ≤ 4 := by
  have hle := c.length_le
  have hzero : (0 : UInt8).toNat = 0 := rfl
  rw [sendPacket_eq_pushes, TxBuffer.length_transmitted, TxBuffer.idx_pushes, c.length_frame,
    hzero]
  omega

end JeogiAt.Uart

namespace JeogiAt.Communication

open Uart

/-- The result of one `read_packet` call: its return value, `out`, and the bytes not yet read. -/
structure ReadResult where
  ok : Bool
  out : List UInt8
  rest : List UInt8

/-- The loop that looks for STX; `none` when the bytes run out. -/
def findStx : List UInt8 → Option (List UInt8)
  | [] => none
  | b :: rest => if b = pktStx then some rest else findStx rest

/-- `read_packet`. When the bytes run out every one of them has been read. -/
def readPacket (input : List UInt8) : ReadResult :=
  match findStx input with
  | some (cmd :: len :: input) =>
      match input.drop len.toNat with
      | crc_rx :: etx :: rest =>
          let data := input.take len.toNat
          if etx ≠ pktEtx then ⟨false, [], rest⟩
          else if crc_rx ≠ calcCrc cmd len data then ⟨false, [], rest⟩
          else ⟨true, [pktStx, cmd, len] ++ data ++ [crc_rx, pktEtx], rest⟩
      | _ => ⟨false, [], []⟩
  | _ => ⟨false, [], []⟩

/-- A frame at the front of the input is read as it is. -/
theorem readPacket_frame (c : Command) (rest : List UInt8) :
    readPacket (c.frame ++ rest) = ⟨true, c.frame, rest⟩ := by
  have hfind : findStx (c.frame ++ rest) =
      some (c.cmd :: c.len :: (c.data ++ c.crc :: pktEtx :: rest)) := by
    simp [Command.frame, Command.body, findStx]
  simp only [readPacket, hfind, c.toNat_len, List.drop_left, List.take_left, calcCrc_eq_crc,
    ne_eq, not_true_eq_false, if_false]
  simp [Command.frame, Command.body]

theorem length_findStx {input rest : List UInt8} (h : findStx input = some rest) :
    rest.length < input.length := by
  induction input with
  | nil => cases h
  | cons b input ih =>
    rw [findStx] at h
    split_ifs at h with hb
    · cases h
      exact Nat.lt_succ_self _
    · exact (ih h).trans (Nat.lt_succ_self _)

/-- The packet is read from the input, so its data and what is left fit in there. -/
theorem length_packet_lt {input tail rest : List UInt8} {cmd len crc_rx etx : UInt8}
    (hfind : findStx input = some (cmd :: len :: tail))
    (hdrop : tail.drop len.toNat = crc_rx :: etx :: rest) :
    len.toNat + rest.length + 4 < input.length := by
  have hlen := length_findStx hfind
  have hrest := congrArg List.length hdrop
  simp only [List.length_cons, List.length_drop] at hlen hrest
  omega

theorem findStx_junk {junk : List UInt8} (h : pktStx ∉ junk) (input : List UInt8) :
    findStx (junk ++ input) = findStx input := by
  induction junk with
  | nil => rfl
  | cons b junk ih =>
    rw [List.mem_cons, not_or] at h
    rw [List.cons_append, findStx, if_neg (Ne.symm h.1), ih h.2]

theorem readPacket_junk {junk : List UInt8} (h : pktStx ∉ junk) (input : List UInt8) :
    readPacket (junk ++ input) = readPacket input := by
  rw [readPacket, findStx_junk h]
  rfl

theorem exists_of_findStx {input rest : List UInt8} (h : findStx input = some rest) :
    ∃ junk, pktStx ∉ junk ∧ input = junk ++ pktStx :: rest := by
  induction input with
  | nil => cases h
  | cons b input ih =>
    rw [findStx] at h
    split_ifs at h with hb
    · cases h
      exact ⟨[], List.not_mem_nil, by rw [hb, List.nil_append]⟩
    · obtain ⟨junk, hjunk, rfl⟩ := ih h
      refine ⟨b :: junk, ?_, rfl⟩
      rw [List.mem_cons, not_or]
      exact ⟨Ne.symm hb, hjunk⟩

theorem exists_of_readPacket {input : List UInt8} (h : (readPacket input).ok = true) :
    ∃ junk, pktStx ∉ junk ∧ input = junk ++ (readPacket input).out ++ (readPacket input).rest ∧
      5 ≤ (readPacket input).out.length := by
  cases hfind : findStx input with
  | none => simp [readPacket, hfind] at h
  | some tail =>
    obtain ⟨junk, hjunk, hinput⟩ := exists_of_findStx hfind
    refine ⟨junk, hjunk, ?_⟩
    match tail with
    | [] => simp [readPacket, hfind] at h
    | [_] => simp [readPacket, hfind] at h
    | cmd :: len :: tail =>
      cases hdrop : tail.drop len.toNat with
      | nil => simp [readPacket, hfind, hdrop] at h
      | cons crc_rx after =>
        cases after with
        | nil => simp [readPacket, hfind, hdrop] at h
        | cons etx rest =>
          have htail : tail = tail.take len.toNat ++ crc_rx :: etx :: rest := by
            rw [← hdrop, List.take_append_drop]
          simp only [readPacket, hfind, hdrop] at h ⊢
          split_ifs at h ⊢ with hetx hcrc
          rw [not_not.mp hetx] at htail
          constructor
          · rw [hinput]
            simpa only [List.append_assoc, List.cons_append, List.nil_append,
              List.append_cancel_left_eq, List.cons.injEq, true_and] using htail
          · simp only [List.length_append, List.length_cons, List.length_nil]
            omega

theorem length_out_le (input : List UInt8) : (readPacket input).out.length ≤ input.length := by
  unfold readPacket
  split
  · rename_i cmd len tail hfind
    split
    · rename_i crc_rx etx rest hdrop
      have hlt := length_packet_lt hfind hdrop
      dsimp only
      split_ifs
      · exact Nat.zero_le _
      · exact Nat.zero_le _
      · simp only [List.length_append, List.length_cons, List.length_take, List.length_nil]
        omega
    · exact Nat.zero_le _
  · exact Nat.zero_le _

/-- A wrapped index hands over too few bytes for the frame to be read from them. -/
theorem not_read_of_long (stack : Vector UInt8 (pktMaxDataLen + 6)) (c : Command)
    (h : 251 ≤ c.data.length) :
    (readPacket (sendPacket stack c.cmd c.data c.len)).out ≠ c.frame := by
  intro hout
  have hread := length_out_le (sendPacket stack c.cmd c.data c.len)
  have hsent := length_sendPacket_long stack c h
  rw [hout, c.length_frame] at hread
  omega

/-- A response arrives as its frame exactly when its data has at most 250 bytes. -/
theorem response_read_iff (stack : Vector UInt8 (pktMaxDataLen + 6)) (c : Command) :
    ((readPacket (sendPacket stack c.cmd c.data c.len)).ok = true ∧
        (readPacket (sendPacket stack c.cmd c.data c.len)).out = c.frame) ↔
      c.data.length ≤ 250 := by
  constructor
  · rintro ⟨-, hout⟩
    by_contra hlong
    exact not_read_of_long stack c (by omega) hout
  · intro h
    have hread := readPacket_frame c []
    rw [List.append_nil] at hread
    rw [sendPacket_short stack c h, hread]
    exact ⟨rfl, rfl⟩

/-- A list of WAV files of 251 bytes, one of those `sd_read_files` lets through, is lost. -/
theorem response_251_not_read :
    ¬ ∀ (stack : Vector UInt8 (pktMaxDataLen + 6)) (c : Command),
      (readPacket (sendPacket stack c.cmd c.data c.len)).ok = true ∧
        (readPacket (sendPacket stack c.cmd c.data c.len)).out = c.frame := by
  intro hall
  have hlen : (List.replicate 251 (0x41 : UInt8)).length = 251 := List.length_replicate
  exact not_read_of_long (Vector.replicate _ 0) ⟨cmdRespWavs, List.replicate 251 0x41, by omega⟩
    hlen.ge (hall _ _).2

end JeogiAt.Communication
