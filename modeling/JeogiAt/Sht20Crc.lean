import JeogiAt.Library.Crc

/-!
# The checksum of a reading

`sht20_crc8` is the cyclic redundancy check of `X^8 + X^5 + X^4 + 1`, and `read_sht20_data` takes a reading only if it ends with its checksum. So
a reading in which a burst of up to eight bits has changed is rejected, and `*result` stays as it
was.
-/

namespace JeogiAt.Sht20

/-- A turn of the inner loop of `sht20_crc8` -/
def shiftCrc8 (crc : UInt8) : UInt8 :=
  if crc &&& 0x80 ≠ 0 then crc <<< 1 ^^^ 0x31 else crc <<< 1

def sht20Crc8 (data : List UInt8) (len : ℕ) : UInt8 :=
  (data.take len).foldl (fun crc b => shiftCrc8^[8] (crc ^^^ b)) 0

abbrev eio : ℤ := 5

/-- The I2C device. A receive tells its result and what is in the buffer then. -/
structure I2cClient where
  masterSend : List UInt8 → ℤ
  masterRecv : ℕ → ℤ × List UInt8

def readSht20Data (client : I2cClient) (cmd : UInt8) (result : UInt16) : ℤ × UInt16 :=
  let ret := client.masterSend [cmd]
  if ret < 0 then (ret, result)
  else
    let (ret, buf) := client.masterRecv 3
    if ret < 0 then (ret, result)
    else if sht20Crc8 buf 2 ≠ buf.getD 2 0 then (-eio, result)
    else (0, (buf.getD 0 0).toUInt16 <<< 8 ||| (buf.getD 1 0 &&& 0xFC).toUInt16)

theorem and_msb_ne_zero_iff (crc : UInt8) : crc &&& 0x80 ≠ 0 ↔ crc.toBitVec.msb = true := by
  have hand : (crc &&& 0x80).toBitVec = crc.toBitVec &&& BitVec.twoPow 8 7 := rfl
  rw [ne_eq, ← UInt8.toBitVec_inj, hand, BitVec.and_twoPow, BitVec.msb_eq_getLsbD_last]
  cases crc.toBitVec.getLsbD 7 <;> decide

theorem toBitVec_shiftCrc8 (crc : UInt8) :
    (shiftCrc8 crc).toBitVec = Crc.shift 0x31#8 crc.toBitVec := by
  rw [shiftCrc8, Crc.shift, apply_ite UInt8.toBitVec]
  exact if_congr (and_msb_ne_zero_iff crc) rfl rfl

theorem toBitVec_sht20Crc8 (data : List UInt8) (len : ℕ) :
    (sht20Crc8 data len).toBitVec =
      Crc.crc 0x31#8 ((data.take len).map UInt8.toBitVec) := by
  have hturns (crc b : UInt8) : (Crc.shift 0x31#8)^[8] (crc.toBitVec ^^^ b.toBitVec) =
      (shiftCrc8^[8] (crc ^^^ b)).toBitVec :=
    (Function.Semiconj.iterate_right toBitVec_shiftCrc8 8 (crc ^^^ b)).symm
  rw [sht20Crc8, Crc.crc, List.foldl_map]
  exact (List.foldl_hom UInt8.toBitVec hturns).symm

def frame (message : List UInt8) : List UInt8 := message ++ [sht20Crc8 message message.length]

def Matches (bytes : List UInt8) : Prop :=
  bytes.getLast? = some (sht20Crc8 bytes (bytes.length - 1))

/-- An error of `n` bytes within eight bits in a row, the most significant bit of a byte first. -/
structure BurstError (n : ℕ) where
  bytes : List UInt8
  length_bytes : bytes.length = n
  burst : Crc.Burst 8 (Crc.wordBits (bytes.map UInt8.toBitVec))

def BurstError.corrupt {n : ℕ} (error : BurstError n) (bytes : List UInt8) : List UInt8 :=
  List.zipWith (· ^^^ ·) bytes error.bytes

theorem sht20Crc8_concat (message : List UInt8) (check : UInt8) :
    sht20Crc8 (message ++ [check]) message.length = sht20Crc8 message message.length := by
  rw [sht20Crc8, List.take_left, sht20Crc8, List.take_length]

theorem matches_concat_iff (message : List UInt8) (check : UInt8) :
    Matches (message ++ [check]) ↔ check = sht20Crc8 message message.length := by
  have hlength : (message ++ [check]).length - 1 = message.length := by
    rw [List.length_append, List.length_singleton, Nat.add_sub_cancel]
  rw [Matches, hlength, List.getLast?_concat, Option.some_inj, sht20Crc8_concat]

theorem length_corrupt {n : ℕ} (error : BurstError n) {bytes : List UInt8}
    (h : bytes.length = n) : (error.corrupt bytes).length = n := by
  rw [BurstError.corrupt, List.length_zipWith, h, error.length_bytes, Nat.min_self]

theorem length_frame (message : List UInt8) : (frame message).length = message.length + 1 :=
  List.length_append

theorem map_corrupt {message received : List UInt8} {check : UInt8} {n : ℕ} {error : BurstError n}
    (h : error.corrupt (frame message) = received ++ [check]) :
    received.map UInt8.toBitVec ++ [check.toBitVec] =
      List.zipWith (· ^^^ ·)
        (message.map UInt8.toBitVec ++ [Crc.crc 0x31#8 (message.map UInt8.toBitVec)])
        (error.bytes.map UInt8.toBitVec) := by
  have hframe : (frame message).map UInt8.toBitVec =
      message.map UInt8.toBitVec ++ [Crc.crc 0x31#8 (message.map UInt8.toBitVec)] := by
    rw [frame, List.map_append, List.map_singleton, toBitVec_sht20Crc8, List.take_length]
  calc received.map UInt8.toBitVec ++ [check.toBitVec]
      = (error.corrupt (frame message)).map UInt8.toBitVec := by
        rw [h, List.map_append, List.map_singleton]
    _ = List.zipWith (· ^^^ ·) ((frame message).map UInt8.toBitVec)
          (error.bytes.map UInt8.toBitVec) := by
        rw [BurstError.corrupt, List.map_zipWith, List.zipWith_map]
        rfl
    _ = _ := by rw [hframe]

theorem not_matches_corrupt (message : List UInt8) (error : BurstError (message.length + 1)) :
    ¬ Matches (error.corrupt (frame message)) := by
  have hlength := length_corrupt error (length_frame message)
  rcases List.eq_nil_or_concat (error.corrupt (frame message)) with hnil | ⟨received, check, hsplit⟩
  · rw [hnil] at hlength
    cases hlength
  · rw [List.concat_eq_append] at hsplit
    rw [hsplit, matches_concat_iff]
    intro hcheck
    have hword := congrArg UInt8.toBitVec hcheck
    rw [toBitVec_sht20Crc8, List.take_length] at hword
    have herror : (error.bytes.map UInt8.toBitVec).length =
        (message.map UInt8.toBitVec).length + 1 := by
      rw [List.length_map, List.length_map, error.length_bytes]
    exact Crc.crc_ne_of_burst (by decide) herror error.burst (map_corrupt hsplit) hword

theorem matches_frame (message : List UInt8) : Matches (frame message) :=
  (matches_concat_iff message _).mpr rfl

theorem matches_iff {buf : List UInt8} (hlength : buf.length = 3) :
    Matches buf ↔ sht20Crc8 buf 2 = buf.getD 2 0 := by
  have hget := List.getElem?_eq_getElem (l := buf) (i := 2) (hlength ▸ Nat.lt_succ_self 2)
  have hlast : buf.getLast? = some (buf.getD 2 0) := by
    rw [List.getLast?_eq_getElem?, hlength, List.getD_eq_getElem?_getD, hget, Option.getD_some]
  rw [Matches, hlength, hlast, Option.some_inj, eq_comm]

theorem readSht20Data_of_not_matches {send : List UInt8 → ℤ} {ret : ℤ} {buf : List UInt8}
    (hlength : buf.length = 3) (h : ¬ Matches buf) (cmd : UInt8) (result : UInt16) :
    (readSht20Data ⟨send, fun _ => (ret, buf)⟩ cmd result).1 < 0 ∧
      (readSht20Data ⟨send, fun _ => (ret, buf)⟩ cmd result).2 = result := by
  have hcheck : sht20Crc8 buf 2 ≠ buf.getD 2 0 := mt (matches_iff hlength).mpr h
  rw [readSht20Data]
  dsimp only
  rw [if_pos hcheck]
  split_ifs with hsend hrecv
  · exact ⟨hsend, rfl⟩
  · exact ⟨hrecv, rfl⟩
  · exact ⟨neg_lt_zero.mpr (by decide : (0 : ℤ) < eio), rfl⟩

/-- A burst is noticed in a message of any length, and in a reading by `read_sht20_data`. -/
theorem burst_detected :
    (∀ (message : List UInt8) (error : BurstError (message.length + 1)),
      Matches (frame message) ∧ ¬ Matches (error.corrupt (frame message))) ∧
    ∀ (msb lsb : UInt8) (error : BurstError 3) (send : List UInt8 → ℤ) (ret : ℤ) (cmd : UInt8)
        (result : UInt16),
      let read := readSht20Data
        ⟨send, fun _ => (ret, error.corrupt (frame [msb, lsb]))⟩ cmd result
      read.1 < 0 ∧ read.2 = result := by
  constructor
  · intro message error
    exact ⟨matches_frame message, not_matches_corrupt message error⟩
  · intro msb lsb error send ret cmd result
    exact readSht20Data_of_not_matches (length_corrupt error (length_frame [msb, lsb]))
      (not_matches_corrupt [msb, lsb] error) cmd result

/-- From the last bit before the checksum to the last but one of it. -/
def acrossChecksum : BurstError 3 where
  bytes := [0, 0x01, 0x82]
  length_bytes := rfl
  burst := by
    have hbits : ∀ i < 24, (Crc.wordBits ([0, 0x01, 0x82].map UInt8.toBitVec))[i]? = some true →
        15 ≤ i ∧ i < 15 + 8 := by
      decide
    exact ⟨by decide, 15, fun i hi => hbits i (List.getElem?_eq_some_iff.mp hi).1 hi⟩

/-- The buffer keeps its value when such an error gets into a reading. -/
theorem burst_detected_acrossChecksum :
    ¬ Matches (acrossChecksum.corrupt (frame [0x68, 0x3A])) ∧
      (readSht20Data ⟨fun _ => 1, fun _ => (3, acrossChecksum.corrupt (frame [0x68, 0x3A]))⟩
        0xF3 7).2 = 7 :=
  ⟨(burst_detected.1 [0x68, 0x3A] acrossChecksum).2,
    (burst_detected.2 0x68 0x3A acrossChecksum (fun _ => 1) 3 0xF3 7).2⟩

end JeogiAt.Sht20
