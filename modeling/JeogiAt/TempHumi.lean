import JeogiAt.UartHandler
import Mathlib.Algebra.Order.Round

/-!
# Temperature and humidity from the kernel driver to the firmware

The driver prints hundredths as a whole part and two decimals, each from a C division that rounds
towards zero; the Pi parses the text, scales it and sends two bytes for each value; the firmware
divides by 100. Parsing, scaling and division are exact here.

A whole part of zero is printed without a sign. So a value between -1 and 0 arrives as its opposite.
-/

namespace JeogiAt.Sht20

open Decimal

/-- `"Temp: "`, `" C, Humi: "` and `" %\n"` -/
def tempText : List UInt8 := [0x54, 0x65, 0x6D, 0x70, 0x3A, 0x20]
def humiText : List UInt8 := [0x20, 0x43, 0x2C, 0x20, 0x48, 0x75, 0x6D, 0x69, 0x3A, 0x20]
def endText : List UInt8 := [0x20, 0x25, 0x0A]

/-- `%d.%02d`, of `x100 / 100` and `abs(x100 % 100)` -/
def printHundredths (x100 : ℤ) : List UInt8 :=
  decimalInt (x100.tdiv 100) ++ point :: padded 2 (x100.tmod 100).natAbs

/-- The text that `sht20_read` makes of its two values. -/
def sht20Text (temp_x100 humi_x100 : ℤ) : List UInt8 :=
  tempText ++ (printHundredths temp_x100 ++ (humiText ++ (printHundredths humi_x100 ++ endText)))

def parseSht20String (buf : List UInt8) : Option (ℚ × ℚ) := do
  let buf ← scanLiteral tempText buf
  let (temperature, buf) ← scanFloat buf
  let buf ← scanLiteral humiText buf
  let (humidity, _) ← scanFloat buf
  some (temperature, humidity)

/-- `round`, which takes a half away from zero. -/
def roundHalfAway (x : ℚ) : ℤ := if 0 ≤ x then ⌊x + 1 / 2⌋ else ⌈x - 1 / 2⌉

def sendTempHumi (uart_fd : ℤ) (temp humi : ℚ) : Option (List UInt8) :=
  Communication.sendToStm32TempHumi uart_fd (Int16.ofInt (roundHalfAway (temp * 100)))
    (Int16.ofInt (roundHalfAway (humi * 100)))

def monitor (uart_fd : ℤ) (buf : List UInt8) : Option (List UInt8) := do
  let (temperature, humidity) ← parseSht20String buf
  sendTempHumi uart_fd temperature humidity

def printed (x100 : ℤ) : ℤ := if -100 < x100 then x100.natAbs else x100

theorem tdiv_neg_iff (x100 : ℤ) : x100.tdiv 100 < 0 ↔ x100 ≤ -100 := by
  rcases le_or_gt 0 x100 with hpos | hneg
  · rw [Int.tdiv_eq_ediv_of_nonneg hpos]
    omega
  · have hopp : x100.tdiv 100 = -(-x100 / 100) := by
      rw [← Int.tdiv_eq_ediv_of_nonneg (by omega), Int.neg_tdiv, Int.neg_neg]
    rw [hopp]
    omega

/-- The digits are those of the absolute value, and the sign is that of the whole part. -/
theorem fixed_hundredths (x100 : ℤ) :
    fixed (x100.tdiv 100) (x100.tmod 100).natAbs = (printed x100 : ℚ) / 100 := by
  have hdigits : ((x100.tdiv 100).natAbs : ℚ) + ((x100.tmod 100).natAbs : ℚ) / 100 =
      (x100.natAbs : ℚ) / 100 := by
    have hsum : (x100.tdiv 100).natAbs * 100 + (x100.tmod 100).natAbs = x100.natAbs := by
      rw [Int.natAbs_tdiv, Int.natAbs_tmod]
      exact Nat.div_add_mod' _ 100
    rw [← hsum, Nat.cast_add, Nat.cast_mul, Nat.cast_ofNat]
    ring
  rw [fixed, hdigits, printed]
  by_cases hwhole : x100 ≤ -100
  · have hopp : (x100.natAbs : ℤ) = -x100 := by omega
    rw [if_pos ((tdiv_neg_iff x100).mpr hwhole), if_neg (by omega), ← Int.cast_natCast, hopp]
    push_cast
    ring
  · rw [if_neg (mt (tdiv_neg_iff x100).mp hwhole), if_pos (by omega), Int.cast_natCast]

theorem scanFloat_printHundredths (x100 : ℤ) {s : List UInt8} (hs : NoDigit s) :
    scanFloat (printHundredths x100 ++ s) = some ((printed x100 : ℚ) / 100, s) := by
  have hlt : (x100.tmod 100).natAbs < 100 := by
    rw [Int.natAbs_tmod]
    exact Nat.mod_lt _ (by decide)
  rw [printHundredths, List.append_assoc, List.cons_append, scanFloat_fixed _ hlt hs,
    fixed_hundredths]

theorem parse_text (temp_x100 humi_x100 : ℤ) :
    parseSht20String (sht20Text temp_x100 humi_x100) =
      some ((printed temp_x100 : ℚ) / 100, (printed humi_x100 : ℚ) / 100) := by
  have htemp (s : List UInt8) : scanLiteral tempText (tempText ++ s) = some (s.dropWhile isSpace) :=
    rfl
  have hhumi (s : List UInt8) : scanLiteral humiText (humiText ++ s) = some (s.dropWhile isSpace) :=
    rfl
  have hafter (s : List UInt8) : NoDigit (humiText ++ s) := by
    intro b hb
    cases hb
    rfl
  have hend : NoDigit endText := by
    intro b hb
    cases hb
    rfl
  simp only [parseSht20String, sht20Text, htemp, hhumi, Option.bind_eq_bind, Option.bind_some,
    scanFloat_dropWhile, scanFloat_printHundredths _ (hafter _), scanFloat_printHundredths _ hend]

theorem roundHalfAway_intCast (n : ℤ) : roundHalfAway n = n := by
  rw [roundHalfAway]
  split_ifs
  · rw [Int.floor_intCast_add]
    norm_num
  · rw [sub_eq_add_neg, Int.ceil_intCast_add]
    norm_num

theorem printed_mem (x100 : Int16) :
    -32768 ≤ printed x100.toInt ∧ printed x100.toInt < 32768 := by
  have hlo := x100.le_toInt
  have hhi := x100.toInt_lt
  rw [printed]
  split_ifs <;> omega

theorem monitor_text {uart_fd : ℤ} (temp_x100 humi_x100 : ℤ) :
    monitor uart_fd (sht20Text temp_x100 humi_x100) =
      Communication.sendToStm32TempHumi uart_fd (Int16.ofInt (printed temp_x100))
        (Int16.ofInt (printed humi_x100)) := by
  have hscaled (n : ℤ) : roundHalfAway ((n : ℚ) / 100 * 100) = n := by
    rw [div_mul_cancel₀ _ (by norm_num), roundHalfAway_intCast]
  simp only [monitor, parse_text, Option.bind_eq_bind, Option.bind_some, sendTempHumi, hscaled]

end JeogiAt.Sht20

namespace JeogiAt.Uart

open Audio Communication Sht20

theorem int16_bytes (n : Int16) :
    ((n >>> 8).toUInt16.toUInt8.toUInt16 <<< 8 ||| n.toUInt16.toUInt8.toUInt16).toInt16 = n := by
  have hbits (x : BitVec 16) :
      ((x.sshiftRight 8).setWidth 8).setWidth 16 <<< 8 ||| (x.setWidth 8).setWidth 16 = x := by
    apply BitVec.eq_of_getLsbD_eq
    intro i hi
    rw [BitVec.getLsbD_or, BitVec.getLsbD_shiftLeft]
    simp only [BitVec.getLsbD_setWidth, BitVec.getLsbD_sshiftRight]
    by_cases hlow : i < 8
    · simp [hlow, hi]
    · have hsum : 8 + (i - 8) = i := by omega
      have hhi : i - 8 < 8 ∧ i - 8 < 16 ∧ ¬ 16 ≤ i - 8 := by omega
      simp [hlow, hi, hsum, hhi]
  exact Int16.toBitVec.inj (hbits n.toBitVec)

theorem int16_of_payload {pkt : Packet} (i : Fin 255) {n : Int16}
    (hi : i.val + 1 < pkt.len.toNat)
    (hhi : pkt.payload[i.val]? = some (n >>> 8).toUInt16.toUInt8)
    (hlo : pkt.payload[i.val + 1]? = some n.toUInt16.toUInt8) : pkt.int16 i = n := by
  have hget := (pkt.getElem?_payload i.castSucc (Nat.lt_of_succ_lt hi)).symm.trans hhi
  have hget' := (pkt.getElem?_payload i.succ hi).symm.trans hlo
  rw [Packet.int16, Option.some.inj hget, Option.some.inj hget', int16_bytes]

/-- The driver's text is read on the Pi, what is sent arrives, and the firmware handles it. -/
def Device.afterReading {W : Type*} (E : Env W) (w : Surroundings) (uart_fd : ℤ) (d : Device W)
    (text : List UInt8) : Device W :=
  match monitor uart_fd text with
  | some bytes => d.deliver E w bytes
  | none => d

theorem deliver_tempHumi {W : Type*} (E : Env W) (w : Surroundings) {uart_fd : ℤ}
    (hfd : 0 ≤ uart_fd) {d : Device W} (hrx : d.rx.rxState = .waitStx) (temp_raw humi_raw : Int16) :
    ∃ bytes, sendToStm32TempHumi uart_fd temp_raw humi_raw = some bytes ∧
      (d.deliver E w bytes).board.g_db_data =
        d.board.g_db_data.setTempHumValues (temp_raw.toInt / 100) (humi_raw.toInt / 100) := by
  let c : Command := ⟨cmdGetTempHum, [(temp_raw >>> 8).toUInt16.toUInt8, temp_raw.toUInt16.toUInt8,
    (humi_raw >>> 8).toUInt16.toUInt8, humi_raw.toUInt16.toUInt8], Nat.le_of_ble_eq_true rfl⟩
  refine ⟨c.frame, ?_, ?_⟩
  · rw [sendToStm32TempHumi, if_neg (by omega)]
    exact congrArg some (pushed_eq_frame c)
  · obtain ⟨pkt, hpkt, hboard⟩ := deliver_frame E w hrx c
    have hcmd : pkt.cmd = cmdGetTempHum := congrArg Command.cmd hpkt
    have hpayload : pkt.payload = c.data := congrArg Command.data hpkt
    have hlen : pkt.len = 4 := by
      have hlength := pkt.length_payload
      rw [hpayload] at hlength
      exact UInt8.toNat_inj.mp hlength.symm
    have htemp : pkt.tempDeci = temp_raw :=
      int16_of_payload 0 (by rw [hlen]; decide) (by rw [hpayload]; rfl) (by rw [hpayload]; rfl)
    have hhumi : pkt.humDeci = humi_raw :=
      int16_of_payload 2 (by rw [hlen]; decide) (by rw [hpayload]; rfl) (by rw [hpayload]; rfl)
    rw [hboard, process_tempHum E w d.board hcmd, processTempHum, if_neg (not_not.mpr hlen), htemp,
      hhumi]

def HasReading (db : Display.DbData) (temp_x100 humi_x100 : ℤ) : Prop :=
  db.temp_val = temp_x100 / 100 ∧ db.hum_val = humi_x100 / 100

/-- Both values arrive as the driver had them exactly when neither of them is negative and above
-1. -/
theorem reading_carried_iff {W : Type*} (E : Env W) (w : Surroundings) {uart_fd : ℤ}
    (hfd : 0 ≤ uart_fd) {d : Device W} (hrx : d.rx.rxState = .waitStx)
    (temp_x100 humi_x100 : Int16) :
    HasReading (d.afterReading E w uart_fd
        (sht20Text temp_x100.toInt humi_x100.toInt)).board.g_db_data
        temp_x100.toInt humi_x100.toInt ↔
      ¬ (-100 < temp_x100.toInt ∧ temp_x100.toInt < 0) ∧
        ¬ (-100 < humi_x100.toInt ∧ humi_x100.toInt < 0) := by
  have hraw (x100 : Int16) : (Int16.ofInt (printed x100.toInt)).toInt = printed x100.toInt := by
    obtain ⟨hlo, hhi⟩ := printed_mem x100
    exact Int16.toInt_ofInt_of_le hlo hhi
  have hsame (x100 : ℤ) : ((printed x100 : ℚ) / 100 = x100 / 100) ↔ ¬ (-100 < x100 ∧ x100 < 0) := by
    rw [div_left_inj' (by norm_num), Int.cast_inj, printed]
    split_ifs <;> omega
  obtain ⟨bytes, hsent, hdb⟩ := deliver_tempHumi E w hfd hrx
    (Int16.ofInt (printed temp_x100.toInt)) (Int16.ofInt (printed humi_x100.toInt))
  rw [Device.afterReading, monitor_text, hsent]
  dsimp only
  rw [hdb, HasReading, Display.DbData.setTempHumValues, hraw, hraw, hsame, hsame]

theorem reading_carried_frost :
    (0 : ℤ) ≤ 3 ∧ (Device.start ()).rx.rxState = .waitStx ∧
      HasReading ((Device.start ()).afterReading noCard .bare 3
        (sht20Text (-234) 5678)).board.g_db_data (-234) 5678 := by
  have hfd : (0 : ℤ) ≤ 3 := by omega
  exact ⟨hfd, rfl,
    (reading_carried_iff noCard .bare hfd rfl (-234) 5678).mpr ⟨by decide, by decide⟩⟩

/-- Half a degree below zero arrives as half a degree above. -/
theorem half_degree_below_zero :
    ¬ ∀ (E : Env Unit) (w : Surroundings) (uart_fd : ℤ), 0 ≤ uart_fd →
      ∀ (d : Device Unit), d.rx.rxState = .waitStx → ∀ temp_x100 humi_x100 : Int16,
        HasReading (d.afterReading E w uart_fd
          (sht20Text temp_x100.toInt humi_x100.toInt)).board.g_db_data
          temp_x100.toInt humi_x100.toInt := by
  intro hall
  have hfd : (0 : ℤ) ≤ 3 := by omega
  have hcarried := (hall noCard .bare 3 hfd (Device.start ()) rfl (-50) 5000).1
  obtain ⟨bytes, hsent, hdb⟩ := deliver_tempHumi noCard .bare hfd
    (d := Device.start ()) rfl 50 5000
  have hprinted : monitor 3 (sht20Text (-50 : Int16).toInt (5000 : Int16).toInt) = some bytes := by
    rw [monitor_text, ← hsent]
    rfl
  rw [Device.afterReading, hprinted] at hcarried
  dsimp only at hcarried
  rw [hdb, Display.DbData.setTempHumValues] at hcarried
  have hvalues : (50 : Int16).toInt = 50 ∧ (-50 : Int16).toInt = -50 := ⟨rfl, rfl⟩
  rw [hvalues.1, hvalues.2] at hcarried
  norm_num at hcarried

end JeogiAt.Uart
