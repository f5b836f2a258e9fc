import JeogiAt.UartResponse
import JeogiAt.Library.Machine
import Mathlib.Data.Rat.Floor
import Mathlib.Tactic.Linarith
import Mathlib.Tactic.NormNum

/-!
# Gas readings from the sensor to the motor

The firmware answers `CMD_GET_CO` and `CMD_GET_CO2` with the filtered reading times 100, converted
to a `uint16_t` and split into two bytes. The Pi puts the bytes together, divides by 100 and
chooses the motor speed. Readings are exact rationals here.

The conversion keeps `⌊100 v⌋` modulo 65536, and the CO₂ reading may be as large as 5000. So the
reading survives exactly below 655.36.
-/

namespace JeogiAt.Uart

def cmdRespSensor : UInt8 := 0x80

/-- `(uint16_t)x` of a nonnegative number. -/
def toUint16 (x : ℚ) : UInt16 := UInt16.ofNat ⌊x⌋.toNat

theorem toNat_toUint16 (x : ℚ) : (toUint16 x).toNat = ⌊x⌋.toNat % 65536 := by
  rw [toUint16, UInt16.toNat_ofNat']

def sendSensorResp (stack : Vector UInt8 (pktMaxDataLen + 6)) (cmd : UInt8) (data : List UInt8) :
    List UInt8 :=
  sendPacket stack cmdRespSensor (cmd :: data) (UInt8.ofNat (data.length + 1))

/-- The answer to a reading command, of which there are two. -/
def respondReading (stack : Vector UInt8 (pktMaxDataLen + 6)) (cmd : UInt8) (val : ℚ) :
    List UInt8 :=
  let send_val := toUint16 (val * 100)
  sendSensorResp stack cmdRespSensor [cmd, (send_val >>> 8 &&& 0xFF).toUInt8,
    (send_val &&& 0xFF).toUInt8]

/-- `UART_Handler_Process` on `CMD_GET_CO`, with the value that `MQ7_ReadCO` returned. -/
def processGetCo (stack : Vector UInt8 (pktMaxDataLen + 6)) (co_val : ℚ) : List UInt8 :=
  respondReading stack cmdGetCo co_val

/-- `UART_Handler_Process` on `CMD_GET_CO2`, with the value that `MQ135_ReadCO2` returned. -/
def processGetCo2 (stack : Vector UInt8 (pktMaxDataLen + 6)) (co2_val : ℚ) : List UInt8 :=
  respondReading stack cmdGetCo2 co2_val

theorem respondReading_eq_frame (stack : Vector UInt8 (pktMaxDataLen + 6)) (cmd : UInt8)
    (val : ℚ) : ∃ c : Command, respondReading stack cmd val = c.frame ∧ c.cmd = cmdRespSensor ∧
      c.data = [cmdRespSensor, cmd, (toUint16 (val * 100) >>> 8 &&& 0xFF).toUInt8,
        (toUint16 (val * 100) &&& 0xFF).toUInt8] := by
  let data := [cmdRespSensor, cmd, (toUint16 (val * 100) >>> 8 &&& 0xFF).toUInt8,
    (toUint16 (val * 100) &&& 0xFF).toUInt8]
  have hlen : data.length = 4 := rfl
  exact ⟨⟨cmdRespSensor, data, by omega⟩, sendPacket_short stack ⟨_, data, by omega⟩
    (by dsimp only; omega), rfl, rfl⟩

end JeogiAt.Uart

namespace JeogiAt.Communication

open Uart

/-- The reader that `send_to_stm32_get_co` and `send_to_stm32_get_co2` share, on the bytes that
arrive after the request: the value put into the out parameter, or `none` for `false`. -/
def readReading (cmd : UInt8) (uart_fd : ℤ) (input : List UInt8) : Option ℚ :=
  if uart_fd < 0 then none
  else
    let r := readPacket input
    let rx := r.out
    if r.ok ∧ 9 ≤ rx.length ∧ 4 ≤ rx.getD 2 0 ∧ rx.getD 4 0 = cmd then
      some ((((rx.getD 5 0).toNat <<< 8 ||| (rx.getD 6 0).toNat : ℕ) : ℚ) / 100)
    else none

def getCo (uart_fd : ℤ) (input : List UInt8) : Option ℚ := readReading cmdGetCo uart_fd input

def getCo2 (uart_fd : ℤ) (input : List UInt8) : Option ℚ := readReading cmdGetCo2 uart_fd input

def autoMotorControl (g_auto_mode : Bool) (co2 co : ℚ) : Option ℕ :=
  if ¬ g_auto_mode then none
  else if 600 < co2 ∨ 25 < co then some 100
  else if 400 < co2 ∨ 9 < co then some 60
  else some 0

theorem or_bytes (n : UInt16) :
    (n >>> 8 &&& 0xFF).toUInt8.toNat <<< 8 ||| (n &&& 0xFF).toUInt8.toNat = n.toNat := by
  have hlt := n.toNat_lt
  have hmask (k : ℕ) : k &&& 255 = k % 256 := Nat.and_two_pow_sub_one_eq_mod k 8
  have hhi : (n >>> 8 &&& 0xFF).toUInt8.toNat = n.toNat / 256 := by
    rw [UInt16.toNat_toUInt8, UInt16.toNat_and, UInt16.toNat_shiftRight]
    have : n.toNat >>> 8 = n.toNat / 256 := Nat.shiftRight_eq_div_pow _ _
    simp only [UInt16.reduceToNat, Nat.reduceMod, hmask, this]
    omega
  have hlo : (n &&& 0xFF).toUInt8.toNat = n.toNat % 256 := by
    rw [UInt16.toNat_toUInt8, UInt16.toNat_and]
    simp only [UInt16.reduceToNat, hmask]
    omega
  rw [hhi, hlo, ← Nat.shiftLeft_add_eq_or_of_lt (Nat.mod_lt _ (by omega)), Nat.shiftLeft_eq]
  omega

theorem readReading_respond (stack : Vector UInt8 (pktMaxDataLen + 6)) (cmd : UInt8) (val : ℚ)
    {uart_fd : ℤ} (hfd : 0 ≤ uart_fd) (rest : List UInt8) :
    readReading cmd uart_fd (respondReading stack cmd val ++ rest) =
      some (((⌊100 * val⌋.toNat % 65536 : ℕ) : ℚ) / 100) := by
  obtain ⟨c, hframe, hcmd, hdata⟩ := respondReading_eq_frame stack cmd val
  have hlen : c.len = 4 := by rw [Command.len, hdata]; rfl
  have hrx : c.frame = [pktStx, cmdRespSensor, 4, cmdRespSensor, cmd,
      (toUint16 (val * 100) >>> 8 &&& 0xFF).toUInt8, (toUint16 (val * 100) &&& 0xFF).toUInt8,
      c.crc, pktEtx] := by
    rw [Command.frame, Command.body, hcmd, hlen, hdata]
    rfl
  rw [readReading, if_neg (Int.not_lt.mpr hfd), hframe, readPacket_frame]
  dsimp only
  have hguard : 9 ≤ c.frame.length ∧ 4 ≤ c.frame.getD 2 0 ∧ c.frame.getD 4 0 = cmd := by
    rw [hrx]
    exact ⟨le_rfl, UInt8.le_refl 4, rfl⟩
  rw [if_pos ⟨rfl, hguard⟩, hrx, mul_comm, ← toNat_toUint16, ← or_bytes]
  rfl

theorem mod_eq_iff {val : ℚ} (h0 : 0 ≤ val) :
    ((⌊100 * val⌋.toNat % 65536 : ℕ) : ℚ) / 100 = ⌊100 * val⌋ / 100 ↔ val < 655.36 := by
  have hfloor : 0 ≤ ⌊100 * val⌋ := Int.floor_nonneg.mpr (by linarith)
  have hfits : ⌊100 * val⌋ < 65536 ↔ val < 655.36 := by
    rw [Int.floor_lt]
    constructor <;> intro h <;> push_cast at * <;> linarith
  rw [div_left_inj' (by norm_num), ← hfits]
  constructor
  · intro h
    have heq : ((⌊100 * val⌋.toNat % 65536 : ℕ) : ℤ) = ⌊100 * val⌋ := by
      rw [← Int.cast_inj (α := ℚ), Int.cast_natCast]
      exact h
    omega
  · intro h
    have heq : ((⌊100 * val⌋.toNat % 65536 : ℕ) : ℤ) = ⌊100 * val⌋ := by omega
    rw [← Int.cast_natCast, heq]

def Survives (stack stack' : Vector UInt8 (pktMaxDataLen + 6)) (uart_fd : ℤ)
    (rest rest' : List UInt8) (g_auto_mode : Bool) (co2 co : ℚ) : Prop :=
  ∃ out_co2 out_co, getCo2 uart_fd (processGetCo2 stack co2 ++ rest) = some out_co2 ∧
    getCo uart_fd (processGetCo stack' co ++ rest') = some out_co ∧
    out_co2 = ⌊100 * co2⌋ / 100 ∧ out_co = ⌊100 * co⌋ / 100 ∧
    autoMotorControl g_auto_mode out_co2 out_co =
      autoMotorControl g_auto_mode (⌊100 * co2⌋ / 100) (⌊100 * co⌋ / 100)

/-- Both readings come back as sent, cut to two decimals, and the motor gets the speed that they
call for, exactly when both are below 655.36 ppm. -/
theorem readings_survive_iff (stack stack' : Vector UInt8 (pktMaxDataLen + 6))
    {uart_fd : ℤ} (hfd : 0 ≤ uart_fd) (rest rest' : List UInt8) (g_auto_mode : Bool)
    {co2 co : ℚ} (hco2 : 0 ≤ co2 ∧ co2 ≤ 5000) (hco : 0 ≤ co ∧ co < 5000) :
    Survives stack stack' uart_fd rest rest' g_auto_mode co2 co ↔
      co2 < 655.36 ∧ co < 655.36 := by
  rw [Survives, getCo2, getCo, processGetCo2, processGetCo, readReading_respond stack _ _ hfd,
    readReading_respond stack' _ _ hfd]
  constructor
  · rintro ⟨out_co2, out_co, hout2, hout, hval2, hval, -⟩
    cases hout2
    cases hout
    exact ⟨(mod_eq_iff hco2.1).mp hval2, (mod_eq_iff hco.1).mp hval⟩
  · rintro ⟨hfits2, hfits⟩
    have hval2 := (mod_eq_iff hco2.1).mpr hfits2
    have hval := (mod_eq_iff hco.1).mpr hfits
    exact ⟨_, _, rfl, rfl, hval2, hval, by rw [hval2, hval]⟩

theorem readings_450_survive :
    (0 : ℤ) ≤ 3 ∧ ((450 : ℚ) < 655.36 ∧ (9.5 : ℚ) < 655.36) ∧
      Survives (Vector.replicate _ 0) (Vector.replicate _ 0) 3 [] [] true 450 9.5 := by
  have hfits : (450 : ℚ) < 655.36 ∧ (9.5 : ℚ) < 655.36 := by norm_num
  exact ⟨by omega, hfits, (readings_survive_iff _ _ (by omega) [] [] true (by norm_num)
    (by norm_num)).mpr hfits⟩

/-- A reading of 700 ppm of CO₂ arrives as 44.64 and stops the motor. -/
theorem reading_700_lost :
    ¬ ∀ (stack stack' : Vector UInt8 (pktMaxDataLen + 6)) (uart_fd : ℤ), 0 ≤ uart_fd →
      ∀ (rest rest' : List UInt8) (g_auto_mode : Bool) (co2 co : ℚ),
        0 ≤ co2 ∧ co2 ≤ 5000 → 0 ≤ co ∧ co < 5000 →
          Survives stack stack' uart_fd rest rest' g_auto_mode co2 co := by
  intro hall
  obtain ⟨out_co2, out_co, hout2, hout, -, -, hspeed⟩ := hall (Vector.replicate _ 0)
    (Vector.replicate _ 0) 3 (by omega) [] [] true 700 0 (by norm_num) (by norm_num)
  rw [getCo2, processGetCo2, readReading_respond _ _ _ (by omega), Option.some_inj] at hout2
  rw [getCo, processGetCo, readReading_respond _ _ _ (by omega), Option.some_inj] at hout
  have hfloor : ⌊(100 * 700 : ℚ)⌋ = 70000 := by norm_num
  have hwrap : Int.toNat 70000 % 65536 = 4464 := rfl
  have hco2 : out_co2 = 44.64 := by
    rw [← hout2, hfloor, hwrap]
    norm_num
  have hco : out_co = 0 := by
    rw [← hout]
    norm_num
  have hsent : autoMotorControl true (⌊(100 * 700 : ℚ)⌋ / 100) (⌊(100 * 0 : ℚ)⌋ / 100) =
      some 100 := by
    norm_num [autoMotorControl]
  rw [hsent, hco2, hco, autoMotorControl] at hspeed
  norm_num at hspeed

end JeogiAt.Communication
