import JeogiAt.GasReadings
import JeogiAt.Library.Smoothing
import Mathlib.Analysis.SpecialFunctions.Pow.Real

/-!
# The filters of the gas sensors

`MQ7_ReadCO` and `MQ135_ReadCO2` convert an averaged sample and smooth the result. A division by
zero and zero to a negative power are undefined here, `none`, and so is what is computed from them.
Each conversion takes the voltage apart from zero. That of `mq135.c` also keeps the resistance apart
from zero, at the other end; that of `mq7.c` does not, and a full-scale sample leaves the CO filter
without a value for good.
-/

namespace JeogiAt.Uart

open Smoothing

/-- A power function that is undefined, of the negative powers, at zero. -/
structure Power (K : Type*) [Zero K] [LE K] [LT K] where
  pow : K → K → Option K
  eq_none_iff : ∀ {x p : K}, 0 ≤ x → p < 0 → (pow x p = none ↔ x = 0)

section

variable {K : Type*} [Field K] [LinearOrder K]

def divide (x y : K) : Option K := if y = 0 then none else some (x / y)

variable (P : Power K)

def adcToCo (adc_val : ℕ) : Option K :=
  let voltage : K := adc_val / 4095 * 3.3
  if voltage = 0 then some 0
  else
    (divide (3.3 - voltage) voltage).bind fun quotient =>
      let rs : K := quotient * 10
      (divide rs 15).bind fun ratio => (P.pow ratio (-1.458)).map fun pow => 98.322 * pow

/-- `ADC_to_CO2`, with its operations checked. -/
def checkedCo2 (adc_val : ℕ) : Option K :=
  let adc_voltage : K := adc_val / 4095 * 3.3
  let sensor_voltage : K := adc_voltage * 2
  if sensor_voltage ≤ 0.01 then some 0
  else
    let sensor_voltage : K := if 5 - 0.01 ≤ sensor_voltage then 5 - 0.01 else sensor_voltage
    (divide (5 - sensor_voltage) sensor_voltage).bind fun quotient =>
      let rs : K := quotient * 10
      let rs : K := if rs ≤ 0.01 then 0.01 else rs
      (divide rs 20).bind fun ratio =>
        let ratio : K := if ratio ≤ 0.001 then 0.001 else ratio
        (P.pow ratio (-2.769034857)).map fun pow =>
          let co2_model : K := 116.6020682 * pow
          let co2 : K := if co2_model < 100 then sensor_voltage * 1200 else co2_model
          let co2 : K := co2 * 5 + 0
          if co2 < 0 then 0
          else if 5000 < co2 then 5000 else co2

/-- A call of `MQ7_ReadCO` or `MQ135_ReadCO2`, with the averaged sample and the filter
coefficient. -/
inductive GasCall (K : Type*)
  | readCO (adc_value_co : ℕ) (alpha : K)
  | readCO2 (adc_value_co2 : ℕ) (alpha : K)

structure GasFilters (K : Type*) where
  co : Ema K
  co2 : Ema K

namespace GasFilters

def init : GasFilters K := ⟨Ema.init, Ema.init⟩

def step (s : GasFilters K) : GasCall K → GasFilters K × Option K
  | .readCO adc alpha =>
      let co := s.co.update alpha (adcToCo P adc)
      ({ s with co }, co.value)
  | .readCO2 adc alpha =>
      let co2 := s.co2.update alpha (checkedCo2 P adc)
      ({ s with co2 }, co2.value)

end GasFilters

def gasFilters : Machine (GasFilters K) (GasCall K) (Option K) := ⟨GasFilters.step P⟩

def coReading : GasCall K → Option K
  | .readCO adc _ => adcToCo P adc
  | .readCO2 _ _ => none

def co2Reading : GasCall K → Option K
  | .readCO _ _ => none
  | .readCO2 adc _ => checkedCo2 P adc

/-- After the calls before it, a call computes a value. That of CO is between the least and the
greatest converted sample so far, that of CO₂ between 0 and 5000. -/
def Finite (earlier : List (GasCall K)) (call : GasCall K) : Prop :=
  ∃ v, (gasFilters P).output ((gasFilters P).run GasFilters.init earlier) call = some v ∧
    match call with
    | .readCO _ _ => Spanned ((earlier ++ [call]).filterMap (coReading P)) v
    | .readCO2 _ _ => 0 ≤ v ∧ v ≤ 5000

def GasCall.Valid : GasCall K → Prop
  | .readCO adc alpha => adc ≤ 4095 ∧ 0 ≤ alpha ∧ alpha ≤ 1
  | .readCO2 adc alpha => adc ≤ 4095 ∧ 0 ≤ alpha ∧ alpha ≤ 1

def GasCall.FullScale : GasCall K → Prop
  | .readCO adc _ => adc = 4095
  | .readCO2 _ _ => False

variable {P}

theorem divide_of_pos {x y : K} (h : 0 < y) : divide x y = some (x / y) := if_neg h.ne'

theorem Power.exists_of_pos {x p : K} (hx : 0 < x) (hp : p < 0) : ∃ y, P.pow x p = some y :=
  Option.ne_none_iff_exists'.mp fun h => hx.ne' ((P.eq_none_iff hx.le hp).mp h)

theorem limited_pos {low : K} (h : 0 < low) (x : K) : 0 < if x ≤ low then low else x := by
  split_ifs with hle
  · exact h
  · exact h.trans (not_le.mp hle)

variable [IsStrictOrderedRing K]

theorem ratio_eq_zero_iff {voltage : K} (h : 0 < voltage) :
    (3.3 - voltage) / voltage * 10 / 15 = 0 ↔ voltage = 3.3 := by
  constructor
  · intro hzero
    have hquotient : (3.3 - voltage) / voltage = 0 := by linarith
    rcases div_eq_zero_iff.mp hquotient with hsub | hden
    · exact (sub_eq_zero.mp hsub).symm
    · exact absurd hden h.ne'
  · rintro rfl
    rw [sub_self, zero_div, zero_mul, zero_div]

theorem adcToCo_eq_none_iff {adc : ℕ} (h : adc ≤ 4095) : adcToCo P adc = none ↔ adc = 4095 := by
  have hle : (adc : K) ≤ 4095 := by exact_mod_cast h
  have hfull : (adc : K) / 4095 * 3.3 = 3.3 ↔ adc = 4095 := by
    have hcast : (adc : K) = 4095 ↔ adc = 4095 := by exact_mod_cast Iff.rfl
    rw [← hcast]
    constructor
    · intro heq
      linarith
    · intro heq
      rw [heq]
      norm_num
  rw [adcToCo]
  dsimp only
  by_cases hzero : (adc : K) / 4095 * 3.3 = 0
  · rw [if_pos hzero, ← hfull, hzero]
    exact iff_of_false (Option.some_ne_none _) (by norm_num)
  · have hpos : (0 : K) < adc / 4095 * 3.3 := lt_of_le_of_ne (by positivity) (Ne.symm hzero)
    have hratio : 0 ≤ (3.3 - (adc : K) / 4095 * 3.3) / (adc / 4095 * 3.3) * 10 / 15 := by
      have : (0 : K) ≤ 3.3 - adc / 4095 * 3.3 := by linarith
      positivity
    rw [if_neg hzero, divide_of_pos hpos, Option.bind_some, divide_of_pos (by norm_num),
      Option.bind_some, Option.map_eq_none_iff, P.eq_none_iff hratio (by norm_num),
      ratio_eq_zero_iff hpos, hfull]

theorem sensorVoltage_pos {voltage : K} (h : ¬ voltage ≤ 0.01) :
    0 < if 5 - 0.01 ≤ voltage then 5 - 0.01 else voltage := by
  split_ifs
  · norm_num
  · exact lt_trans (by norm_num) (not_le.mp h)

theorem checkedCo2_mem (P : Power K) (adc : ℕ) :
    ∃ v, checkedCo2 P adc = some v ∧ 0 ≤ v ∧ v ≤ 5000 := by
  rw [checkedCo2]
  dsimp only
  by_cases hlow : (adc : K) / 4095 * 3.3 * 2 ≤ 0.01
  · exact ⟨0, if_pos hlow, le_rfl, by norm_num⟩
  · rw [if_neg hlow]
    rw [divide_of_pos (sensorVoltage_pos hlow), Option.bind_some, divide_of_pos (by norm_num),
      Option.bind_some]
    obtain ⟨pow, hpow⟩ := P.exists_of_pos (limited_pos (show (0 : K) < 0.001 by norm_num) _)
      (show (-2.769034857 : K) < 0 by norm_num)
    rw [hpow, Option.map_some]
    refine ⟨_, rfl, ?_⟩
    split_ifs with hneg hclamp <;> constructor <;> linarith

structure Filtered (P : Power K) (earlier : List (GasCall K)) (s : GasFilters K) : Prop where
  co : s.co.Follows (earlier.filterMap (coReading P))
  co2 : s.co2.Follows (earlier.filterMap (co2Reading P))

theorem co2Readings_mem (P : Power K) (calls : List (GasCall K)) :
    ∀ v ∈ calls.filterMap (co2Reading P), 0 ≤ v ∧ v ≤ 5000 := by
  intro v hv
  obtain ⟨call, -, hcall⟩ := List.mem_filterMap.mp hv
  cases call with
  | readCO adc alpha => exact absurd hcall (Option.not_mem_none v)
  | readCO2 adc alpha =>
    obtain ⟨v', hsome, hrange⟩ := checkedCo2_mem P adc
    cases hsome.symm.trans hcall
    exact hrange

theorem filterMap_concat_some {α β : Type*} {f : α → Option β} {l : List α} {a : α} {b : β}
    (h : f a = some b) : (l ++ [a]).filterMap f = l.filterMap f ++ [b] := by
  rw [List.filterMap_append, List.filterMap_cons_some h, List.filterMap_nil]

theorem filterMap_concat_none {α β : Type*} {f : α → Option β} {l : List α} {a : α}
    (h : f a = none) : (l ++ [a]).filterMap f = l.filterMap f := by
  rw [List.filterMap_append, List.filterMap_cons_none h, List.filterMap_nil, List.append_nil]

/-- A call that is not at full scale computes a value and keeps the filters in step. -/
theorem Filtered.step {earlier : List (GasCall K)}
    (h : Filtered P earlier ((gasFilters P).run GasFilters.init earlier)) {call : GasCall K}
    (hvalid : call.Valid) (hscale : ¬ call.FullScale) :
    Finite P earlier call ∧
      Filtered P (earlier ++ [call]) ((gasFilters P).run GasFilters.init (earlier ++ [call])) := by
  rw [Machine.run_concat, Finite]
  generalize (gasFilters P).run GasFilters.init earlier = s at h ⊢
  cases call with
  | readCO adc alpha =>
    obtain ⟨hadc, h0, h1⟩ := hvalid
    have hdefined : adcToCo P adc ≠ none := mt (adcToCo_eq_none_iff hadc).mp hscale
    obtain ⟨c, hc⟩ := Option.ne_none_iff_exists'.mp hdefined
    have hreading : coReading P (.readCO adc alpha) = some c := hc
    obtain ⟨v, hv, hspan⟩ := h.co.update (c := c) h0 h1
    rw [← hc] at hv
    rw [filterMap_concat_some hreading]
    refine ⟨⟨v, hv, hspan⟩, ?_, ?_⟩
    · rw [filterMap_concat_some hreading]
      exact .inr ⟨v, hv, hspan⟩
    · rw [filterMap_concat_none rfl]
      exact h.co2
  | readCO2 adc alpha =>
    obtain ⟨-, h0, h1⟩ := hvalid
    obtain ⟨c, hc, -⟩ := checkedCo2_mem P adc
    have hreading : co2Reading P (.readCO2 adc alpha) = some c := hc
    obtain ⟨v, hv, hspan⟩ := h.co2.update (c := c) h0 h1
    rw [← hc] at hv
    have hall := co2Readings_mem P (earlier ++ [.readCO2 adc alpha])
    rw [filterMap_concat_some hreading] at hall
    refine ⟨⟨v, hv, hspan.mem_Icc hall⟩, ?_, ?_⟩
    · rw [filterMap_concat_none rfl]
      exact h.co
    · rw [filterMap_concat_some hreading]
      exact .inr ⟨v, hv, hspan⟩

theorem filtered_run {calls : List (GasCall K)} (hvalid : ∀ call ∈ calls, call.Valid)
    (hscale : ∀ call ∈ calls, ¬ call.FullScale) :
    Throughout (Finite P) calls ∧
      Filtered P calls ((gasFilters P).run GasFilters.init calls) := by
  induction calls using List.reverseRecOn with
  | nil => exact ⟨throughout_nil, .inl rfl, .inl rfl⟩
  | append_singleton calls call ih =>
    rw [List.forall_mem_append, List.forall_mem_singleton] at hvalid hscale
    obtain ⟨hrun, hfiltered⟩ := ih hvalid.1 hscale.1
    obtain ⟨hfinite, hnext⟩ := hfiltered.step hvalid.2 hscale.2
    exact ⟨throughout_concat.mpr ⟨hrun, hfinite⟩, hnext⟩

theorem output_fullScale {call : GasCall K} (hscale : call.FullScale) (s : GasFilters K) :
    (gasFilters P).output s call = none := by
  cases call with
  | readCO adc alpha =>
    cases hscale
    have hnone : adcToCo P 4095 = none := (adcToCo_eq_none_iff le_rfl).mpr rfl
    show (s.co.update alpha (adcToCo P 4095)).value = none
    rw [hnone, Ema.update_none]
  | readCO2 adc alpha => exact hscale.elim

/-- The filters work in every run without a CO sample at full scale, and in no other. -/
theorem finite_iff_of_power (P : Power K) {calls : List (GasCall K)}
    (hvalid : ∀ call ∈ calls, call.Valid) :
    Throughout (Finite P) calls ↔ ∀ call ∈ calls, ¬ call.FullScale := by
  constructor
  · intro hfinite call hmem hscale
    obtain ⟨earlier, later, rfl⟩ := List.append_of_mem hmem
    have hprefix : earlier ++ [call] <+: earlier ++ call :: later :=
      ⟨later, by rw [List.append_assoc, List.singleton_append]⟩
    obtain ⟨v, hv, -⟩ := hfinite earlier call hprefix
    rw [output_fullScale hscale] at hv
    exact Option.some_ne_none v hv.symm
  · intro hscale
    exact (filtered_run hvalid hscale).1

end

noncomputable def realPower : Power ℝ where
  pow x p := if x = 0 ∧ p < 0 then none else some (x ^ p)
  eq_none_iff {x p} _ hp := by
    by_cases hx : x = 0
    · rw [if_pos ⟨hx, hp⟩]
      exact iff_of_true rfl hx
    · rw [if_neg fun h => hx h.1]
      exact iff_of_false (Option.some_ne_none _) hx

/-- In real arithmetic, the filters compute their values in every run without a CO sample at full
scale, and in no other. -/
theorem filters_finite_iff {calls : List (GasCall ℝ)} (hvalid : ∀ call ∈ calls, call.Valid) :
    Throughout (Finite realPower) calls ↔ ∀ call ∈ calls, ¬ call.FullScale :=
  finite_iff_of_power realPower hvalid

theorem valid_samples :
    ∀ call ∈ [GasCall.readCO 4095 (0.1 : ℝ), .readCO2 3000 0.1], call.Valid := by
  intro call hmem
  simp only [List.mem_cons, List.not_mem_nil, or_false] at hmem
  rcases hmem with rfl | rfl
  · exact ⟨le_rfl, by norm_num, by norm_num⟩
  · exact ⟨by omega, by norm_num, by norm_num⟩

theorem filters_finite_samples :
    Throughout (Finite realPower) [GasCall.readCO 4095 (0.1 : ℝ), .readCO2 3000 0.1] ↔
      ∀ call ∈ [GasCall.readCO 4095 (0.1 : ℝ), .readCO2 3000 0.1], ¬ call.FullScale :=
  filters_finite_iff valid_samples

/-- A CO sample at full scale has no value. -/
theorem fullScale_undefined :
    ¬ ∀ calls : List (GasCall ℝ), (∀ call ∈ calls, call.Valid) →
      Throughout (Finite realPower) calls := by
  intro hall
  have hrun := hall _ valid_samples
  obtain ⟨v, hv, -⟩ := hrun [] (.readCO 4095 0.1) ⟨[.readCO2 3000 0.1], rfl⟩
  rw [output_fullScale (show GasCall.FullScale (.readCO 4095 (0.1 : ℝ)) from rfl)] at hv
  exact Option.some_ne_none v hv.symm

end JeogiAt.Uart
