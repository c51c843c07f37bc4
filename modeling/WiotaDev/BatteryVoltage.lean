import Mathlib.Algebra.BigOperators.Group.Finset.Basic
import Mathlib.Data.BitVec

/-! # The battery voltage as an average of ADC samples -/

namespace WiotaDev.BatteryVoltage
open Finset

def WATERMARK_FIFO_SIZE : BitVec 32 := 60

/-- What `uc_wiota_get_adc_adj_info` fills in, as far as the samples depend on it. -/
structure UcAdcAdj where
  isClose : BitVec 8
  isValid : BitVec 8
  adcKa : BitVec 16
  adcMida : BitVec 16
  adcKb : BitVec 16
  adcMidb : BitVec 16
  a3 : BitVec 16

/-- The factors are unsigned, the offsets are signed. -/
def adcGetAdjResult (adcAdj : UcAdcAdj) (isVersionE : Bool) (adcOri : BitVec 32) : BitVec 32 :=
  if adcAdj.isClose = 0 ∧ adcAdj.isValid ≠ 0 then
    if adcOri > adcAdj.a3.zeroExtend 32 ∧ isVersionE then
      adcOri * adcAdj.adcKb.zeroExtend 32 / 16384 + adcAdj.adcMidb.signExtend 32
    else
      adcOri * adcAdj.adcKa.zeroExtend 32 / 16384 + adcAdj.adcMida.signExtend 32
  else
    adcOri

/-- The adjusted sample of pass `k`, from the value `adcRead k` of the data register. -/
def adjustedSamples (adcRead : ℕ → BitVec 16) (adcAdj : ℕ → UcAdcAdj) (isVersionE : Bool) (k : ℕ) :
    BitVec 32 :=
  adcGetAdjResult (adcAdj k) isVersionE ((adcRead k).zeroExtend 32)

/-- The `for` loop after `reads` samples: `adc` counts the passes and holds the sum. -/
def voltageLoop (sample : ℕ → BitVec 32) : ℕ → ℕ → BitVec 32 → Option (ℕ × BitVec 32)
  | 0, _, _ => none
  | fuel + 1, reads, adc =>
    if adc < WATERMARK_FIFO_SIZE then
      voltageLoop sample fuel (reads + 1) (adc + sample reads + 1)
    else
      some (reads, adc)

/-- How many samples were read, and the result; nothing if the loop is still running. -/
def adcBatteryVoltage (sample : ℕ → BitVec 32) (fuel : ℕ) : Option (ℕ × ℤ) :=
  (voltageLoop sample fuel 0 0).map fun (reads, adc) =>
    (reads, ((adc + WATERMARK_FIFO_SIZE / 2) / WATERMARK_FIFO_SIZE).toInt)

/-- The samples read so far and one more for each of them, in 32 bits. -/
def accumulated (sample : ℕ → BitVec 32) (reads : ℕ) : ℕ :=
  (∑ k ∈ range reads, (sample k).toNat) + reads

theorem accumulated_succ (sample : ℕ → BitVec 32) (reads : ℕ) :
    accumulated sample (reads + 1) = accumulated sample reads + (sample reads).toNat + 1 := by
  rw [accumulated, accumulated, sum_range_succ]
  omega

private theorem toNat_next (adc x : BitVec 32) :
    (adc + x + 1).toNat = (adc.toNat + x.toNat + 1) % 2 ^ 32 := by
  have hone : (1 : BitVec 32).toNat = 1 := rfl
  rw [BitVec.toNat_add, BitVec.toNat_add, hone]
  omega

private theorem lt_size_iff (adc : BitVec 32) : adc < WATERMARK_FIFO_SIZE ↔ adc.toNat < 60 := Iff.rfl

/-- The division that ends the function, on the accumulator as a number. -/
theorem rounded_toInt (adc : BitVec 32) :
    ((adc + WATERMARK_FIFO_SIZE / 2) / WATERMARK_FIFO_SIZE).toInt =
      ((adc.toNat + 30) % 2 ^ 32 / 60 : ℕ) := by
  have hhalf : (WATERMARK_FIFO_SIZE / 2).toNat = 30 := rfl
  have hsize : WATERMARK_FIFO_SIZE.toNat = 60 := rfl
  have hvalue : ((adc + WATERMARK_FIFO_SIZE / 2) / WATERMARK_FIFO_SIZE).toNat =
      (adc.toNat + 30) % 2 ^ 32 / 60 := by
    rw [BitVec.toNat_udiv, BitVec.toNat_add, hhalf, hsize]
  rw [BitVec.toInt_eq_toNat_of_lt (by rw [hvalue]; omega), hvalue]

theorem voltageLoop_result {sample : ℕ → BitVec 32} {fuel reads : ℕ} {adc : BitVec 32}
    (hadc : adc.toNat = accumulated sample reads % 2 ^ 32) {n : ℕ} {total : BitVec 32}
    (h : voltageLoop sample fuel reads adc = some (n, total)) :
    total.toNat = accumulated sample n % 2 ^ 32 := by
  induction fuel generalizing reads adc with
  | zero => exact absurd h (by simp [voltageLoop])
  | succ fuel ih =>
    rw [voltageLoop] at h
    by_cases hless : adc < WATERMARK_FIFO_SIZE
    · rw [if_pos hless] at h
      refine ih ?_ h
      rw [accumulated_succ, toNat_next, hadc]
      omega
    · rw [if_neg hless] at h
      obtain ⟨rfl, rfl⟩ := Prod.mk.inj (Option.some.inj h)
      exact hadc

/-- With samples that are far from wrapping the loop ends after at most 60 of them. -/
theorem voltageLoop_returns {sample : ℕ → BitVec 32} (hsmall : ∀ k, (sample k).toNat + 60 < 2 ^ 32)
    (reads : ℕ) (adc : BitVec 32) : ∃ fuel n total, n ≤ reads + (60 - adc.toNat) ∧
      voltageLoop sample fuel reads adc = some (n, total) := by
  induction hgap : 60 - adc.toNat using Nat.strong_induction_on generalizing reads adc with
  | _ gap ih =>
    by_cases hless : adc < WATERMARK_FIFO_SIZE
    · have hlt := (lt_size_iff adc).mp hless
      have hnext : (adc + sample reads + 1).toNat = adc.toNat + (sample reads).toNat + 1 := by
        have hsample := hsmall reads
        rw [toNat_next]
        omega
      obtain ⟨fuel, n, total, hn, hloop⟩ := ih _ (by omega) (reads + 1) (adc + sample reads + 1) rfl
      refine ⟨fuel + 1, n, total, by omega, ?_⟩
      rw [voltageLoop, if_pos hless]
      exact hloop
    · refine ⟨1, reads, adc, by omega, ?_⟩
      rw [voltageLoop, if_neg hless]

/-- When the first sample alone reaches the limit, it is the only one that is read. -/
theorem adcBatteryVoltage_first {sample : ℕ → BitVec 32} (hlow : 59 ≤ (sample 0).toNat)
    (hhigh : (sample 0).toNat + 31 < 2 ^ 32) (fuel : ℕ) :
    adcBatteryVoltage sample (fuel + 2) = some (1, ↑(((sample 0).toNat + 31) / 60)) := by
  have hnext : (0 + sample 0 + 1).toNat = (sample 0).toNat + 1 := by
    rw [toNat_next, show (0 : BitVec 32).toNat = 0 from rfl]
    omega
  have hstop : ¬0 + sample 0 + 1 < WATERMARK_FIFO_SIZE := by
    rw [lt_size_iff]
    omega
  rw [adcBatteryVoltage, voltageLoop, if_pos (by decide), voltageLoop, if_neg hstop, Option.map_some]
  refine congrArg some (Prod.ext rfl ((rounded_toInt _).trans ?_))
  rw [hnext, Nat.mod_eq_of_lt (by omega)]

/-- Without an adjustment the samples are 16-bit and the function returns. -/
theorem adcBatteryVoltage_returns_unadjusted (adcRead : ℕ → BitVec 16) (adcAdj : ℕ → UcAdcAdj)
    (isVersionE : Bool) (hoff : ∀ k, (adcAdj k).isClose ≠ 0 ∨ (adcAdj k).isValid = 0) :
    ∃ fuel n v, n ≤ 60 ∧
      adcBatteryVoltage (adjustedSamples adcRead adcAdj isVersionE) fuel = some (n, v) := by
  have hraw : ∀ k, adjustedSamples adcRead adcAdj isVersionE k = (adcRead k).zeroExtend 32 := by
    intro k
    refine if_neg ?_
    rintro ⟨hclose, hvalid⟩
    exact (hoff k).elim (· hclose) hvalid
  have hsmall : ∀ k, (adjustedSamples adcRead adcAdj isVersionE k).toNat + 60 < 2 ^ 32 := by
    intro k
    have hlt := (adcRead k).isLt
    rw [hraw, BitVec.zeroExtend, BitVec.toNat_setWidth]
    omega
  obtain ⟨fuel, n, total, hn, hloop⟩ := voltageLoop_returns hsmall 0 0
  exact ⟨fuel, n, _, by simpa using hn, by rw [adcBatteryVoltage, hloop]; rfl⟩

/-- Whatever the samples are, the result is not the rounded mean of 60 samples that were read. -/
theorem adcBatteryVoltage_never_mean (sample : ℕ → BitVec 32) :
    ¬∃ fuel, adcBatteryVoltage sample fuel =
      some (60, ↑(((∑ k ∈ range 60, (sample k).toNat) + 30) / 60)) := by
  rintro ⟨fuel, h⟩
  rw [adcBatteryVoltage, Option.map_eq_some_iff] at h
  obtain ⟨⟨n, total⟩, hloop, heq⟩ := h
  obtain ⟨rfl, hvalue⟩ := Prod.mk.inj heq
  have htotal : total.toNat = accumulated sample 60 % 2 ^ 32 := voltageLoop_result rfl hloop
  rw [rounded_toInt, htotal, accumulated] at hvalue
  omega

/-- With samples of 100 one of them is read and the result is 2. -/
theorem batteryVoltage_of_hundreds :
    ¬∃ fuel, adcBatteryVoltage (fun _ => 100) fuel = some (60, (60 * 100 + 30) / 60) := by
  rintro ⟨fuel, h⟩
  rcases fuel with _ | _ | fuel
  · exact absurd h (by decide)
  · exact absurd h (by decide)
  · rw [adcBatteryVoltage_first (by decide) (by decide)] at h
    exact absurd h (by decide)

end WiotaDev.BatteryVoltage
