import WiotaDev.CrossingSearch
import WiotaDev.RegisterFields
import Mathlib.Algebra.Order.Group.Abs
import Mathlib.Algebra.Order.Group.Int

/-! # Calibrating the RTC clock: the search for the supply code -/

namespace WiotaDev.RtcCalibration
open CrossingSearch RegisterFields

/-- A measurement of the 32K clock: the integer part and the fraction of the count. -/
structure AfcData where
  int : ℤ
  sub : ℤ
  deriving DecidableEq

/-- The fractions of one whole, `375000 / 128` rounded up. -/
def AFC_SUBS : ℤ := 2930

def AfcData.total (d : AfcData) : ℤ := d.int * AFC_SUBS + d.sub

/-- How far a measurement is from 128. -/
def AfcData.distance (d : AfcData) : ℤ := |d.total - 128 * AFC_SUBS|

/-- `rtc_set_power_ldo`: the field keeps the low eight bits. -/
def rtcSetPowerLdo (powerLdo : ℤ) (reg : BitVec 32) : BitVec 32 :=
  setField reg 17 10 (BitVec.ofInt 32 powerLdo)

def powerLdo (reg : BitVec 32) : ℤ := (field reg 17 10).toNat

structure Calibration where
  left : ℤ
  right : ℤ
  mid : ℤ
  target : ℤ × ℤ
  remainder : ℤ × ℤ
  reg : BitVec 32
  programmed : List ℤ

namespace Calibration

def setPowerLdo (s : Calibration) (mid : ℤ) : Calibration :=
  { s with mid := mid, reg := rtcSetPowerLdo mid s.reg, programmed := s.programmed ++ [mid] }

/-- The best measurement below 128 and the best one from 128 on. -/
def recordTarget (s : Calibration) (data : AfcData) : Calibration :=
  let s := if 127 = data.int ∧ data.sub > s.remainder.1 then
      { s with target := (s.mid, s.target.2), remainder := (data.sub, s.remainder.2) }
    else s
  if 128 = data.int ∧ data.sub < s.remainder.2 then
    { s with target := (s.target.1, s.mid), remainder := (s.remainder.1, data.sub) }
  else s

end Calibration

section Loop
variable (response : ℤ → AfcData)

/-- The measurement depends on the code that is programmed. -/
def afcMeasure (s : Calibration) : AfcData := response (powerLdo s.reg)

/-- One pass of the loop. -/
def calibrateStep (s : Calibration) : Calibration :=
  let data := afcMeasure response s
  let s := s.recordTarget data
  if data.int ≥ 128 then
    let left := s.mid + 1
    { s with left := left }.setPowerLdo ((left + s.right).tdiv 2)
  else
    let right := s.mid - 1
    { s with right := right }.setPowerLdo ((s.left + right).tdiv 2)

/-- The `while` loop; no result means that it is still running when `fuel` runs out. -/
def calibrateLoop : ℕ → Calibration → Option Calibration
  | 0, _ => none
  | fuel + 1, s =>
    if s.left < s.right then calibrateLoop fuel (calibrateStep response s) else some s

/-- The state in front of the loop. -/
def calibrateStart (reg : BitVec 32) : Calibration :=
  { left := 0, right := 255, mid := 0, target := (127, 127), remainder := (0, 2930)
    reg := reg ||| 1#32 <<< 9, programmed := [] : Calibration }.setPowerLdo ((0 + 255 : ℤ).tdiv 2)

/-- The last measurement and the choice between the two targets. -/
def calibrateEnd (s : Calibration) : Calibration :=
  let s := s.recordTarget (afcMeasure response s)
  if s.remainder.2 < 2930 - s.remainder.1 then
    s.setPowerLdo s.target.2
  else
    s.setPowerLdo s.target.1

def rtcCalibrate (fuel : ℕ) (reg : BitVec 32) : Option Calibration :=
  (calibrateLoop response fuel (calibrateStart reg)).map (calibrateEnd response)

end Loop

theorem powerLdo_rtcSetPowerLdo {v : ℤ} (hlow : 0 ≤ v) (hhigh : v ≤ 255) (reg : BitVec 32) :
    powerLdo (rtcSetPowerLdo v reg) = v := by
  have hnat : (BitVec.ofInt 32 v).toNat = v.toNat := by
    rw [BitVec.toNat_ofInt]
    omega
  rw [powerLdo, rtcSetPowerLdo, field_setField _ (by omega) (by omega) (by rw [hnat]; omega), hnat]
  omega

theorem AfcData.distance_high {r : ℤ} (h : 0 ≤ r) : (⟨128, r⟩ : AfcData).distance = r := by
  simp only [AfcData.distance, AfcData.total, add_sub_cancel_left, abs_of_nonneg h]

theorem AfcData.distance_low {r : ℤ} (h : r ≤ 2930) :
    (⟨127, r⟩ : AfcData).distance = 2930 - r := by
  have htotal : (⟨127, r⟩ : AfcData).total - 128 * AFC_SUBS = -(2930 - r) := by
    simp only [AfcData.total, AFC_SUBS]
    omega
  rw [AfcData.distance, htotal, abs_neg, abs_of_nonneg (by omega)]

/-- The middle of bounds that have at most crossed by one. -/
theorem middle_range {left right : ℤ} (hleft : 0 ≤ left) (hright : right ≤ 255)
    (hle : left ≤ right + 1) :
    (0 ≤ (left + right).tdiv 2 ∧ (left + right).tdiv 2 ≤ 255) ∧
      (left ≤ right → left ≤ (left + right).tdiv 2 ∧ (left + right).tdiv 2 ≤ right) := by
  rcases lt_or_ge (left + right) 0 with hneg | hnonneg
  · have hsum : left + right = -1 := by omega
    rw [hsum, show (-1 : ℤ).tdiv 2 = 0 by decide]
    omega
  · rw [Int.tdiv_eq_ediv_of_nonneg hnonneg]
    omega

namespace Calibration
variable (response : ℤ → AfcData) (s : Calibration)

/-- The code does not beat what was recorded. -/
def Seen (c : ℤ) : Prop :=
  ((response c).int = 127 → (response c).sub ≤ s.remainder.1) ∧
    ((response c).int = 128 → s.remainder.2 ≤ (response c).sub)

/-- What was recorded was measured, or nothing was recorded yet. -/
structure Targets : Prop where
  low : s.remainder.1 = 0 ∨ 0 < s.remainder.1 ∧ response s.target.1 = ⟨127, s.remainder.1⟩
  high : s.remainder.2 = 2930 ∨ s.remainder.2 < 2930 ∧ response s.target.2 = ⟨128, s.remainder.2⟩
  low_range : 0 ≤ s.target.1 ∧ s.target.1 ≤ 255
  high_range : 0 ≤ s.target.2 ∧ s.target.2 ≤ 255

theorem recordTarget_eq (data : AfcData) :
    s.recordTarget data =
      { s with
        target := (if 127 = data.int ∧ data.sub > s.remainder.1 then s.mid else s.target.1,
          if 128 = data.int ∧ data.sub < s.remainder.2 then s.mid else s.target.2)
        remainder := (if 127 = data.int ∧ data.sub > s.remainder.1 then data.sub else s.remainder.1,
          if 128 = data.int ∧ data.sub < s.remainder.2 then data.sub else s.remainder.2) } := by
  by_cases hlow : 127 = data.int ∧ data.sub > s.remainder.1
  · have hhigh : ¬(128 = data.int ∧ data.sub < s.remainder.2) := by omega
    simp only [recordTarget, if_pos hlow, if_neg hhigh]
  · by_cases hhigh : 128 = data.int ∧ data.sub < s.remainder.2
    · simp only [recordTarget, if_neg hlow, if_pos hhigh]
    · simp only [recordTarget, if_neg hlow, if_neg hhigh]

@[simp] theorem recordTarget_left (data : AfcData) : (s.recordTarget data).left = s.left := by
  rw [recordTarget_eq]

@[simp] theorem recordTarget_right (data : AfcData) : (s.recordTarget data).right = s.right := by
  rw [recordTarget_eq]

@[simp] theorem recordTarget_mid (data : AfcData) : (s.recordTarget data).mid = s.mid := by
  rw [recordTarget_eq]

@[simp] theorem recordTarget_programmed (data : AfcData) :
    (s.recordTarget data).programmed = s.programmed := by
  rw [recordTarget_eq]

variable {response s}

theorem Seen.record {c : ℤ} (h : Seen response s c) (data : AfcData) :
    Seen response (s.recordTarget data) c := by
  obtain ⟨hlow, hhigh⟩ := h
  rw [recordTarget_eq]
  refine ⟨fun hc => (hlow hc).trans ?_, fun hc => le_trans ?_ (hhigh hc)⟩
  · simp only
    split_ifs <;> omega
  · simp only
    split_ifs <;> omega

theorem seen_recorded : Seen response (s.recordTarget (response s.mid)) s.mid := by
  rw [recordTarget_eq]
  refine ⟨fun hc => ?_, fun hc => ?_⟩
  · by_cases hbeats : (response s.mid).sub > s.remainder.1
    · simp only [if_pos (And.intro hc.symm hbeats), le_refl]
    · simp only [if_neg (mt And.right hbeats)]
      omega
  · by_cases hbeats : (response s.mid).sub < s.remainder.2
    · simp only [if_pos (And.intro hc.symm hbeats), le_refl]
    · simp only [if_neg (mt And.right hbeats)]
      omega

theorem Targets.record (h : Targets response s) (hsub : 0 ≤ (response s.mid).sub)
    (hmid : 0 ≤ s.mid ∧ s.mid ≤ 255) : Targets response (s.recordTarget (response s.mid)) := by
  obtain ⟨hlow, hhigh, hlowRange, hhighRange⟩ := h
  have hdata : ∀ i, (response s.mid).int = i → response s.mid = ⟨i, (response s.mid).sub⟩ := by
    rintro i rfl
    rfl
  rw [recordTarget_eq]
  refine ⟨?_, ?_, ?_, ?_⟩
  · by_cases hbeats : 127 = (response s.mid).int ∧ (response s.mid).sub > s.remainder.1
    · simp only [if_pos hbeats]
      exact .inr ⟨by omega, hdata 127 hbeats.1.symm⟩
    · simp only [if_neg hbeats]
      exact hlow
  · by_cases hbeats : 128 = (response s.mid).int ∧ (response s.mid).sub < s.remainder.2
    · simp only [if_pos hbeats]
      exact .inr ⟨by omega, hdata 128 hbeats.1.symm⟩
    · simp only [if_neg hbeats]
      exact hhigh
  · simp only
    split_ifs <;> assumption
  · simp only
    split_ifs <;> assumption

end Calibration

section Search
variable {response : ℤ → AfcData}

/-- The codes that measure 128 or more. -/
def High (response : ℤ → AfcData) (c : ℤ) : Prop := 128 ≤ (response c).int

/-- The state at the head of the loop. -/
structure Searching (response : ℤ → AfcData) (s : Calibration) : Prop where
  bracket : Bracket (High response) (s.Seen response) 0 255 s.left s.right
  mid_eq : s.mid = (s.left + s.right).tdiv 2
  reg : powerLdo s.reg = s.mid
  programmed : ∀ v ∈ s.programmed, 0 ≤ v ∧ v ≤ 255
  targets : s.Targets response

theorem Searching.mid_range {s : Calibration} (h : Searching response s) :
    0 ≤ s.mid ∧ s.mid ≤ 255 := by
  rw [h.mid_eq]
  exact (middle_range h.bracket.lo_le h.bracket.le_hi h.bracket.le).1

theorem Searching.mid_between {s : Calibration} (h : Searching response s) (hle : s.left ≤ s.right) :
    s.left ≤ s.mid ∧ s.mid ≤ s.right := by
  rw [h.mid_eq]
  exact (middle_range h.bracket.lo_le h.bracket.le_hi h.bracket.le).2 hle

theorem Searching.measures {s : Calibration} (h : Searching response s) :
    afcMeasure response s = response s.mid := by
  rw [afcMeasure, h.reg]

/-- Recording a measurement forgets nothing of the bracket. -/
theorem Searching.bracket_record {s : Calibration} (h : Searching response s) :
    Bracket (High response) ((s.recordTarget (response s.mid)).Seen response) 0 255 s.left s.right :=
  h.bracket.mono fun _ hc => hc.record _

theorem Searching.programmed_record {s : Calibration} (h : Searching response s) (data : AfcData) :
    ∀ v ∈ (s.recordTarget data).programmed, 0 ≤ v ∧ v ≤ 255 := by
  rw [Calibration.recordTarget_programmed]
  exact h.programmed

theorem searching_start (reg : BitVec 32) : Searching response (calibrateStart reg) where
  bracket := Bracket.start (by decide)
  mid_eq := rfl
  reg := powerLdo_rtcSetPowerLdo (by decide) (by decide) _
  programmed v hv := by
    obtain rfl := List.mem_singleton.mp hv
    decide
  targets := ⟨.inl rfl, .inl rfl, show (0 : ℤ) ≤ 127 ∧ (127 : ℤ) ≤ 255 by decide,
    show (0 : ℤ) ≤ 127 ∧ (127 : ℤ) ≤ 255 by decide⟩

/-- New bounds and the code in their middle. -/
theorem searching_setBounds {s : Calibration} {left right : ℤ}
    (hbracket : Bracket (High response) (s.Seen response) 0 255 left right)
    (hprogrammed : ∀ v ∈ s.programmed, 0 ≤ v ∧ v ≤ 255) (htargets : s.Targets response) :
    Searching response
      ({ s with left := left, right := right }.setPowerLdo ((left + right).tdiv 2)) := by
  obtain ⟨hlow, hhigh⟩ := (middle_range hbracket.lo_le hbracket.le_hi hbracket.le).1
  refine ⟨hbracket, rfl, powerLdo_rtcSetPowerLdo hlow hhigh _, fun v hv => ?_,
    ⟨htargets.low, htargets.high, htargets.low_range, htargets.high_range⟩⟩
  rcases List.mem_append.mp hv with hv | hv
  · exact hprogrammed v hv
  · obtain rfl := List.mem_singleton.mp hv
    exact ⟨hlow, hhigh⟩

section Response
variable (hsub : ∀ c, 0 ≤ c → c ≤ 255 → 0 ≤ (response c).sub ∧ (response c).sub < 2930)
  (hmono : ∀ c c', 0 ≤ c → c ≤ c' → c' ≤ 255 → (response c').total ≤ (response c).total)
include hsub hmono

theorem high_down (c c' : ℤ) (hc : 0 ≤ c) (hle : c ≤ c') (hc' : c' ≤ 255)
    (hhigh : High response c') : High response c := by
  have hfirst := hsub c hc (by omega)
  have hsecond := hsub c' (by omega) hc'
  have htotal := hmono c c' hc hle hc'
  simp only [High, AfcData.total, AFC_SUBS] at *
  omega

/-- One pass keeps what is known and brings the bounds closer together. -/
theorem searching_step {s : Calibration} (h : Searching response s) (hlt : s.left < s.right) :
    Searching response (calibrateStep response s) ∧
      (calibrateStep response s).right - (calibrateStep response s).left < s.right - s.left := by
  have hrange := h.mid_range
  have htargets := h.targets.record (hsub _ hrange.1 hrange.2).1 hrange
  have hprogrammed := h.programmed_record (response s.mid)
  obtain ⟨hmid, hmid'⟩ := h.mid_between hlt.le
  have hdown := high_down hsub hmono
  by_cases hhigh : (response s.mid).int ≥ 128
  · have hup := h.bracket_record.up hdown hmid hmid' Calibration.seen_recorded hhigh
    have hstep : calibrateStep response s =
        { s.recordTarget (response s.mid) with left := s.mid + 1, right := s.right }.setPowerLdo
          ((s.mid + 1 + s.right).tdiv 2) := by
      simp only [calibrateStep, h.measures, if_pos hhigh, Calibration.recordTarget_mid,
        Calibration.recordTarget_right]
    rw [hstep]
    exact ⟨searching_setBounds hup hprogrammed htargets, by simp only [Calibration.setPowerLdo]; omega⟩
  · have hbelow := h.bracket_record.down hdown hmid hmid' Calibration.seen_recorded hhigh
    have hstep : calibrateStep response s =
        { s.recordTarget (response s.mid) with left := s.left, right := s.mid - 1 }.setPowerLdo
          ((s.left + (s.mid - 1)).tdiv 2) := by
      simp only [calibrateStep, h.measures, if_neg hhigh, Calibration.recordTarget_mid,
        Calibration.recordTarget_left]
    rw [hstep]
    exact ⟨searching_setBounds hbelow hprogrammed htargets,
      by simp only [Calibration.setPowerLdo]; omega⟩

/-- The loop ends, with at most one code left. -/
theorem calibrateLoop_ends {s : Calibration} (h : Searching response s) :
    ∃ fuel s', calibrateLoop response fuel s = some s' ∧ Searching response s' ∧
      s'.right ≤ s'.left := by
  induction hgap : (s.right - s.left).toNat using Nat.strong_induction_on generalizing s with
  | _ gap ih =>
    by_cases hlt : s.left < s.right
    · obtain ⟨hnext, hless⟩ := searching_step hsub hmono h hlt
      obtain ⟨fuel, s', hloop, hs', hend⟩ := ih _ (by omega) hnext rfl
      refine ⟨fuel + 1, s', ?_, hs', hend⟩
      rw [calibrateLoop, if_pos hlt]
      exact hloop
    · refine ⟨1, s, ?_, h, not_lt.mp hlt⟩
      rw [calibrateLoop, if_neg hlt]

/-- No code from 128 on is closer than the remainder recorded for that side. -/
theorem high_distance {s : Calibration} {k c : ℤ}
    (hk : Crossing (High response) (s.Seen response) 0 255 k) (htargets : s.Targets response)
    (hc : 0 ≤ c) (hlt : c < k) : s.remainder.2 ≤ (response c).distance := by
  have hkhi := hk.le_hi
  have hhigh := hk.below (k - 1) (by omega) (by omega)
  have htotal := hmono c (k - 1) hc (by omega) (by omega)
  have hfraction := hsub (k - 1) (by omega) (by omega)
  have hseen := (hk.seen_below.resolve_left (by omega)).2
  have hrem : s.remainder.2 ≤ 2930 := by
    rcases htargets.high with h | h <;> omega
  simp only [High, AfcData.total, AfcData.distance, AFC_SUBS] at *
  rw [le_abs]
  by_cases h128 : (response (k - 1)).int = 128
  · have hle := hseen h128
    omega
  · omega

/-- No code below 128 is closer than the remainder recorded for that side. -/
theorem low_distance {s : Calibration} {k c : ℤ}
    (hk : Crossing (High response) (s.Seen response) 0 255 k) (htargets : s.Targets response)
    (hle : k ≤ c) (hc : c ≤ 255) : 2930 - s.remainder.1 ≤ (response c).distance := by
  have hklo := hk.lo_le
  have hlow := hk.above k le_rfl (by omega)
  have htotal := hmono k c hklo hle hc
  have hfraction := hsub k hklo (by omega)
  have hseen := (hk.seen_above.resolve_left (by omega)).1
  have hrem : 0 ≤ s.remainder.1 := by
    rcases htargets.low with h | h <;> omega
  simp only [High, AfcData.total, AfcData.distance, AFC_SUBS] at *
  rw [le_abs]
  by_cases h127 : (response k).int = 127
  · have hle := hseen h127
    omega
  · omega

/-- The target chosen in the end is closest to 128 among all codes. -/
theorem chosen_closest {s : Calibration} {k : ℤ}
    (hk : Crossing (High response) (s.Seen response) 0 255 k) (htargets : s.Targets response)
    (hexists : ∃ c, 0 ≤ c ∧ c ≤ 255 ∧
      ((response c).int = 128 ∨ (response c).int = 127 ∧ (response c).sub ≠ 0)) {c : ℤ}
    (hc : 0 ≤ c) (hc' : c ≤ 255) :
    (response (if s.remainder.2 < 2930 - s.remainder.1 then s.target.2 else s.target.1)).distance ≤
      (response c).distance := by
  have hbound : min s.remainder.2 (2930 - s.remainder.1) ≤ (response c).distance := by
    by_cases hlt : c < k
    · exact (min_le_left _ _).trans (high_distance hsub hmono hk htargets hc hlt)
    · exact (min_le_right _ _).trans (low_distance hsub hmono hk htargets (not_lt.mp hlt) hc')
  refine le_trans ?_ hbound
  by_cases hchoice : s.remainder.2 < 2930 - s.remainder.1
  · have hlow : 0 ≤ s.remainder.1 := by
      rcases htargets.low with h | h <;> omega
    obtain ⟨-, htarget⟩ := htargets.high.resolve_left (by omega)
    have hrange := hsub _ htargets.high_range.1 htargets.high_range.2
    rw [htarget] at hrange
    rw [if_pos hchoice, min_eq_left hchoice.le, htarget, AfcData.distance_high hrange.1]
  · have hrem : 0 < s.remainder.1 := by
      -- Otherwise nothing was recorded on either side, and no code is closer than a whole.
      by_contra hnone
      obtain ⟨c₀, hc₀, hc₀', hnear⟩ := hexists
      have hzero : s.remainder.1 = 0 := htargets.low.resolve_right fun h => hnone h.1
      have hfraction := hsub c₀ hc₀ hc₀'
      have hfar : 2930 ≤ (response c₀).distance := by
        by_cases hlt : c₀ < k
        · have hdist := high_distance hsub hmono hk htargets hc₀ hlt
          omega
        · have hdist := low_distance hsub hmono hk htargets (not_lt.mp hlt) hc₀'
          omega
      simp only [AfcData.distance, AfcData.total, AFC_SUBS] at hfar
      rw [le_abs] at hfar
      omega
    obtain ⟨-, htarget⟩ := htargets.low.resolve_left (by omega)
    have hrange := hsub _ htargets.low_range.1 htargets.low_range.2
    rw [htarget] at hrange
    rw [if_neg hchoice, min_eq_right (not_lt.mp hchoice), htarget,
      AfcData.distance_low hrange.2.le]

/-- The calibration ends with a code that is closest to 128 among all codes, and every code it
programs on its way fits the field. -/
theorem rtcCalibrate_closest (reg : BitVec 32)
    (hexists : ∃ c, 0 ≤ c ∧ c ≤ 255 ∧
      ((response c).int = 128 ∨ (response c).int = 127 ∧ (response c).sub ≠ 0)) :
    ∃ fuel s, rtcCalibrate response fuel reg = some s ∧
      (∀ v ∈ s.programmed, 0 ≤ v ∧ v ≤ 255) ∧ s.programmed.getLast? = some (powerLdo s.reg) ∧
      ∀ c, 0 ≤ c → c ≤ 255 → (response (powerLdo s.reg)).distance ≤ (response c).distance := by
  obtain ⟨fuel, s, hloop, hs, hend⟩ := calibrateLoop_ends hsub hmono (searching_start reg)
  have hrange := hs.mid_range
  have htargets := hs.targets.record (hsub _ hrange.1 hrange.2).1 hrange
  have hlast : s.left = s.right → (s.recordTarget (response s.mid)).Seen response s.left := by
    intro heq
    have hmid := hs.mid_between heq.le
    have hleft : s.left = s.mid := by omega
    rw [hleft]
    exact Calibration.seen_recorded
  obtain ⟨k, hk⟩ := hs.bracket_record.crossing hend hlast
  obtain ⟨t, ht, ht', hends, hclosest⟩ : ∃ t, 0 ≤ t ∧ t ≤ 255 ∧
      calibrateEnd response s = (s.recordTarget (response s.mid)).setPowerLdo t ∧
      ∀ c, 0 ≤ c → c ≤ 255 → (response t).distance ≤ (response c).distance := by
    refine ⟨_, ?_, ?_, ?_,
      fun c hc hc' => chosen_closest hsub hmono hk htargets hexists hc hc'⟩
    · split_ifs
      · exact htargets.high_range.1
      · exact htargets.low_range.1
    · split_ifs
      · exact htargets.high_range.2
      · exact htargets.low_range.2
    · simp only [calibrateEnd, hs.measures]
      split_ifs <;> rfl
  refine ⟨fuel, (s.recordTarget (response s.mid)).setPowerLdo t, ?_, fun v hv => ?_, ?_, ?_⟩
  · rw [rtcCalibrate, hloop, Option.map_some, hends]
  · rcases List.mem_append.mp hv with hv | hv
    · exact hs.programmed_record _ v hv
    · obtain rfl := List.mem_singleton.mp hv
      exact ⟨ht, ht'⟩
  · simp only [Calibration.setPowerLdo, powerLdo_rtcSetPowerLdo ht ht']
    exact List.getLast?_concat
  · simp only [Calibration.setPowerLdo, powerLdo_rtcSetPowerLdo ht ht']
    exact hclosest

end Response

end Search

/-- A response that falls from just above 128 to just below it at code 100. -/
theorem rtcCalibrate_of_step :
    let response : ℤ → AfcData := fun c => if c < 100 then ⟨128, 5⟩ else ⟨127, 2900⟩
    ∃ fuel s, rtcCalibrate response fuel 0 = some s ∧
      (∀ v ∈ s.programmed, 0 ≤ v ∧ v ≤ 255) ∧ s.programmed.getLast? = some (powerLdo s.reg) ∧
      ∀ c, 0 ≤ c → c ≤ 255 → (response (powerLdo s.reg)).distance ≤ (response c).distance := by
  intro response
  refine rtcCalibrate_closest (fun c _ _ => ?_) (fun c c' _ hle _ => ?_) 0
    ⟨0, by decide, by decide, .inl rfl⟩
  · by_cases h : c < 100
    · simp [response, h]
    · simp [response, h]
  · by_cases h : c < 100
    · by_cases h' : c' < 100
      · simp [response, h, h']
      · simp [response, h, h', AfcData.total, AFC_SUBS]
    · have h' : ¬c' < 100 := by omega
      simp [response, h, h']

end WiotaDev.RtcCalibration
