/-
# The compressor curve is monotone

Entry `i` of the gain table is the gain for the envelopes with `i` leading
zeros, so a louder input has a smaller index. It must not get more gain. The
entries are rounded at each of the steps that form them, so neighbours can be
the wrong way round by a little; how little is

  `255 * gainTable[i] ≤ 256 * gainTable[i + 1]`   (`tableOf_monotone`).

The exponents of neighbours differ by at most 15 of 2^14 in the wrong
direction. For two entries on the curve this is the rounding of the quotients
(`curve_step`); for two on the limiter's line it is nothing; where the line
hands over to the curve, it is a bound on the two constants that place the
corner (`handover_step`). A difference of 15 in the exponent is one of 57 in
that of the power of two, and less than one part in 256 of the gain
(`power_step`).
-/
import AgcSpec.TableSafety

namespace AgcSpec
namespace TableCurve

open FixedPoint TableRange TableSafety

/-! ### The power of two -/

/-- The power before its last shift. -/
def octave (t : Int) : Int := 2 ^ (t / 2 ^ 14).toNat * (2 ^ 14 + octaveFrac (t % 2 ^ 14))

/-- Within an octave, and from the end of one to the start of the next. -/
theorem octaveFrac_step {f f' : Int} (hf : 0 ≤ f ∧ f < 2 ^ 14)
    (hf' : 0 ≤ f' ∧ f' < 2 ^ 14) :
    (f ≤ f' + 57 → 255 * (2 ^ 14 + octaveFrac f) + 4096 ≤ 256 * (2 ^ 14 + octaveFrac f')) ∧
      (f + 2 ^ 14 ≤ f' + 57 →
        510 * (2 ^ 14 + octaveFrac f) + 4096 ≤ 256 * (2 ^ 14 + octaveFrac f')) := by
  rw [octaveFrac, octaveFrac, constLinApprox]
  constructor <;> intro h <;> split <;> split <;> omega

theorem octave_step {t t' : Int} (h : t ≤ t' + 57) (ht : 0 ≤ t) (ht' : 10 * 2 ^ 14 ≤ t') :
    255 * octave t + 2 ^ 22 ≤ 256 * octave t' := by
  obtain ⟨hsame, hnext⟩ :=
    octaveFrac_step (show 0 ≤ t % 2 ^ 14 ∧ t % 2 ^ 14 < 2 ^ 14 by omega)
    (show 0 ≤ t' % 2 ^ 14 ∧ t' % 2 ^ 14 < 2 ^ 14 by omega)
  obtain ⟨hf0, hf1, -⟩ := octaveFrac_range (f := t % 2 ^ 14) ⟨by omega, by omega⟩
  obtain ⟨hf0', -, -⟩ := octaveFrac_range (f := t' % 2 ^ 14) ⟨by omega, by omega⟩
  obtain ⟨k, hk⟩ := Int.eq_ofNat_of_zero_le (show 0 ≤ t / 2 ^ 14 by omega)
  obtain ⟨k', hk'⟩ := Int.eq_ofNat_of_zero_le (show 0 ≤ t' / 2 ^ 14 by omega)
  have hbig : (2 : Int) ^ 10 ≤ 2 ^ k' := pow_le_pow_right₀ (by decide) (by omega)
  rw [octave, octave, hk, hk', Int.toNat_natCast, Int.toNat_natCast]
  rcases Nat.lt_trichotomy k k' with hlt | rfl | hgt
  · -- an octave lower
    have hdouble : (2 : Int) ^ (k + 1) ≤ 2 ^ k' := pow_le_pow_right₀ (by decide) hlt
    rw [pow_succ] at hdouble
    have hle := mul_le_mul_of_nonneg_left (show 2 ^ 14 + octaveFrac (t % 2 ^ 14) ≤
      2 ^ 14 * 2 by omega)
      (show (0 : Int) ≤ 2 ^ k by positivity)
    have hge := mul_le_mul_of_nonneg_left
      (show 2 ^ 14 ≤ 2 ^ 14 + octaveFrac (t' % 2 ^ 14) by omega)
      (show (0 : Int) ≤ 2 ^ k' by positivity)
    omega
  · have hmul := mul_le_mul_of_nonneg_left (hsame (by omega))
      (show (0 : Int) ≤ 2 ^ k by positivity)
    linarith
  · obtain rfl : k = k' + 1 := by omega
    have hmul := mul_le_mul_of_nonneg_left (hnext (by omega))
      (show (0 : Int) ≤ 2 ^ k' by positivity)
    rw [pow_succ]
    linarith

theorem power_step {y y' : Int} (h : y ≤ y' + 15) (hy : -29000 ≤ y ∧ y ≤ 73981)
    (hy' : -29000 ≤ y' ∧ y' ≤ 73981) :
    0 < (gainOfExponent y).val ∧
      255 * (gainOfExponent y).val ≤ 256 * (gainOfExponent y').val := by
  have hlow : ∀ {x : Int}, -29000 ≤ x → 10 * 2 ^ 14 ≤ exponentQ14 x := by
    intro x hx
    rw [exponentQ14, kLog10]
    split <;> omega
  have hstep : exponentQ14 y ≤ exponentQ14 y' + 57 := by
    rw [exponentQ14, exponentQ14, kLog10]
    split <;> split <;> omega
  have hval : ∀ {x : Int}, -29000 ≤ x ∧ x ≤ 73981 →
      (gainOfExponent x).val = octave (exponentQ14 x) / 2 ^ 14 := by
    intro x hx
    have := hlow hx.1
    rw [gainOfExponent_eq (by omega) (by omega),
      powerOfTwo_eq (by omega) (exponentQ14_lt_iff.mpr hx.2)]
    rfl
  have hoctave := octave_step hstep (by have := hlow hy.1; omega) (hlow hy'.1)
  have hpos := octave_step (show 0 ≤ exponentQ14 y + 57 by have := hlow hy.1; omega) le_rfl
    (hlow hy.1)
  have hzero : 2 ^ 14 ≤ octave 0 := by decide +kernel
  rw [hval hy, hval hy']
  omega

/-! ### The exponents -/

theorem curve_step {maxGain d : Int} (h : Params maxGain d) (hm : maxGain ≤ 90)
    (hdeep : d ≤ maxGain + 32) {i : Int} (hi : 0 ≤ i ∧ i ≤ 30) :
    (compressorExponent maxGain d (curveLog (inLevel d i))).val ≤
      (compressorExponent maxGain d (curveLog (inLevel d (i + 1)))).val + 15 := by
  have hl := curveLog_range (i := i) h.diff ⟨hi.1, by omega⟩
  obtain ⟨hC0, -, hC⟩ := genFunc_range h.diff
  have hup := exponent_upper h hl ((numFix_le (K := 5760) h hl.1 (by omega)).trans (by omega))
  have hlow := (curve_deep (i := i + 1) h hdeep ⟨by omega, by omega⟩).2
  have hdrop := mul_le_mul_of_nonneg_right (curveLog_step (i := i) h.diff ⟨hi.1, by omega⟩).1
    h.diff.1
  by_contra hgt
  have := mul_genFunc_le h.diff (not_le.mp hgt)
  rw [numFix] at hup hlow
  linarith

/-- Where the limiter's line ends, it is no higher than the curve, up to a
rounding of the constants. -/
theorem corner (agcMode : Int) {g : Int} (hg : 0 ≤ g ∧ g ≤ 90) :
    2 ≤ limiterIndex (analogTargetOf agcMode g) ∧
      limiterIndex (analogTargetOf agcMode g) ≤ 31 ∧
        (limiterIndex (analogTargetOf agcMode g) - 2) * kLog10_2 * genFunc (diffDigitalGain g) +
          256 * curveLog (inLevel (diffDigitalGain g) (limiterIndex (analogTargetOf agcMode g))) *
            diffDigitalGain g ≤
        16384 * topGain agcMode g * genFunc (diffDigitalGain g) +
          219 * genFunc (diffDigitalGain g) := by
  have hall : ∀ mode ∈ [kAgcModeFixedDigital, kAgcModeAdaptiveDigital], ∀ g : Int,
    0 ≤ g → g ≤ 90 → 2 ≤ limiterIndex (analogTargetOf mode g) ∧
      limiterIndex (analogTargetOf mode g) ≤ 31 ∧
        (limiterIndex (analogTargetOf mode g) - 2) * kLog10_2 * genFunc (diffDigitalGain g) +
            256 * curveLog (inLevel (diffDigitalGain g) (limiterIndex (analogTargetOf mode g))) *
              diffDigitalGain g ≤
          16384 * topGain mode g * genFunc (diffDigitalGain g) +
            219 * genFunc (diffDigitalGain g) := by decide +kernel
  by_cases hmode : agcMode = kAgcModeFixedDigital
  · rw [hmode]
    exact hall _ (by decide) g hg.1 hg.2
  · rw [topGain, analogTargetOf_adaptive hmode]
    exact hall _ (by decide) g hg.1 hg.2

/-- The last entry on the limiter's line and the first on the curve. -/
theorem handover_step {agcMode g target : Int} (hg : 0 ≤ g ∧ g ≤ 90)
    (ht : 0 ≤ target ∧ target ≤ 31) :
    limiterExponent target (limiterIndex (analogTargetOf agcMode g) - 1) ≤
      (compressorExponent (maxDigitalGain g target (analogTargetOf agcMode g)) (diffDigitalGain g)
        (curveLog (inLevel (diffDigitalGain g) (limiterIndex (analogTargetOf agcMode g))))).val +
          15 := by
  have hfacts := facts_of agcMode (g := g) ⟨by omega, by omega⟩
  obtain ⟨hparams, hdeep⟩ := hfacts.params ht
  have hmax := hfacts.maxGain target ht.1 ht.2
  obtain ⟨hidx0, hidx1, hcorner⟩ := corner agcMode hg
  obtain ⟨hC0, -, -⟩ := genFunc_range hfacts.diff
  rw [hmax] at hparams hdeep ⊢
  have hlow := (curve_deep hparams hdeep ⟨by omega, hidx1⟩).2
  have hline : 20 * limiterExponent target (limiterIndex (analogTargetOf agcMode g) - 1) ≤
      (limiterIndex (analogTargetOf agcMode g) - 2) * kLog10_2 - target * 2 ^ 14 + 29 := by
    rw [limiterExponent, divW32W16, if_pos (by decide), tdiv_eq, kLog10_2]
    split <;> omega
  have hline' := mul_genFunc_le hfacts.diff hline
  by_contra hgt
  have := mul_genFunc_le hfacts.diff (not_le.mp hgt)
  rw [numFix] at hlow
  linarith

/-! ### The table -/

/-- What the interface's limits on a configuration say of the gain the table
is made for. -/
structure Accepted (agcMode g target limiterEnable : Int) : Prop where
  gain : 0 ≤ g ∧ g ≤ 186
  level : 0 ≤ target ∧ target ≤ 31
  maxGain : maxDigitalGain g target (analogTargetOf agcMode g) ≤ 90
  corner : limiterIndex (analogTargetOf agcMode g) ≤ 31 → g ≤ 90
  exponents : ExponentsOk agcMode g target limiterEnable

theorem accepted_of {c : WebRtcAgcConfig} (agcMode : Int)
    (ht : 0 ≤ c.targetLevelDbfs ∧ c.targetLevelDbfs ≤ 31)
    (hg : 0 ≤ c.compressionGaindB ∧ c.compressionGaindB ≤ 90) :
    Accepted agcMode (effectiveGain agcMode c) c.targetLevelDbfs c.limiterEnable := by
  by_cases hmode : agcMode = kAgcModeFixedDigital
  · -- the target level is added to the gain, and taken off again
    have heff : effectiveGain agcMode c = c.compressionGaindB + c.targetLevelDbfs := by
      rw [effectiveGain, if_pos hmode, i16_of ⟨by omega, by omega⟩]
    rw [heff]
    subst hmode
    have hrange : -1 ≤ c.compressionGaindB + c.targetLevelDbfs ∧
      c.compressionGaindB + c.targetLevelDbfs ≤ 186 := by omega
    obtain ⟨hfacts, htop⟩ := facts_fixed hrange
    refine ⟨by omega, ht, ?_, fun h => ?_, fun _ =>
      ⟨fun _ => by omega, fun _ _ => by omega⟩⟩
    · rw [hfacts.maxGain _ ht.1 ht.2, htop]
      omega
    · rw [analogTargetOf_fixed] at h
      exact (limiterIndex_fixed hrange).mp h
  · have heff : effectiveGain agcMode c = c.compressionGaindB := if_neg hmode
    rw [heff]
    obtain ⟨-, hcurve⟩ := curve_range hmode hg
    exact ⟨by omega, ht, (hcurve _ ht.1 ht.2).1.upper, fun _ => hg.2, fun h => absurd h hmode⟩

theorem tableExponent_step {agcMode g target limiterEnable i : Int}
    (h : Accepted agcMode g target limiterEnable) (hi : 0 ≤ i ∧ i ≤ 30) :
    tableExponent agcMode g target limiterEnable i ≤ tableExponent agcMode g target limiterEnable
      (i + 1) + 15 := by
  have hgain := h.gain
  obtain ⟨hparams, hdeep⟩ := (facts_of agcMode (g := g) ⟨by omega, by omega⟩).params h.level
  have hcurve := curve_step hparams h.maxGain hdeep hi
  rw [tableExponent, tableExponent, entryExponent, entryExponent]
  by_cases hlim : limiterEnable ≠ 0 ∧ i < limiterIndex (analogTargetOf agcMode g)
  swap
  · rw [if_neg hlim, if_neg (fun hnext => hlim ⟨hnext.1, by omega⟩)]
    exact hcurve
  rw [if_pos hlim]
  by_cases hnext : i + 1 < limiterIndex (analogTargetOf agcMode g)
  · -- the line rises
    rw [if_pos ⟨hlim.1, hnext⟩, limiterExponent, limiterExponent, divW32W16, divW32W16,
      if_pos (by decide), if_pos (by decide), tdiv_eq, tdiv_eq, kLog10_2]
    split <;> split <;> omega
  · have hidx : i = limiterIndex (analogTargetOf agcMode g) - 1 := by omega
    rw [if_neg (fun hn => hnext hn.2), show i + 1 =
      limiterIndex (analogTargetOf agcMode g) by omega, hidx]
    exact handover_step ⟨hgain.1, h.corner (by omega)⟩ h.level

theorem tableOf_eq {agcMode : Int} {c : WebRtcAgcConfig}
    (h : Accepted agcMode (effectiveGain agcMode c) c.targetLevelDbfs c.limiterEnable) :
    tableOf agcMode c = some ((List.range 32).map fun i : ℕ =>
      (gainOfExponent (tableExponent agcMode (effectiveGain agcMode c) c.targetLevelDbfs
        c.limiterEnable i)).val) := by
  have hgain := h.gain
  obtain ⟨hparams, -⟩ :=
    (facts_of agcMode (g := effectiveGain agcMode c) ⟨by omega, by omega⟩).params h.level
  have hacc := mt (accepted_iff (g := effectiveGain agcMode c) ⟨by omega, by omega⟩).mp
    (by omega)
  rw [tableOf, calculateGainTable, if_neg hacc, Chk.val_bind, Chk.val_pure, val_mapM]
  refine congrArg some (List.map_congr_left fun i hi => ?_)
  have := List.mem_range.mp hi
  rw [gainTableEntry_eq hparams ⟨by omega, by omega⟩]
  rfl

/-- Every table that a configuration within the interface's limits gives, in
any mode and with the limiter on or off: its entries are positive, and a louder
input does not get more gain, up to one part in 256. -/
theorem tableOf_monotone (agcMode : Int) {c : WebRtcAgcConfig}
    (ht : 0 ≤ c.targetLevelDbfs ∧ c.targetLevelDbfs ≤ 31)
    (hg : 0 ≤ c.compressionGaindB ∧ c.compressionGaindB ≤ 90) :
    ∃ T, tableOf agcMode c = some T ∧ T.length = 32 ∧ (∀ i < 32, 0 < T.getD i 0) ∧
      ∀ i < 31, 255 * T.getD i 0 ≤ 256 * T.getD (i + 1) 0 := by
  have hacc := accepted_of agcMode ht hg
  have hgain := hacc.gain
  obtain ⟨hparams, hdeep⟩ :=
    (facts_of agcMode (g := effectiveGain agcMode c) ⟨by omega, by omega⟩).params ht
  have hrange : ∀ i : Int, 0 ≤ i ∧ i ≤ 31 →
      -29000 ≤ tableExponent agcMode (effectiveGain agcMode c) c.targetLevelDbfs
        c.limiterEnable i ∧
        tableExponent agcMode (effectiveGain agcMode c) c.targetLevelDbfs c.limiterEnable i ≤
          73981 := fun i hi =>
    ⟨entryExponent_lower hparams hdeep ht hi _ _,
      tableExponent_le ⟨by omega, hgain.2⟩ ht hi hacc.exponents⟩
  rw [tableOf_eq hacc]
  refine ⟨_, rfl, by simp, fun i hi => ?_, fun i hi => ?_⟩
  · have hi' := hrange i ⟨by omega, by omega⟩
    rw [List.getD_eq_getElem _ _ (by simpa using hi), List.getElem_map, List.getElem_range]
    exact (power_step (by omega) hi' hi').1
  · rw [List.getD_eq_getElem _ _ (by simp; omega), List.getD_eq_getElem _ _ (by simp; omega),
      List.getElem_map, List.getElem_map, List.getElem_range, List.getElem_range]
    exact (power_step (tableExponent_step hacc ⟨by omega, by omega⟩)
      (hrange i ⟨by omega, by omega⟩) (hrange (i + 1) ⟨by omega, by omega⟩)).2

/-- The largest gain of the fixed digital mode, limited at 0 dBov. -/
theorem tableOf_monotone_fixed :
    ∃ T, tableOf kAgcModeFixedDigital ⟨0, 90, 1⟩ = some T ∧ T.length = 32 ∧
    (∀ i < 32, 0 < T.getD i 0) ∧ ∀ i < 31, 255 * T.getD i 0 ≤ 256 * T.getD (i + 1) 0 :=
  tableOf_monotone kAgcModeFixedDigital (by decide) (by decide)

end TableCurve
end AgcSpec
