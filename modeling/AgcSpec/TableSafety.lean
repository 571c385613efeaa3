/-
# Which gain tables are computed safely

`WebRtcAgc_CalculateGainTable` checks its parameters once, before the loop:
`diffGain` must be an index of the generator table. The loop needs more. It
reads the generator at a level up to two entries above `diffGain` and at the
entry after that, and its last step is a power of two that has to stay below
31 octaves. All other operations are exact (`gainTableEntry_eq`), so an entry
is safe if its exponent is at most 73981 (`gainOfExponent_ok_iff`).

Which compression gains that leaves is worked out here for both ways of
deriving the analog target, exactly (`gainTable_safe_iff`): the check lets
through gains from -1 to 191 dB; those above 186 read past the generator table,
and in the fixed digital mode the power of two overflows earlier, where the
limiter does not hold the exponent down. The gains that the interface of the
gain control accepts are far from these.
-/
import AgcSpec.TableRange

namespace AgcSpec
namespace TableSafety

open FixedPoint TableRange

/-! ### The last step of an entry -/

/-- The exponent of the power of two, in Q14. -/
def exponentQ14 (y : Int) : Int :=
  (if y > 39000 then (y / 2 * kLog10 + 4096) / 2 ^ 13 else (y * kLog10 + 8192) / 2 ^ 14) + 16 * 2 ^
    14

theorem gainOfExponent_eq {y : Int} (h0 : -39000 ≤ y) (h1 : y ≤ 78000) :
    gainOfExponent y = powerOfTwo (exponentQ14 y) := by
  rw [gainOfExponent, exponentQ14, kLog10]
  dsimp only
  split
  · rw [ck32_eq ⟨by omega, by omega⟩, pure_bind, ck32_eq ⟨by omega, by omega⟩,
      pure_bind, pure_bind, ck32_eq ⟨by omega, by omega⟩, pure_bind]
  · rw [ck32_eq ⟨by omega, by omega⟩, pure_bind, ck32_eq ⟨by omega, by omega⟩,
      pure_bind, pure_bind, ck32_eq ⟨by omega, by omega⟩, pure_bind]

/-- The largest exponent of an entry is 73981. -/
theorem exponentQ14_lt_iff {y : Int} : exponentQ14 y < 31 * 2 ^ 14 ↔ y ≤ 73981 := by
  rw [exponentQ14, kLog10]
  split <;> omega

theorem gainOfExponent_ok_iff {y : Int} (h0 : -39000 ≤ y) :
    (gainOfExponent y).ok = true ↔ y ≤ 73981 := by
  by_cases h1 : y ≤ 78000
  · rw [gainOfExponent_eq h0 h1, ← exponentQ14_lt_iff]
    constructor
    · intro hok
      by_contra hge
      have hlt : exponentQ14 y < 2 ^ 30 := by
        rw [exponentQ14, kLog10]
        split <;> omega
      rw [powerOfTwo_overflow (not_lt.mp hge) hlt] at hok
      cases hok
    · intro hlt
      by_cases hpos : 0 < exponentQ14 y
      · rw [powerOfTwo_eq hpos hlt]
        rfl
      · rw [powerOfTwo, if_neg hpos]
        rfl
  · -- the product with log2(10) may overflow already; if not, the power does
    refine ⟨fun hok => ?_, fun h => by omega⟩
    rw [gainOfExponent] at hok
    dsimp only at hok
    rw [if_pos (by omega), kLog10] at hok
    have hfit : InI32 (y / 2 * 54426) := by
      rw [Chk.ok_bind, Bool.and_eq_true] at hok
      exact ok_ck32_iff.mp hok.1
    obtain ⟨hf0, hf1⟩ := hfit
    rw [ck32_eq ⟨hf0, hf1⟩, pure_bind, ck32_eq ⟨by omega, by omega⟩, pure_bind, pure_bind,
      ck32_eq ⟨by omega, by omega⟩, pure_bind, powerOfTwo_overflow (by omega) (by omega)] at hok
    cases hok

/-! ### An entry -/

/-- The exponent of entry `i`: on the limiter's line or on the curve. -/
def entryExponent (maxGain d target limiterEnable idx i : Int) : Int :=
  if limiterEnable ≠ 0 ∧ i < idx then limiterExponent target i
  else (compressorExponent maxGain d (curveLog (inLevel d i))).val

theorem gainTableEntry_eq {maxGain d i : Int} (h : Params maxGain d) (hi : 0 ≤ i ∧ i ≤ 31)
    (target limiterEnable idx : Int) :
    gainTableEntry maxGain d target limiterEnable idx i =
      gainOfExponent (entryExponent maxGain d target limiterEnable idx i) := by
  rw [gainTableEntry, entryExponent, logApprox_eq h.diff hi, pure_bind,
    compressorExponent_eq h (curveLog_range h.diff hi), pure_bind, Chk.val_pure]

/-- The levels of a larger `diffGain` are not all in the generator table. -/
theorem gainTableEntry_unsafe {d : Int} (hd : 125 ≤ d ∧ d ≤ 127)
    (maxGain target limiterEnable idx : Int) :
    (gainTableEntry maxGain d target limiterEnable idx 0).ok = false := by
  have hlog : (logApprox d 0).ok = false := by
    obtain ⟨h0, h1⟩ := hd
    interval_cases d <;> decide +kernel
  rw [gainTableEntry, Chk.ok_bind, hlog, Bool.false_and]

theorem limiterExponent_range {target i : Int} (ht : 0 ≤ target ∧ target ≤ 31)
    (hi : 0 ≤ i ∧ i ≤ 31) :
    -28000 ≤ limiterExponent target i ∧ limiterExponent target i ≤ 73982 ∧
      (limiterExponent target i = 73982 ↔ target = 0 ∧ i = 31) := by
  rw [limiterExponent, divW32W16, if_pos (by decide), tdiv_eq, kLog10_2]
  split <;> omega

/-- The loudest levels lose at most three decibels more than `diffGain`. -/
theorem curve_deep {maxGain d i : Int} (h : Params maxGain d) (hdeep : d ≤ maxGain + 32)
    (hi : 0 ≤ i ∧ i ≤ 31) :
    -2240 * genFunc d ≤ numFix maxGain d (curveLog (inLevel d i)) ∧
      64 * numFix maxGain d (curveLog (inLevel d i)) ≤
        5 * (compressorExponent maxGain d (curveLog (inLevel d i))).val * genFunc d +
          13 * genFunc d := by
  obtain ⟨hC0, -, -⟩ := genFunc_range h.diff
  obtain ⟨-, -, hdepth⟩ := curveLog_step h.diff hi
  have hgain := mul_genFunc_le h.diff hdeep
  have hN : -2240 * genFunc d ≤ numFix maxGain d (curveLog (inLevel d i)) := by
    rw [numFix]
    linarith
  exact ⟨hN, exponent_lower h (curveLog_range h.diff hi) (by linarith)⟩

theorem entryExponent_lower {maxGain d target i : Int} (h : Params maxGain d)
    (hdeep : d ≤ maxGain + 32) (ht : 0 ≤ target ∧ target ≤ 31) (hi : 0 ≤ i ∧ i ≤ 31)
    (limiterEnable idx : Int) : -29000 ≤ entryExponent maxGain d target limiterEnable idx i := by
  rw [entryExponent]
  split
  · have := (limiterExponent_range ht hi).1
    omega
  · obtain ⟨hC0, -, -⟩ := genFunc_range h.diff
    obtain ⟨hN, hlow⟩ := curve_deep h hdeep hi
    by_contra hlt
    have := mul_genFunc_le h.diff
      (show (compressorExponent maxGain d (curveLog (inLevel d i))).val ≤ -29001 by omega)
    linarith

/-! ### The parameters -/

/-- The largest gain of the curve for the target level 0. -/
def topGain (agcMode g : Int) : Int := maxDigitalGain g 0 (analogTargetOf agcMode g)

/-- What the curve of a gain is like, in the two ways of deriving the analog
target: the target level is taken off the largest gain; and how far the last
entry is from the largest exponent. -/
structure GainFacts (agcMode g : Int) : Prop where
  maxGain : ∀ target, 0 ≤ target → target ≤ 31 →
    maxDigitalGain g target (analogTargetOf agcMode g) = topGain agcMode g - target
  top : -1 ≤ topGain agcMode g ∧ topGain agcMode g ≤ 186
  diff : 0 ≤ diffDigitalGain g ∧ diffDigitalGain g ≤ 124
  deep : diffDigitalGain g ≤ topGain agcMode g + 1

theorem diffDigitalGain_eq {g : Int} (h : -1 ≤ g ∧ g ≤ 191) :
    diffDigitalGain g = (2 * g + 1).tdiv 3 := by
  rw [diffDigitalGain, divW32W16ResW16, if_pos (by decide), kCompRatio, show g * (3 - 1) + 3 / 2 =
    2 * g + 1 by omega]
  refine i16_of ?_
  rw [tdiv_eq]
  constructor <;> split <;> omega

theorem facts_fixed {g : Int} (hg : -1 ≤ g ∧ g ≤ 186) :
    GainFacts kAgcModeFixedDigital g ∧ topGain kAgcModeFixedDigital g = g := by
  have hmax : ∀ target, 0 ≤ target → target ≤ 31 →
      maxDigitalGain g target (analogTargetOf kAgcModeFixedDigital g) = g - target := by
    intro target h0 h1
    rw [analogTargetOf_fixed, maxDigitalGain_fixed ⟨hg.1, by omega⟩ ⟨h0, h1⟩]
  have htop : topGain kAgcModeFixedDigital g = g := by
    rw [topGain, hmax 0 le_rfl (by decide), sub_zero]
  have hd := diffDigitalGain_eq (g := g) ⟨hg.1, by omega⟩
  rw [tdiv_eq] at hd
  exact ⟨⟨by rw [htop]; exact hmax, by rw [htop]; omega, by rw [hd]; split <;> omega,
    by rw [htop, hd]; split <;> omega⟩, htop⟩

theorem facts_adaptive {agcMode g : Int} (hmode : agcMode ≠ kAgcModeFixedDigital)
    (hg : -1 ≤ g ∧ g ≤ 186) :
    GainFacts agcMode g ∧ limiterIndex (analogTargetOf agcMode g) ≤ 31 ∧
      64 * topGain agcMode g * genFunc (diffDigitalGain g) ≤
        (curveLog (inLevel (diffDigitalGain g) 31) - 42) * diffDigitalGain g +
          5778 * genFunc (diffDigitalGain g) := by
  have hall : ∀ g : Int, -1 ≤ g → g ≤ 186 →
    (-1 ≤ analogTargetOf kAgcModeAdaptiveDigital g ∧
        analogTargetOf kAgcModeAdaptiveDigital g ≤ 200) ∧
      (-200 ≤ divW32W16ResW16 ((g - analogTargetOf kAgcModeAdaptiveDigital g) * (kCompRatio - 1) +
        kCompRatio / 2) kCompRatio ∧
          divW32W16ResW16 ((g - analogTargetOf kAgcModeAdaptiveDigital g) * (kCompRatio - 1) +
            kCompRatio / 2) kCompRatio ≤ 200) ∧
      (-1 ≤ topGain kAgcModeAdaptiveDigital g ∧ topGain kAgcModeAdaptiveDigital g ≤ 186) ∧
      (0 ≤ diffDigitalGain g ∧ diffDigitalGain g ≤ 124) ∧
      diffDigitalGain g ≤ topGain kAgcModeAdaptiveDigital g + 1 ∧
      limiterIndex (analogTargetOf kAgcModeAdaptiveDigital g) ≤ 31 ∧
      64 * topGain kAgcModeAdaptiveDigital g * genFunc (diffDigitalGain g) ≤
        (curveLog (inLevel (diffDigitalGain g) 31) - 42) * diffDigitalGain g +
          5778 * genFunc (diffDigitalGain g) := by
    decide +kernel
  obtain ⟨ha, hq, htop, hd, hdeep, hidx, hlast⟩ := hall g hg.1 hg.2
  have htops : topGain agcMode g = topGain kAgcModeAdaptiveDigital g := by
    rw [topGain, topGain, analogTargetOf_adaptive hmode]
  rw [htops, analogTargetOf_adaptive hmode]
  refine ⟨⟨fun target h0 h1 => ?_, by rw [htops]; exact htop, hd, by rw [htops]; exact hdeep⟩,
    hidx, hlast⟩
  rw [htops, topGain, analogTargetOf_adaptive hmode, maxDigitalGain_eq rfl ha ⟨h0, h1⟩ hq,
    maxDigitalGain_eq rfl ha ⟨le_rfl, by decide⟩ hq, sub_zero]

theorem facts_of (agcMode : Int) {g : Int} (hg : -1 ≤ g ∧ g ≤ 186) : GainFacts agcMode g := by
  by_cases hmode : agcMode = kAgcModeFixedDigital
  · rw [hmode]
    exact (facts_fixed hg).1
  · exact (facts_adaptive hmode hg).1

theorem GainFacts.params {agcMode g : Int} (h : GainFacts agcMode g) {target : Int}
    (ht : 0 ≤ target ∧ target ≤ 31) :
    Params (maxDigitalGain g target (analogTargetOf agcMode g)) (diffDigitalGain g) ∧
      diffDigitalGain g ≤ maxDigitalGain g target (analogTargetOf agcMode g) + 32 := by
  have hmax := h.maxGain target ht.1 ht.2
  have htop := h.top
  have hdeep := h.deep
  exact ⟨⟨⟨by omega, by omega⟩, h.diff⟩, by omega⟩

/-! ### The exponents of a table -/

/-- The exponents of the table for a compression gain. -/
def tableExponent (agcMode g target limiterEnable i : Int) : Int :=
  entryExponent (maxDigitalGain g target (analogTargetOf agcMode g)) (diffDigitalGain g) target
    limiterEnable
    (limiterIndex (analogTargetOf agcMode g)) i

/-- The curve is at its highest at the last entry, but for the last bits of
the generator table. -/
theorem curve_le {maxGain d i : Int} (h : Params maxGain d) (hi : 0 ≤ i ∧ i ≤ 31)
    (hlast : 64 * maxGain * genFunc d ≤ (curveLog (inLevel d 31) - 42) * d + 5778 * genFunc d) :
    (compressorExponent maxGain d (curveLog (inLevel d i))).val ≤ 73981 := by
  refine exponent_le (K := 5778) h (curveLog_range h.diff hi) (by decide) ?_ (by decide)
  obtain ⟨-, hstep, -⟩ := curveLog_step h.diff hi
  have := mul_le_mul_of_nonneg_right (show curveLog (inLevel d 31) - 42 ≤
    curveLog (inLevel d i) by omega) h.diff.1
  rw [numFix]
  linarith

/-- The last entry of a curve above the largest exponent. -/
theorem lt_curve {maxGain d : Int} (h : Params maxGain d)
    (hlast : curveLog (inLevel d 31) * d + 5780 * genFunc d ≤ 64 * maxGain * genFunc d) :
    73981 < (compressorExponent maxGain d (curveLog (inLevel d 31))).val := by
  obtain ⟨hC0, -, -⟩ := genFunc_range h.diff
  have hN : 5780 * genFunc d ≤ numFix maxGain d (curveLog (inLevel d 31)) := by
    rw [numFix]
    linarith
  have hlow := exponent_lower h (curveLog_range (i := 31) h.diff (by decide)) (by linarith)
  by_contra hle
  have := mul_genFunc_le h.diff (not_lt.mp hle)
  linarith

/-- The curves of the fixed digital mode: three decibels of gain for each of
the target level. -/
theorem curve_fixed_iff {g target : Int} (hg : -1 ≤ g ∧ g ≤ 186)
    (ht : 0 ≤ target ∧ target ≤ 31) :
    (g ≤ 91 + 3 * target → 64 * (g - target) * genFunc (diffDigitalGain g) ≤
        (curveLog (inLevel (diffDigitalGain g) 31) - 42) * diffDigitalGain g +
          5778 * genFunc (diffDigitalGain g)) ∧
      (91 + 3 * target < g → curveLog (inLevel (diffDigitalGain g) 31) * diffDigitalGain g +
        5780 * genFunc (diffDigitalGain g) ≤ 64 * (g - target) *
          genFunc (diffDigitalGain g)) := by
  have hall : ∀ g : Int, -1 ≤ g → g ≤ 186 →
      (g ≤ 184 → 64 * (g - max 0 ((g - 89) / 3)) * genFunc (diffDigitalGain g) ≤
        (curveLog (inLevel (diffDigitalGain g) 31) - 42) * diffDigitalGain g +
          5778 * genFunc (diffDigitalGain g)) ∧
      (92 ≤ g → curveLog (inLevel (diffDigitalGain g) 31) * diffDigitalGain g +
        5780 * genFunc (diffDigitalGain g) ≤
        64 * (g - (g - 92) / 3) * genFunc (diffDigitalGain g)) := by decide +kernel
  obtain ⟨hle, hlt⟩ := hall g hg.1 hg.2
  have hdiff := (facts_of kAgcModeFixedDigital hg).diff
  constructor
  · -- the smallest target level that allows the gain
    intro h
    have := mul_genFunc_le hdiff
      (show 64 * (g - target) ≤ 64 * (g - max 0 ((g - 89) / 3)) by omega)
    exact this.trans (hle (by omega))
  · -- the largest one that does not
    intro h
    have := mul_genFunc_le hdiff (show 64 * (g - (g - 92) / 3) ≤ 64 * (g - target) by omega)
    exact (hlt (by omega)).trans this

theorem limiterIndex_fixed {g : Int} (hg : -1 ≤ g ∧ g ≤ 186) :
    limiterIndex g ≤ 31 ↔ g ≤ 90 := by
  have hall : ∀ g : Int, -1 ≤ g → g ≤ 186 → (limiterIndex g ≤ 31 ↔ g ≤ 90) := by
    decide +kernel
  exact hall g hg.1 hg.2

/-- Where the exponents are in range. -/
def ExponentsOk (agcMode g target limiterEnable : Int) : Prop :=
  agcMode = kAgcModeFixedDigital →
    (limiterEnable = 0 → g ≤ 91 + 3 * target) ∧
      (limiterEnable ≠ 0 → target = 0 → g ≤ 90)

theorem tableExponent_le {agcMode g target limiterEnable i : Int} (hg : -1 ≤ g ∧ g ≤ 186)
    (ht : 0 ≤ target ∧ target ≤ 31) (hi : 0 ≤ i ∧ i ≤ 31)
    (h : ExponentsOk agcMode g target limiterEnable) :
    tableExponent agcMode g target limiterEnable i ≤ 73981 := by
  have hfacts := facts_of agcMode hg
  obtain ⟨hparams, -⟩ := hfacts.params ht
  have hmax := hfacts.maxGain target ht.1 ht.2
  rw [tableExponent, entryExponent]
  split
  · -- on the limiter's line only the last entry for the target 0 is too large
    rename_i hlim
    obtain ⟨-, hle, heq⟩ := limiterExponent_range ht hi
    by_contra hgt
    obtain ⟨rfl, rfl⟩ := heq.mp (by omega)
    by_cases hmode : agcMode = kAgcModeFixedDigital
    · have hidx := (limiterIndex_fixed hg).mpr ((h hmode).2 hlim.1 rfl)
      have hlt := hlim.2
      rw [hmode, analogTargetOf_fixed] at hlt
      omega
    · have := (facts_adaptive hmode hg).2.1
      omega
  · rename_i hlim
    refine curve_le hparams hi ?_
    rw [hmax]
    by_cases hmode : agcMode = kAgcModeFixedDigital
    · obtain ⟨h1, h2⟩ := h hmode
      subst hmode
      rw [(facts_fixed hg).2]
      refine (curve_fixed_iff hg ht).1 ?_
      by_cases hen : limiterEnable = 0
      · exact h1 hen
      · -- beyond 90 dB all entries are on the limiter's line
        have hidx : limiterIndex g ≤ 31 := by
          rw [analogTargetOf_fixed] at hlim
          by_contra hgt
          exact hlim ⟨hen, by omega⟩
        have := (limiterIndex_fixed hg).mp hidx
        omega
    · have hlast := (facts_adaptive hmode hg).2.2
      have := mul_genFunc_le hfacts.diff ht.1
      linarith

theorem lt_tableExponent {agcMode g target limiterEnable : Int} (hg : -1 ≤ g ∧ g ≤ 186)
    (ht : 0 ≤ target ∧ target ≤ 31) (h : ¬ ExponentsOk agcMode g target limiterEnable) :
    73981 < tableExponent agcMode g target limiterEnable 31 := by
  obtain ⟨hmode, hnot⟩ := Classical.not_imp.mp h
  subst hmode
  have hfacts := facts_fixed hg
  obtain ⟨hparams, -⟩ := hfacts.1.params ht
  have hmax := hfacts.1.maxGain target ht.1 ht.2
  rw [hfacts.2] at hmax
  rw [tableExponent, entryExponent, analogTargetOf_fixed] at *
  by_cases hen : limiterEnable = 0
  · rw [if_neg (fun hlim => hlim.1 hen)]
    refine lt_curve hparams ?_
    rw [hmax]
    refine (curve_fixed_iff hg ht).2 (not_le.mp fun hle =>
      hnot ⟨fun _ => hle, fun hne => absurd hen hne⟩)
  · obtain ⟨h0, h90⟩ : target = 0 ∧ 90 < g := by
      by_contra hcon
      exact hnot ⟨fun h0 => absurd h0 hen, fun _ ht0 => by omega⟩
    have hidx := mt (limiterIndex_fixed hg).mp (not_le.mpr h90)
    rw [if_pos ⟨hen, by omega⟩, (limiterExponent_range ht (by decide)).2.2.mpr ⟨h0, rfl⟩]
    decide

/-! ### The table -/

/-- The gains that `WebRtcAgc_CalculateGainTable` accepts. -/
theorem accepted_iff {g : Int} (hg : InI16 g) :
    (diffDigitalGain g < 0 ∨ diffDigitalGain g ≥ kGenFuncTableSize) ↔
      (g < -1 ∨ 191 < g) := by
  obtain ⟨h0, h1⟩ := hg
  have hq : InI16 ((g * (3 - 1) + 3 / 2).tdiv 3) := by
    rw [tdiv_eq]
    constructor <;> split <;> omega
  rw [diffDigitalGain, divW32W16ResW16, if_pos (by decide), kCompRatio, i16_of hq, tdiv_eq,
    kGenFuncTableSize]
  split <;> omega

theorem ok_calculateGainTable {g : Int} (hg : -1 ≤ g ∧ g ≤ 191)
    (target limiterEnable a : Int) :
    (calculateGainTable g target limiterEnable a).val ≠ none ∧
      ((calculateGainTable g target limiterEnable a).ok = true ↔ ∀ i < 32,
        (gainTableEntry (maxDigitalGain g target a) (diffDigitalGain g) target limiterEnable
          (limiterIndex a) (i : ℕ)).ok = true) := by
  have hacc := mt (accepted_iff (g := g) ⟨by omega, by omega⟩).mp (by omega)
  rw [calculateGainTable, if_neg hacc, Chk.ok_bind, Chk.ok_pure, Bool.and_true, ok_mapM_iff]
  exact ⟨by rw [Chk.val_bind, Chk.val_pure]; exact Option.some_ne_none _,
    by simp only [List.mem_range]⟩

/-- A table that is accepted is computed without an index, a shift, a product
or a divisor out of range, exactly for these compression gains: at most 186 dB;
and in the fixed digital mode, without the limiter, at most 91 dB and three
more for each decibel of the target level, with it and the target level 0 at
most 90 dB. -/
theorem gainTable_safe_iff (agcMode limiterEnable : Int) {g target : Int} (hg : InI16 g)
    (ht : 0 ≤ target ∧ target ≤ 31) :
    ((calculateGainTable g target limiterEnable (analogTargetOf agcMode g)).val ≠ none →
        (calculateGainTable g target limiterEnable (analogTargetOf agcMode g)).ok = true) ↔
      (g < -1 ∨ 191 < g) ∨ g ≤ 186 ∧ (agcMode = kAgcModeFixedDigital →
        (limiterEnable = 0 → g ≤ 91 + 3 * target) ∧
          (limiterEnable ≠ 0 → target = 0 → g ≤ 90)) := by
  by_cases hrej : g < -1 ∨ 191 < g
  · have hnone : (calculateGainTable g target limiterEnable (analogTargetOf agcMode g)).val =
        none := by
      rw [calculateGainTable, if_pos ((accepted_iff hg).mpr hrej)]
      rfl
    exact ⟨fun _ => .inl hrej, fun _ h => absurd hnone h⟩
  obtain ⟨hval, hok⟩ := ok_calculateGainTable (g := g) (by omega) target limiterEnable
    (analogTargetOf agcMode g)
  rw [hok]
  by_cases h186 : g ≤ 186
  swap
  · -- the first entry reads past the generator table
    refine ⟨fun h => ?_, fun h => by omega⟩
    have hd := diffDigitalGain_eq (g := g) (by omega)
    rw [tdiv_eq] at hd
    have hbad := gainTableEntry_unsafe (d := diffDigitalGain g) (by rw [hd]; split <;> omega)
      (maxDigitalGain g target (analogTargetOf agcMode g)) target limiterEnable
        (limiterIndex (analogTargetOf agcMode g))
    have := h hval 0 (by decide)
    rw [Nat.cast_zero, hbad] at this
    cases this
  have hg' : -1 ≤ g ∧ g ≤ 186 := by omega
  obtain ⟨hparams, hdeep⟩ := (facts_of agcMode hg').params ht
  have hentry : ∀ i : ℕ, i < 32 →
    ((gainTableEntry (maxDigitalGain g target (analogTargetOf agcMode g)) (diffDigitalGain g) target
      limiterEnable (limiterIndex (analogTargetOf agcMode g)) i).ok = true ↔
        tableExponent agcMode g target limiterEnable i ≤ 73981) := by
    intro i hi
    have hi' : (0 : Int) ≤ i ∧ (i : Int) ≤ 31 := by omega
    have hlow := entryExponent_lower hparams hdeep ht hi' limiterEnable
      (limiterIndex (analogTargetOf agcMode g))
    rw [gainTableEntry_eq hparams hi', gainOfExponent_ok_iff (by omega)]
    rfl
  constructor
  · intro h
    refine .inr ⟨h186, ?_⟩
    by_contra hnot
    have := (hentry 31 (by decide)).mp (h hval 31 (by decide))
    exact absurd this (not_le.mpr (lt_tableExponent hg' ht hnot))
  · rintro (h | ⟨-, h⟩)
    · exact absurd h hrej
    · exact fun _ i hi => (hentry i hi).mpr (tableExponent_le hg' ht ⟨by omega, by omega⟩ h)

/-- The largest gain of the adaptive modes for which it is. -/
theorem gainTable_safe_186 :
    (calculateGainTable 186 0 1 (analogTargetOf kAgcModeAdaptiveAnalog 186)).ok = true :=
  (gainTable_safe_iff kAgcModeAdaptiveAnalog 1 (by decide) (by decide)).mpr (.inr (by decide))
    (ok_calculateGainTable (by decide) 0 1 _).1

/-- A gain of 187 dB is accepted, and its first entry reads past the generator
table. -/
theorem gainTable_reads_past :
    (calculateGainTable 187 3 1 (analogTargetOf kAgcModeAdaptiveAnalog 187)).val ≠ none ∧
      diffDigitalGain 187 = 125 ∧ inLevel 125 0 / 2 ^ 14 + 1 = 128 ∧
      kGenFuncTable.length = 128 ∧
      (calculateGainTable 187 3 1 (analogTargetOf kAgcModeAdaptiveAnalog 187)).ok = false := by
  decide +kernel

end TableSafety
end AgcSpec
