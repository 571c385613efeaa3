/-
# The statistics of the voice activity detector

`WebRtcAgc_ProcessVad` keeps a short-term and a long-term mean and mean square
(its "variance") of the frame levels, and stores the root of their difference
in 16 bits. `WebRtcSpl_Sqrt` can return up to 46340. What keeps the difference
below `2^30`, and its root below `2^15`, is that both averages are taken with
the same weights: a level is between -32768 and 30720, so

  `dB^2 + 2048 * dB ≤ 30720 * 32768`   and   `dB^2 + 65536 * dB ≥ -2^30`,

both are linear in the mean and the mean square, and an average keeps them, up
to its rounding (`Moments`, `moments_step`). Along every run the roots are
exact (`statistics_consistent`).

The voice activity measure is not. The difference of a level to the long-term
mean is converted to 16 bits, and the sum of the new evidence and the old
measure is, before it is limited. `logRatio_exact_iff` says for every frame of
every run whether these lose anything; the first silent frame already does
(`logRatio_wraps`), and the source has a note on it. It does not, as long as
the level is near the long-term mean and the levels before it were spread
(`logRatio_exact_of_spread`).
-/
import AgcSpec.VadEnergy
import AgcSpec.SquareRoot

namespace AgcSpec
namespace VadStats

open FixedPoint Runs VadEnergy

/-! ### Mean and mean square -/

/-- Where a mean and a mean square of levels are, with a slack for rounding. -/
structure Moments (slack m v : Int) : Prop where
  mean : -32768 ≤ m ∧ m ≤ 30720
  variance : 0 ≤ v ∧ v ≤ 262144
  upper : 4096 * v + 2048 * m ≤ 30720 * 32768 + slack
  lower : -2 ^ 30 - slack ≤ 4096 * v + 65536 * m

/-- The average of old moments and a level, with weights `c` and one and each
part rounded to a neighbour, the mean square downwards. -/
structure Averaged (c m v dB s m' v' : Int) : Prop where
  mean : c * m + dB - c ≤ (c + 1) * m' ∧ (c + 1) * m' ≤ c * m + dB + c
  variance : c * v + s - c ≤ (c + 1) * v' ∧ (c + 1) * v' ≤ c * v + s

theorem moments_step {c m v dB s m' v' : Int} (hc : 0 ≤ c ∧ c ≤ 250)
    (h : Moments (2 ^ 25) m v)
    (hdB : Moments 0 dB s) (havg : Averaged c m v dB s m' v') : Moments (2 ^ 25) m' v' := by
  obtain ⟨hm, hv⟩ := havg
  have hpos : 0 < c + 1 := by omega
  have hm0 := mul_le_mul_of_nonneg_left h.mean.1 hc.1
  have hm1 := mul_le_mul_of_nonneg_left h.mean.2 hc.1
  have hv0 := mul_le_mul_of_nonneg_left h.variance.1 hc.1
  have hv1 := mul_le_mul_of_nonneg_left h.variance.2 hc.1
  have hu := mul_le_mul_of_nonneg_left h.upper hc.1
  have hl := mul_le_mul_of_nonneg_left h.lower hc.1
  obtain ⟨⟨hd0, hd1⟩, ⟨hs0, hs1⟩, hdu, hdl⟩ := hdB
  refine ⟨⟨?_, ?_⟩, ⟨?_, ?_⟩, ?_, ?_⟩
  · exact Int.lt_add_one_iff.mp (lt_of_mul_lt_mul_left (a := c + 1) (by linarith) hpos.le)
  · exact Int.lt_add_one_iff.mp (lt_of_mul_lt_mul_left (a := c + 1) (by linarith) hpos.le)
  · exact Int.lt_add_one_iff.mp (lt_of_mul_lt_mul_left (a := c + 1) (by linarith) hpos.le)
  · exact le_of_mul_le_mul_left (a := c + 1) (by linarith) hpos
  · exact le_of_mul_le_mul_left (a := c + 1) (by linarith) hpos
  · exact le_of_mul_le_mul_left (a := c + 1) (by linarith) hpos

/-- The difference of the moments is below `2^30` in size. -/
theorem Moments.deviation {m v : Int} (h : Moments (2 ^ 25) m v) :
    -2 ^ 30 < v * 2 ^ 12 - m * m ∧ v * 2 ^ 12 - m * m < 2 ^ 30 := by
  obtain ⟨⟨hm0, hm1⟩, ⟨hv0, hv1⟩, hu, hl⟩ := h
  constructor
  · rcases eq_or_lt_of_le hm0 with rfl | hlt
    · omega
    · nlinarith
  · nlinarith [sq_nonneg (m + 1024)]

/-- A mean and a mean square with the root of their difference: it is exact
and keeps to 16 bits. -/
structure Deviation (mean variance std : Int) : Prop where
  arg : InI32 (variance * 2 ^ 12 - mean * mean)
  root : sqrt (variance * 2 ^ 12 - mean * mean) = pure std
  range : 0 ≤ std ∧ std ≤ 32767

theorem deviation_eq {m v : Int} (h : Moments (2 ^ 25) m v) :
    ∃ std, Deviation m v std ∧ ∀ {α : Type} (k : Int → Chk α),
      (do let mm ← ck32 (m * m)
          let vv ← ck32 (v * 2 ^ 12)
          let d ← ck32 (vv - mm)
          let r ← sqrt d
          let std ← ck16 r
          k std) = k std := by
  obtain ⟨hd0, hd1⟩ := h.deviation
  obtain ⟨r, hr, hr0, hr1⟩ := SquareRoot.sqrt_small hd0 hd1
  obtain ⟨hm, hv, -, -⟩ := h
  have hmm := mul_range (x := m) (y := m) (X := 2 ^ 15) (Y := 2 ^ 15) ⟨by omega, by omega⟩
    ⟨by omega, by omega⟩
  refine ⟨r, ⟨⟨by omega, by omega⟩, hr, hr0, hr1⟩, fun k => ?_⟩
  rw [ck32_eq ⟨by omega, by omega⟩, pure_bind, ck32_eq ⟨by omega, by omega⟩, pure_bind,
    ck32_eq ⟨by omega, by omega⟩, pure_bind, hr, pure_bind, ck16_eq ⟨by omega, by omega⟩,
    pure_bind]

/-! ### The updates -/

theorem shortTerm_eq {w : AgcVad} {dB : Int}
    (h : Moments (2 ^ 25) w.meanShortTerm w.varianceShortTerm)
    (hdB : Moments 0 dB (dB * dB / 2 ^ 12)) :
    ∃ m v std, Moments (2 ^ 25) m v ∧ Deviation m v std ∧
      shortTerm w dB = pure { w with
        meanShortTerm := m, varianceShortTerm := v, stdShortTerm := std } := by
  obtain ⟨hm0, hm1⟩ := h.mean
  obtain ⟨hv0, hv1⟩ := h.variance
  obtain ⟨hd0, hd1⟩ := hdB.mean
  obtain ⟨hs0, hs1⟩ := hdB.variance
  have hsq := mul_range (x := dB) (y := dB) (X := 2 ^ 15) (Y := 2 ^ 15) ⟨by omega, by omega⟩
    ⟨by omega, by omega⟩
  have hdiv : (dB * dB / 2 ^ 12 + w.varianceShortTerm * 15).tdiv 16 =
      (dB * dB / 2 ^ 12 + w.varianceShortTerm * 15) / 16 :=
    Int.tdiv_eq_ediv_of_nonneg (by omega)
  have hmom : Moments (2 ^ 25) ((w.meanShortTerm * 15 + dB) / 2 ^ 4)
      ((dB * dB / 2 ^ 12 + w.varianceShortTerm * 15) / 16) :=
    moments_step (c := 15) (by decide) h hdB ⟨⟨by omega, by omega⟩, by omega, by omega⟩
  obtain ⟨std, hdev, htail⟩ := deviation_eq hmom
  refine ⟨_, _, std, hmom, hdev, ?_⟩
  rw [shortTerm, ck32_eq ⟨by omega, by omega⟩, pure_bind, ck16_eq ⟨by omega, by omega⟩,
    pure_bind, ck32_eq ⟨by omega, by omega⟩, pure_bind, ck32_eq ⟨by omega, by omega⟩,
    pure_bind, ck32_eq ⟨by omega, by omega⟩, pure_bind, hdiv]
  exact htail _

theorem tdiv_between (n : Int) {d : Int} (hd : 0 < d) :
    n - (d - 1) ≤ d * n.tdiv d ∧ d * n.tdiv d ≤ n + (d - 1) ∧
      (0 ≤ n → d * n.tdiv d ≤ n) := by
  have hsum := Int.tmod_add_mul_tdiv n d
  have hlo := Int.lt_tmod_of_pos n hd
  have hhi := Int.tmod_lt_of_pos n hd
  exact ⟨by omega, by omega, fun hn => by have := Int.tmod_nonneg d hn; omega⟩

theorem longTerm_eq {w : AgcVad} {dB : Int} (hc : 3 ≤ w.counter ∧ w.counter ≤ 250)
    (h : Moments (2 ^ 25) w.meanLongTerm w.varianceLongTerm)
    (hdB : Moments 0 dB (dB * dB / 2 ^ 12)) :
    ∃ m v std, Moments (2 ^ 25) m v ∧ Deviation m v std ∧
      Averaged w.counter w.meanLongTerm w.varianceLongTerm dB (dB * dB / 2 ^ 12) m v ∧
      longTerm w dB = pure { w with
        meanLongTerm := m, varianceLongTerm := v, stdLongTerm := std } := by
  obtain ⟨hm0, hm1⟩ := h.mean
  obtain ⟨hv0, hv1⟩ := h.variance
  obtain ⟨hd0, hd1⟩ := hdB.mean
  obtain ⟨hs0, hs1⟩ := hdB.variance
  have hsq := mul_range (x := dB) (y := dB) (X := 2 ^ 15) (Y := 2 ^ 15) ⟨by omega, by omega⟩
    ⟨by omega, by omega⟩
  have hpm := mul_range (x := w.meanLongTerm) (y := w.counter) (X := 2 ^ 15) (Y := 250)
    ⟨by omega, by omega⟩ ⟨by omega, by omega⟩
  have hpv := mul_range (x := w.varianceLongTerm) (y := w.counter) (X := 262144) (Y := 250)
    ⟨by omega, by omega⟩
    ⟨by omega, by omega⟩
  have hpv0 : 0 ≤ w.varianceLongTerm * w.counter := mul_nonneg hv0 (by omega)
  have hden : addSatW16 w.counter 1 = w.counter + 1 := sat16_of ⟨by omega, by omega⟩
  have hne : w.counter + 1 ≠ 0 := by omega
  obtain ⟨hq0, hq1, -⟩ :=
    tdiv_between (w.meanLongTerm * w.counter + dB) (d := w.counter + 1) (by omega)
  obtain ⟨hr0, -, hr1⟩ := tdiv_between (dB * dB / 2 ^ 12 + w.varianceLongTerm * w.counter)
    (d := w.counter + 1) (by omega)
  have havg : Averaged w.counter w.meanLongTerm w.varianceLongTerm dB (dB * dB / 2 ^ 12)
      ((w.meanLongTerm * w.counter + dB).tdiv (w.counter + 1))
      ((dB * dB / 2 ^ 12 + w.varianceLongTerm * w.counter).tdiv (w.counter + 1)) :=
    ⟨⟨by linarith, by linarith⟩, by linarith, by have := hr1 (by omega); linarith⟩
  have hmom := moments_step ⟨by omega, hc.2⟩ h hdB havg
  obtain ⟨std, hdev, htail⟩ := deviation_eq hmom
  refine ⟨_, _, std, hmom, hdev, havg, ?_⟩
  obtain ⟨⟨hmean0, hmean1⟩, -, -, -⟩ := hmom
  rw [longTerm, ck32_eq ⟨by omega, by omega⟩, pure_bind, ck32_eq ⟨by omega, by omega⟩,
    pure_bind, hden]
  dsimp only
  rw [divW32W16ResW16, if_pos hne, i16_of ⟨by omega, by omega⟩,
    ck32_eq ⟨by omega, by omega⟩, pure_bind, ck32_eq ⟨by omega, by omega⟩, pure_bind,
    ck32_eq ⟨by omega, by omega⟩, pure_bind, divW32W16, if_pos hne]
  exact htail _

/-! ### Along a run -/

theorem vadZeros_le (n : Int) : vadZeros n ≤ 31 := by
  simp only [vadZeros]
  split_ifs <;> omega

/-- A level is a multiple of two dB, and its own mean. -/
theorem level_moments (v : AgcVad) (f : VadFrame) :
    Moments 0 (level v f) (level v f * level v f / 2 ^ 12) := by
  have hz := vadZeros_le
    (vadSubframes f.samples.length 10 v.downState v.HPstate 0 f.samples).val.2.2
  rw [level]
  generalize vadZeros _ = z at hz ⊢
  interval_cases z <;> exact ⟨by decide, by decide, by decide, by decide⟩

/-- What the statistics keep. -/
structure StatsInv (v : AgcVad) : Prop where
  counter : 3 ≤ v.counter ∧ v.counter ≤ 250
  short : Moments (2 ^ 25) v.meanShortTerm v.varianceShortTerm
  long : Moments (2 ^ 25) v.meanLongTerm v.varianceLongTerm
  ratio : -2048 ≤ v.logRatio ∧ v.logRatio ≤ 2048

/-- The state after the statistics of a frame, before the voice activity. -/
def measured (v : AgcVad) (f : VadFrame) : AgcVad :=
  (longTerm (shortTerm (heard v f) (level v f)).val (level v f)).val

theorem measured_spec {v : AgcVad} (h : StatsInv v) (f : VadFrame) :
    (shortTerm (heard v f) (level v f)).ok = true ∧
      (longTerm (shortTerm (heard v f) (level v f)).val (level v f)).ok = true ∧
      StatsInv (measured v f) ∧ (measured v f).logRatio = v.logRatio ∧
      Deviation (measured v f).meanShortTerm (measured v f).varianceShortTerm
        (measured v f).stdShortTerm ∧
      Deviation (measured v f).meanLongTerm (measured v f).varianceLongTerm
        (measured v f).stdLongTerm ∧
      Averaged (measured v f).counter v.meanLongTerm v.varianceLongTerm (level v f)
        (level v f * level v f / 2 ^ 12)
        (measured v f).meanLongTerm (measured v f).varianceLongTerm := by
  have hcounter : 3 ≤ (heard v f).counter ∧ (heard v f).counter ≤ 250 := by
    have := h.counter
    simp only [heard, kAvgDecayTime]
    split_ifs <;> omega
  obtain ⟨m, s, std, hmom, hdev, hshort⟩ :=
    shortTerm_eq (w := heard v f) h.short (level_moments v f)
  rw [measured, hshort, Chk.val_pure]
  obtain ⟨m', s', std', hmom', hdev', havg, hlong⟩ := longTerm_eq (w := { heard v f with
    meanShortTerm := m, varianceShortTerm := s, stdShortTerm := std }) hcounter h.long
      (level_moments v f)
  rw [hlong]
  exact ⟨rfl, rfl, ⟨hcounter, hmom, hmom', h.ratio⟩, rfl, hdev, hdev', havg⟩

/-- The voice activity changes the measure only. -/
theorem step_eq {v v' : AgcVad} {f : VadFrame} (h : VadStep v f v') :
    v' = { measured v f with
      logRatio := (processVad v f.samples f.samples.length).val.logRatio } := by
  rw [VadStep] at h
  rw [h, val_processVad]
  rfl

theorem statsInv_run {fs : List VadFrame} {v : AgcVad} (hrun : Run VadStep initVad fs v) :
    StatsInv v := by
  refine hrun.invariant ⟨by decide, ⟨by decide, by decide, by decide, by decide⟩,
    ⟨by decide, by decide, by decide, by decide⟩, by decide⟩ fun t f u h hstep => ?_
  obtain ⟨-, -, ⟨hc, hs, hl, -⟩, -⟩ := measured_spec h f
  rw [step_eq hstep]
  exact ⟨hc, hs, hl, processVad_logRatio _ _ _⟩

/-- The ranges of the statistics. -/
structure StatsRange (v : AgcVad) : Prop where
  counter : 3 ≤ v.counter ∧ v.counter ≤ 250
  meanShortTerm : -32768 ≤ v.meanShortTerm ∧ v.meanShortTerm ≤ 30720
  meanLongTerm : -32768 ≤ v.meanLongTerm ∧ v.meanLongTerm ≤ 30720
  varianceShortTerm : 0 ≤ v.varianceShortTerm ∧ v.varianceShortTerm ≤ 262144
  varianceLongTerm : 0 ≤ v.varianceLongTerm ∧ v.varianceLongTerm ≤ 262144

/-- The statistics after any frames, and the roots that the next frame takes:
no operation of the two updates overflows, the arguments of the roots fit 32
bits, and the roots fit the 16 bits they are stored in. -/
theorem statistics_consistent {fs : List VadFrame} {v : AgcVad} (hrun : Run VadStep initVad fs v) :
    StatsRange v ∧ ∀ f v', VadStep v f v' →
      (shortTerm (heard v f) (level v f)).ok = true ∧
        (longTerm (shortTerm (heard v f) (level v f)).val (level v f)).ok = true ∧
        Deviation v'.meanShortTerm v'.varianceShortTerm v'.stdShortTerm ∧
        Deviation v'.meanLongTerm v'.varianceLongTerm v'.stdLongTerm := by
  have hinv := statsInv_run hrun
  refine ⟨⟨hinv.counter, hinv.short.mean, hinv.long.mean, hinv.short.variance,
    hinv.long.variance⟩, fun f v' hstep => ?_⟩
  obtain ⟨hok, hok', -, -, hshort, hlong, -⟩ := measured_spec hinv f
  rw [step_eq hstep]
  exact ⟨hok, hok', hshort, hlong⟩

/-- A silent frame at 8 kHz. -/
def silentFrame : VadFrame := ⟨List.replicate 80 0, .inl rfl, fun x hx => by
  rw [List.eq_of_mem_replicate hx]
  decide⟩

/-- After one silent frame. -/
theorem statistics_consistent_silent :
    StatsRange (processVad initVad silentFrame.samples silentFrame.samples.length).val :=
  (statistics_consistent (Run.one (show VadStep initVad silentFrame _ from rfl))).1

/-! ### The voice activity measure -/

/-- The level of a frame against the long-term mean, in units of the deviation. -/
def evidence (w : AgcVad) (dB : Int) : Int :=
  if w.stdLongTerm = 0 then 2 ^ 31 - 1 else (12288 * (dB - w.meanLongTerm)).tdiv w.stdLongTerm

/-- The old measure that is kept. -/
def kept (w : AgcVad) : Int := w.logRatio * 53248 / 1024

/-- The measure, where the difference to the mean fits 16 bits. -/
theorem voiceActivity_eq {w : AgcVad} (h : StatsInv w) {dB : Int}
    (hd : InI16 (dB - w.meanLongTerm)) :
    voiceActivity w dB = ck32 (evidence w dB + kept w) >>= fun t => ck16 (t / 2 ^ 6) >>= fun r =>
      pure { w with logRatio := clampLogRatio r } := by
  obtain ⟨hr0, hr1⟩ := h.ratio
  obtain ⟨hd0, hd1⟩ := hd
  have hb : w.logRatio * (13 * 2 ^ 12) / 2 ^ 10 = kept w := by
    rw [kept]
    omega
  have ht : divW32W16 (3 * 2 ^ 12 * (dB - w.meanLongTerm)) w.stdLongTerm = evidence w dB := by
    rw [divW32W16, evidence]
    by_cases h0 : w.stdLongTerm = 0
    · rw [if_neg (not_not.mpr h0), if_pos h0]
      rfl
    · rw [if_pos h0, if_neg h0]
      rfl
  rw [voiceActivity, ck16_eq ⟨hd0, hd1⟩, pure_bind, ck32_eq ⟨by omega, by omega⟩, pure_bind]
  dsimp only
  rw [ht, ck32_eq ⟨by omega, by omega⟩, pure_bind, hb]

/-- The measure is exact for a frame if and only if two numbers fit: the
difference of the level to the long-term mean 16 bits, and the sum of evidence
and kept measure 22. For a deviation 0 the sum never does. -/
theorem voiceActivity_ok_iff {w : AgcVad} (h : StatsInv w) (dB : Int) :
    (voiceActivity w dB).ok = true ↔
      InI16 (dB - w.meanLongTerm) ∧ -2 ^ 21 ≤ evidence w dB + kept w ∧
        evidence w dB + kept w < 2 ^ 21 := by
  by_cases hd : InI16 (dB - w.meanLongTerm)
  swap
  · refine ⟨fun hok => absurd ?_ hd, fun hfit => absurd hfit.1 hd⟩
    rw [voiceActivity, Chk.ok_bind, Bool.and_eq_true] at hok
    exact decide_eq_true_iff.mp hok.1
  rw [voiceActivity_eq h hd, Chk.ok_bind, Bool.and_eq_true]
  constructor
  · rintro ⟨h32, h16⟩
    have hfit := ok_ck32_iff.mp h32
    rw [ck32_eq hfit, Chk.val_pure, Chk.ok_bind, Chk.ok_pure, Bool.and_true] at h16
    obtain ⟨h0, h1⟩ : InI16 ((evidence w dB + kept w) / 2 ^ 6) := decide_eq_true_iff.mp h16
    exact ⟨hd, by omega, by omega⟩
  · rintro ⟨-, h0, h1⟩
    rw [ck32_eq ⟨by omega, by omega⟩, Chk.val_pure, ck16_eq ⟨by omega, by omega⟩]
    exact ⟨rfl, rfl⟩

theorem logRatio_of_ok {v : AgcVad} {f : VadFrame} (h : StatsInv (measured v f))
    (hok : (voiceActivity (measured v f) (level v f)).ok = true) :
    (processVad v f.samples f.samples.length).val.logRatio =
      clampLogRatio ((evidence (measured v f) (level v f) + kept (measured v f)) / 64) := by
  obtain ⟨hd, h0, h1⟩ := (voiceActivity_ok_iff h (level v f)).mp hok
  rw [val_processVad]
  change (voiceActivity (measured v f) (level v f)).val.logRatio = _
  rw [voiceActivity_eq h hd, ck32_eq ⟨by omega, by omega⟩, pure_bind,
    ck16_eq ⟨by omega, by omega⟩]
  rfl

/-- For every frame after any frames: `WebRtcAgc_ProcessVad` stores the limited
exact measure, without an overflow or a conversion that loses something, if and
only if the difference to the long-term mean fits 16 bits and the sum 22. -/
theorem logRatio_exact_iff {fs : List VadFrame} {v : AgcVad} (hrun : Run VadStep initVad fs v)
    (f : VadFrame) :
    ((voiceActivity (measured v f) (level v f)).ok = true ∧
        (processVad v f.samples f.samples.length).val.logRatio =
          clampLogRatio ((evidence (measured v f) (level v f) + kept (measured v f)) / 64)) ↔
      InI16 (level v f - (measured v f).meanLongTerm) ∧
        -2 ^ 21 ≤ evidence (measured v f) (level v f) + kept (measured v f) ∧
        evidence (measured v f) (level v f) + kept (measured v f) < 2 ^ 21 := by
  obtain ⟨-, -, hinv, -⟩ := measured_spec (statsInv_run hrun) f
  rw [← voiceActivity_ok_iff hinv]
  exact ⟨fun h => h.1, fun hok => ⟨hok, logRatio_of_ok hinv hok⟩⟩

/-- A first frame of full-scale samples is measured exactly. -/
theorem logRatio_exact_loud :
    (voiceActivity (measured initVad loudFrame) (level initVad loudFrame)).ok = true ∧
      (processVad initVad loudFrame.samples loudFrame.samples.length).val.logRatio =
      clampLogRatio ((evidence (measured initVad loudFrame) (level initVad loudFrame) +
        kept (measured initVad loudFrame)) / 64) :=
  (logRatio_exact_iff (.nil : Run VadStep initVad [] initVad) loudFrame).mpr (by decide +kernel)

/-- A first silent frame is not: its level is 38502 below the long-term mean,
which becomes 27034 above it in 16 bits, and the measure rises. -/
theorem logRatio_wraps :
    level initVad silentFrame - (measured initVad silentFrame).meanLongTerm = -38502 ∧
    (voiceActivity (measured initVad silentFrame) (level initVad silentFrame)).ok = false ∧
    (processVad initVad silentFrame.samples silentFrame.samples.length).val.logRatio = 211 ∧
    clampLogRatio ((evidence (measured initVad silentFrame) (level initVad silentFrame) +
      kept (measured initVad silentFrame)) / 64) =
      -302 := by
  decide +kernel

/-! ### Levels that are spread

The long-term deviation that divides the evidence is taken after the level has
entered the averages. It cannot be small if it was not before, so a condition
on the state before the frame is enough. -/

/-- A deviation of half a dB does not get lost in one step: the level adds to
it, and roundings take less than `2^17` off its square. -/
theorem deviation_step {c m v dB s m' v' : Int} (hc : 3 ≤ c) (hm : -32768 ≤ m ∧ m ≤ 30720)
    (hd : -32768 ≤ dB ∧ dB ≤ 30720) (hs : dB * dB ≤ 4096 * s + 4095)
    (havg : Averaged c m v dB s m' v') (hspread : 2 ^ 18 ≤ v * 2 ^ 12 - m * m) :
    350 * 350 ≤ v' * 2 ^ 12 - m' * m' := by
  obtain ⟨⟨hm0, hm1⟩, hv0, -⟩ := havg
  have hc0 : 0 ≤ c := by omega
  have hcm0 := mul_le_mul_of_nonneg_left hm.1 hc0
  have hcm1 := mul_le_mul_of_nonneg_left hm.2 hc0
  -- what the rounding adds to the square of the mean
  have hround : (c + 1) * m' * ((c + 1) * m') ≤
      (c * m + dB) * (c * m + dB) + (c + 1) * (65537 * (c + 1)) := by
    have hdiff : |(c + 1) * m' - (c * m + dB)| ≤ c + 1 :=
      abs_le.mpr ⟨by linarith, by linarith⟩
    have hsum : |(c + 1) * m' + (c * m + dB)| ≤ 65537 * (c + 1) :=
      abs_le.mpr ⟨by linarith, by linarith⟩
    have hprod := mul_le_mul hdiff hsum (abs_nonneg _) (by omega)
    rw [← abs_mul] at hprod
    linarith [le_abs_self (((c + 1) * m' - (c * m + dB)) * ((c + 1) * m' + (c * m + dB)))]
  -- what it takes off the mean square
  have hvar : (c + 1) * (c * (v * 2 ^ 12) + dB * dB - 4096 * (c + 1)) ≤
      (c + 1) * ((c + 1) * v' * 2 ^ 12) :=
    mul_le_mul_of_nonneg_left (by linarith) (by omega)
  have hexact : (c + 1) * (c * (v * 2 ^ 12) + dB * dB) - (c * m + dB) * (c * m + dB) =
      (c + 1) * c * (v * 2 ^ 12 - m * m) + c * ((dB - m) * (dB - m)) := by ring
  have hold := mul_le_mul_of_nonneg_left hspread (mul_nonneg (by omega : 0 ≤ c + 1) hc0)
  have hlevel : 0 ≤ c * ((dB - m) * (dB - m)) := mul_nonneg hc0 (mul_self_nonneg _)
  have hweight : 0 ≤ (c + 1) * (c - 3) := mul_nonneg (by omega) (by omega)
  have hpos : 0 < (c + 1) * (c + 1) := mul_pos (by omega) (by omega)
  refine le_of_mul_le_mul_left (a := (c + 1) * (c + 1)) ?_ hpos
  linarith

/-- A quotient by a deviation of half a dB and the old measure fit 22 bits. -/
theorem measure_fits {w : AgcVad} (h : StatsInv w) {dB : Int} (hd : |dB - w.meanLongTerm| < 2 ^ 15)
    (hstd : 340 ≤ w.stdLongTerm) :
    -2 ^ 21 ≤ evidence w dB + kept w ∧ evidence w dB + kept w < 2 ^ 21 := by
  obtain ⟨hr0, hr1⟩ := h.ratio
  obtain ⟨hd0, hd1⟩ := abs_lt.mp hd
  obtain ⟨hq0, hq1, -⟩ :=
    tdiv_between (12288 * (dB - w.meanLongTerm)) (d := w.stdLongTerm) (by omega)
  rw [evidence, if_neg (by omega), kept]
  generalize (12288 * (dB - w.meanLongTerm)).tdiv w.stdLongTerm = q at hq0 hq1
  have hlow : -1990000 < q := by
    by_contra hlt
    have := mul_le_mul_of_nonneg_left (not_lt.mp hlt) (show 0 ≤ w.stdLongTerm by omega)
    omega
  have hhigh : q < 1990000 := by
    by_contra hlt
    have := mul_le_mul_of_nonneg_left (not_lt.mp hlt) (show 0 ≤ w.stdLongTerm by omega)
    omega
  omega

/-- Enough on the frame and the state before it: the level is less than 32 dB
from the long-term mean, and the levels before it had a long-term deviation of
half a dB. -/
theorem logRatio_exact_of_spread {fs : List VadFrame} {v : AgcVad} (hrun : Run VadStep initVad fs v)
    (f : VadFrame) (hd : |level v f - v.meanLongTerm| < 2 ^ 15)
    (hspread : 2 ^ 18 ≤ v.varianceLongTerm * 2 ^ 12 - v.meanLongTerm * v.meanLongTerm) :
    (voiceActivity (measured v f) (level v f)).ok = true ∧
      (processVad v f.samples f.samples.length).val.logRatio =
        clampLogRatio ((evidence (measured v f) (level v f) + kept (measured v f)) / 64) := by
  have hold := statsInv_run hrun
  obtain ⟨-, -, hinv, -, -, hdev, havg⟩ := measured_spec hold f
  have hc := hinv.counter
  -- the new mean is between the old one and the level
  have hnear : |level v f - (measured v f).meanLongTerm| < 2 ^ 15 := by
    obtain ⟨⟨hm0, hm1⟩, -⟩ := havg
    obtain ⟨hd0, hd1⟩ := abs_lt.mp hd
    have hpos : 0 < (measured v f).counter + 1 := by omega
    refine abs_lt.mpr ⟨lt_of_mul_lt_mul_left (a := (measured v f).counter + 1) ?_ hpos.le,
      lt_of_mul_lt_mul_left (a := (measured v f).counter + 1) ?_ hpos.le⟩ <;> nlinarith
  have hwide := deviation_step hc.1 hold.long.mean (level_moments v f).mean (by omega) havg hspread
  have hstd := SquareRoot.le_sqrt hdev.arg (by decide) hwide hdev.root
  have hfits := measure_fits hinv hnear (by omega)
  obtain ⟨hn0, hn1⟩ := abs_lt.mp hnear
  have hok := (voiceActivity_ok_iff hinv (level v f)).mpr ⟨⟨by omega, by omega⟩, hfits⟩
  exact ⟨hok, logRatio_of_ok hinv hok⟩

example : 2 ^ 18 ≤ initVad.varianceLongTerm * 2 ^ 12 -
    initVad.meanLongTerm * initVad.meanLongTerm ∧
    |level initVad loudFrame - initVad.meanLongTerm| < 2 ^ 15 := by
  decide +kernel

end VadStats
end AgcSpec
