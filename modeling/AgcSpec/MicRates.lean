/-
# The low band at the wideband rates

`WebRtcAgc_AddMic` gets 160 samples of the low band in 10 ms at 16, 32 and
48 kHz: the low band is a 16 kHz signal at all three. Its envelope, its voice
activity and the scaling of its samples are the same at all three. Its block
energies are not. At 16 kHz the band is decimated and each of the five blocks is
16 of the 80 samples that gives; the other rates take the branch of 8 kHz,
which takes 16 samples as they are, so the second half of the band is never
read (`micEnergies_plain`, `blockEnergies_take`) and the state of the decimator
stands still.

What a call leaves is then the same as at 16 kHz if and only if decimating the
band happens to change neither the state nor the energies (`lowBand_rates_iff`).
A constant band that the decimator has come to rest at does this. Of any other
band at least the last two samples have to be those that the decimator has seen
last (`rates_agree`).
-/
import AgcSpec.Calls
import AgcSpec.ResampleBy2

namespace AgcSpec
namespace MicRates

open FixedPoint

/-! ### The energies of blocks -/

/-- The energies of the first `k` blocks of 16 samples. -/
def blockEnergies : ℕ → List Int → List Int
  | 0, _ => []
  | k + 1, xs => dotProductWithScale (xs.take 16) (xs.take 16) 4 :: blockEnergies k (xs.drop 16)

theorem blockEnergies_take : ∀ (k : ℕ) (xs : List Int),
    blockEnergies k (xs.take (16 * k)) = blockEnergies k xs
  | 0, _ => rfl
  | k + 1, xs => by
    rw [blockEnergies, blockEnergies, List.take_take, List.drop_take, min_eq_left (by omega),
      show 16 * (k + 1) - 16 = 16 * k by omega, blockEnergies_take k]

/-- At a rate other than 16 kHz the samples are taken as they are. -/
theorem micEnergies_plain {fs : Int} (h : fs ≠ 16000) :
    ∀ (k : ℕ) (st : FiltState) (band : List Int), micEnergies fs k st band =
      (st, blockEnergies k band)
  | 0, _, _ => rfl
  | k + 1, st, band => by
    rw [micEnergies, if_neg h]
    dsimp only
    rw [micEnergies_plain h k, blockEnergies]

/-- At 16 kHz the band is decimated as a whole. -/
theorem micEnergies_decimated : ∀ (k : ℕ) (st : FiltState) (band : List Int),
    band.length = 32 * k → micEnergies 16000 k st band = ((downsampleBy2 st band).val.1,
      blockEnergies k (downsampleBy2 st band).val.2)
  | 0, st, band, h => by
    obtain rfl : band = [] := List.length_eq_zero_iff.mp h
    rfl
  | k + 1, st, band, h => by
    have hcut := down_append (band.take 32) (band.drop 32) st (by rw [List.length_take, h]; omega)
    have hlen : (downsampleBy2 st (band.take 32)).val.2.length = 16 := by
      have := length_down (band.take 32) st
      rw [List.length_take, h, min_eq_left (by omega)] at this
      exact this
    rw [List.take_append_drop] at hcut
    have hst : (downsampleBy2 st band).val.1 =
        (downsampleBy2 (downsampleBy2 st (band.take 32)).val.1 (band.drop 32)).val.1 :=
      congrArg Prod.snd hcut
    have hout : (downsampleBy2 st band).val.2 = (downsampleBy2 st (band.take 32)).val.2 ++
        (downsampleBy2 (downsampleBy2 st (band.take 32)).val.1 (band.drop 32)).val.2 :=
          congrArg Prod.fst hcut
    rw [micEnergies, if_pos rfl]
    dsimp only
    rw [micEnergies_decimated k _ _ (by rw [List.length_drop, h]; omega), hst, hout, blockEnergies,
      ← hlen, List.take_left, List.drop_left]

/-! ### A call -/

/-- What a call leaves of the analysis of the low band, and the samples. -/
structure LowBand where
  env0 : List Int
  env1 : List Int
  Rxx16w32_array0 : List Int
  Rxx16w32_array1 : List Int
  filterState : FiltState
  vadMic : AgcVad
  bands : List (List Int)
deriving DecidableEq

def lowBand (r : MicResult) : LowBand :=
  ⟨r.agc.env0, r.agc.env1, r.agc.Rxx16w32_array0, r.agc.Rxx16w32_array1, r.agc.filterState,
    r.agc.vadMic, r.bands⟩

theorem length_micGain {s : LegacyAgc} {in_mic bands : List (List Int)} {idx : Int}
    (h : (micGain s in_mic).val = some (idx, bands)) :
    (bands.headD []).length = (in_mic.headD []).length := by
  rw [micGain] at h
  split at h
  · split at h
    · cases h
    · rw [Chk.val_bind] at h
      split at h
      · cases h
      · rw [Chk.val_bind, Chk.val_pure] at h
        cases h
        cases in_mic <;> simp
  · cases h
    rfl

/-- A call with a band of 160 samples, at any of the rates. -/
theorem addMic_val {s : LegacyAgc} {rate : Int} (h8 : rate ≠ 8000) {in_mic : List (List Int)}
    (hlen : (in_mic.headD []).length = 160) :
    ((micGain s in_mic).val = none → (addMic { s with fs := rate } in_mic).val = ⟨-1,
      { s with fs := rate }, in_mic⟩) ∧ ∀ idx bands,
        (micGain s in_mic).val = some (idx, bands) →
        (addMic { s with fs := rate } in_mic).val =
          ⟨0, micAnalyse { s with fs := rate, gainTableIdx := idx } bands, bands⟩ := by
  have hframe : ¬ (in_mic.headD []).length ≠ 10 * micSubframe rate := by
    rw [micSubframe, if_neg h8, hlen]
    decide
  have hgain : micGain { s with fs := rate } in_mic = micGain s in_mic := rfl
  rw [addMic, if_neg hframe, Chk.val_bind, hgain]
  refine ⟨fun h => ?_, fun idx bands h => ?_⟩
  · rw [h]
    rfl
  · rw [h]
    rfl

/-- Two rates other than 8 kHz leave the same if the energies and the state of
the decimator agree. -/
theorem lowBand_eq_iff (s : LegacyAgc) {rate rate' : Int} (h8 : rate ≠ 8000)
    (h8' : rate' ≠ 8000) (idx ret : Int) (bands : List (List Int)) :
    lowBand ⟨ret, micAnalyse { s with fs := rate, gainTableIdx := idx } bands, bands⟩ =
        lowBand ⟨ret, micAnalyse { s with fs := rate', gainTableIdx := idx } bands, bands⟩ ↔
      micEnergies rate 5 s.filterState (bands.headD []) = micEnergies rate' 5 s.filterState
        (bands.headD []) := by
  have hsub : micSubframe rate = micSubframe rate' := by
    rw [micSubframe, micSubframe, if_neg h8, if_neg h8']
  simp only [lowBand, micAnalyse, micEnvelope, hsub, LowBand.mk.injEq, Prod.ext_iff,
    true_and, and_true]
  -- the energies are in the slot that was free
  by_cases hq : s.inQueue > 0
  · simp only [if_pos hq, true_and]
    exact and_comm
  · simp only [if_neg hq, true_and]
    exact and_comm

/-- At 32 and 48 kHz a call leaves the envelope, the energies, the state of
the decimator, the voice activity and the samples that it leaves at 16 kHz if
and only if it fails, or decimating the scaled band leaves the state and gives
the energies of its first 80 samples. -/
theorem lowBand_rates_iff (s : LegacyAgc) {rate : Int} (hrate : rate = 32000 ∨ rate = 48000)
    {in_mic : List (List Int)} (hlen : (in_mic.headD []).length = 160) :
    lowBand (addMic { s with fs := rate } in_mic).val =
      lowBand (addMic { s with fs := 16000 } in_mic).val ↔ ∀ idx bands,
        (micGain s in_mic).val = some (idx, bands) →
          (downsampleBy2 s.filterState (bands.headD [])).val.1 = s.filterState ∧
          blockEnergies 5 (downsampleBy2 s.filterState (bands.headD [])).val.2 = blockEnergies 5
            ((bands.headD []).take 80) := by
  have h8 : rate ≠ 8000 := by omega
  have h16 : rate ≠ 16000 := by omega
  obtain ⟨hnone, hsome⟩ := addMic_val (s := s) h8 hlen
  obtain ⟨hnone', hsome'⟩ := addMic_val (s := s) (show (16000 : Int) ≠ 8000 by decide) hlen
  rcases hg : (micGain s in_mic).val with _ | ⟨idx, bands⟩
  · rw [hnone hg, hnone' hg]
    exact ⟨fun _ _ _ h => (by cases h), fun _ => rfl⟩
  rw [hsome idx bands hg, hsome' idx bands hg]
  have hband := (length_micGain hg).trans hlen
  rw [lowBand_eq_iff s h8 (by decide), micEnergies_plain h16, micEnergies_decimated 5 _ _ hband,
    Prod.mk.injEq]
  constructor
  · rintro ⟨hst, hen⟩ idx' bands' heq
    cases heq
    exact ⟨hst.symm, hen.symm.trans (blockEnergies_take 5 _).symm⟩
  · intro h
    obtain ⟨hst, hen⟩ := h idx bands rfl
    exact ⟨hst.symm, (hen.trans (blockEnergies_take 5 _)).symm⟩

/-! ### Bands that are analysed alike -/

/-- The low band as the gain of the call leaves it; `none` if the call fails. -/
def scaledLowBand (s : LegacyAgc) (in_mic : List (List Int)) : Option (List Int) :=
  (micGain s in_mic).val.map fun r => r.2.headD []

/-- The decimator after so many samples `c` that nothing moves any more. -/
def atRest (c : Int) : FiltState :=
  ⟨c * 2 ^ 10, c * 2 ^ 10, c * 2 ^ 10, c * 2 ^ 10, c * 2 ^ 10, c * 2 ^ 10,
    c * 2 ^ 10, c * 2 ^ 10⟩

/-- A section gives out its last input if there is no difference to scale. -/
theorem scaleDiff32_zero {C : Int} (hC : InI32 C) (A : Int) : scaleDiff32 A 0 C = pure C := by
  unfold scaleDiff32
  simp only [Int.zero_ediv, Int.zero_emod, zero_mul]
  rw [ck32_eq (by decide), pure_bind, add_zero, ck32_eq hC, pure_bind, cku32_eq (by decide),
    pure_bind, Int.zero_ediv, add_zero, ck32_eq hC]

theorem allpassBranch_atRest {c : Int} (hc : InI16 c) (k0 k1 k2 : Int) :
    allpassBranch k0 k1 k2 c (c * 2 ^ 10) (c * 2 ^ 10) (c * 2 ^ 10) (c * 2 ^ 10) =
      pure (c * 2 ^ 10, c * 2 ^ 10, c * 2 ^ 10, c * 2 ^ 10) := by
  have hin : InI32 (c * 2 ^ 10) := by
    obtain ⟨h0, h1⟩ := hc
    constructor <;> omega
  have hdiff : ck32 (c * 2 ^ 10 - c * 2 ^ 10) = pure 0 := by
    rw [sub_self]
    exact ck32_eq (by decide)
  simp only [allpassBranch, ck32_eq hin, pure_bind, hdiff, scaleDiff32_zero hin]

/-- A decimator at rest stays there, and gives out what it gets. -/
theorem downsampleBy2_atRest {c : Int} (hc : InI16 c) : ∀ k : ℕ,
    downsampleBy2 (atRest c) (List.replicate (2 * k) c) = pure (atRest c, List.replicate k c)
  | 0 => rfl
  | k + 1 => by
    obtain ⟨h0, h1⟩ := hc
    have hsum : (c * 2 ^ 10 + c * 2 ^ 10 + 1024) / 2 ^ 11 = c := by omega
    have ih := downsampleBy2_atRest ⟨h0, h1⟩ k
    rw [show 2 * (k + 1) = 2 * k + 2 by ring, List.replicate_succ, List.replicate_succ,
      downsampleBy2]
    simp only [atRest, allpassBranch_atRest ⟨h0, h1⟩, pure_bind]
    rw [ck32_eq ⟨by omega, by omega⟩, pure_bind, ck32_eq ⟨by omega, by omega⟩, pure_bind,
      hsum, sat16_of ⟨h0, h1⟩]
    rw [atRest] at ih
    rw [ih, pure_bind, List.replicate_succ]

/-- The first cells of the branches hold the last two samples. -/
theorem downsampleBy2_last {xs : List Int} (heven : 2 ∣ xs.length) (a b : Int) (st : FiltState) :
    (downsampleBy2 st (xs ++ [a, b])).val.1.state0 = i32 (a * 2 ^ 10) ∧
      (downsampleBy2 st (xs ++ [a, b])).val.1.state4 = i32 (b * 2 ^ 10) := by
  have hcut : (downsampleBy2 st (xs ++ [a, b])).val.1 =
      (downsampleBy2 (downsampleBy2 st xs).val.1 [a, b]).val.1 :=
    congrArg Prod.snd (down_append xs [a, b] st heven)
  rw [hcut]
  exact ⟨rfl, rfl⟩

theorem split_last {band : List Int} (h : band.length = 160) :
    band = band.take 158 ++ [band.getD 158 0, band.getD 159 0] := by
  have hdrop : band.drop 158 = [band.getD 158 0, band.getD 159 0] := by
    rw [List.drop_eq_getElem_cons (by omega), List.drop_eq_getElem_cons (by omega),
      List.drop_eq_nil_of_le (by omega)]
    simp [h]
  rw [← hdrop, List.take_append_drop]

/-- At 32 and 48 kHz a call leaves what it leaves at 16 kHz if it fails, or if
the scaled low band is constant and the decimator at rest there. It does so only
if it fails, or if the last two samples of the scaled low band are those that the
decimator has stored already. -/
theorem rates_agree (s : LegacyAgc) {rate : Int} (hrate : rate = 32000 ∨ rate = 48000)
    {in_mic : List (List Int)} (hlen : (in_mic.headD []).length = 160) :
    ((scaledLowBand s in_mic = none ∨
        ∃ c, InI16 c ∧ scaledLowBand s in_mic = some (List.replicate 160 c) ∧
          s.filterState = atRest c) →
      lowBand (addMic { s with fs := rate } in_mic).val =
        lowBand (addMic { s with fs := 16000 } in_mic).val) ∧
    (lowBand (addMic { s with fs := rate } in_mic).val =
      lowBand (addMic { s with fs := 16000 } in_mic).val → ∀ band,
        scaledLowBand s in_mic = some band →
        s.filterState.state0 = i32 (band.getD 158 0 * 2 ^ 10) ∧
          s.filterState.state4 = i32 (band.getD 159 0 * 2 ^ 10)) := by
  rw [lowBand_rates_iff s hrate hlen]
  constructor
  · rintro (hnone | ⟨c, hc, hband, hrest⟩) idx bands hgain
    · rw [scaledLowBand, hgain] at hnone
      cases hnone
    · rw [scaledLowBand, hgain, Option.map_some, Option.some.injEq] at hband
      dsimp only at hband
      rw [hband, hrest, show (160 : ℕ) = 2 * 80 from rfl, downsampleBy2_atRest hc,
        List.take_replicate]
      exact ⟨rfl, rfl⟩
  · intro hsame band hband
    obtain ⟨⟨idx, bands⟩, hgain, rfl⟩ := Option.map_eq_some_iff.mp hband
    have hlast := split_last ((length_micGain hgain).trans hlen)
    obtain ⟨hst, -⟩ := hsame idx bands hgain
    have heven : 2 ∣ ((bands.headD []).take 158).length := by
      rw [List.length_take, (length_micGain hgain).trans hlen]
      decide
    have hcells := downsampleBy2_last heven ((bands.headD []).getD 158 0)
      ((bands.headD []).getD 159 0) s.filterState
    rw [← hlast, hst] at hcells
    exact hcells

/-- A level of 1000 that has been there for long. -/
theorem rates_agree_steady :
    lowBand (addMic { LegacyAgc.fresh kAgcModeAdaptiveAnalog with
      filterState := atRest 1000, fs := 48000 } [List.replicate 160 1000]).val =
      lowBand (addMic { LegacyAgc.fresh kAgcModeAdaptiveAnalog with
        filterState := atRest 1000, fs := 16000 }
        [List.replicate 160 1000]).val :=
  (rates_agree { LegacyAgc.fresh kAgcModeAdaptiveAnalog with filterState := atRest 1000 }
    (.inr rfl) rfl).1
    (.inr ⟨1000, by decide, rfl, rfl⟩)

/-- A step in the second half of the band is not seen at 32 kHz. -/
theorem rates_differ :
    (addMic { LegacyAgc.fresh kAgcModeAdaptiveAnalog with fs := 16000 }
        [List.replicate 80 0 ++ List.replicate 80 1000]).val.agc.Rxx16w32_array0 =
          [0, 0, 419893, 997731, 999649] ∧
      (addMic { LegacyAgc.fresh kAgcModeAdaptiveAnalog with fs := 32000 }
        [List.replicate 80 0 ++ List.replicate 80 1000]).val.agc.Rxx16w32_array0 =
          [0, 0, 0, 0, 0] := by
  decide +kernel

end MicRates
end AgcSpec
