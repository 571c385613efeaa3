/-
# Splitting and merging

What `WebRtcSpl_SynthesisQMF` makes of the two bands of `WebRtcSpl_AnalysisQMF`.
The analysis sends the odd samples through one chain of all-pass sections and
the even ones through another, and the bands are half the sum and half the
difference. The sum of the bands is then the odd samples again, their difference
the even ones, and the synthesis sends each through the other chain. So both
phases pass all six sections: the merged signal is the input through one all-pass
filter on each phase, nothing of one phase leaks into the other, and what is left
is rounding.

The bands are rounded to 16 bits, which the second chain can magnify; and they
are saturated, in which case nothing is reconstructed. The output is saturated as
well: six sections can make more of 16-bit samples than 16 bits hold, with bands
that are far from their ends.

* `split_merge_near`: over any sequence of frames, as long as no sample of a band
  is at an end of its range, the even samples of the output are within 8 of the
  even samples of the input through the six sections, saturated to 16 bits, and
  the odd ones within 13.
-/
import AgcSpec.QmfExact
import AgcSpec.Lib.AllPassSeries

namespace AgcSpec

open FixedPoint AllPass PowerSeries

namespace Reconstruction

/-! ### The chains beside their series -/

/-- A coefficient of a section, which is in Q16. -/
def ratio (a : Int) : ℚ := a / 2 ^ 16

/-- The three sections of a chain. -/
noncomputable def chain (c : Int × Int × Int) : ℚ⟦X⟧ :=
  transfer (ratio c.2.2) * (transfer (ratio c.2.1) * transfer (ratio c.1))

/-- Samples from number `n` on that are off by at most `δ` from a series. -/
inductive Near (δ : ℚ) (f : ℚ⟦X⟧) : ℕ → List Int → Prop
  | nil {n : ℕ} : Near δ f n []
  | cons {n : ℕ} {u : Int} {us : List Int} (first : |(u : ℚ) - coeff n f| ≤ δ)
    (next : Near δ f (n + 1) us) :
      Near δ f n (u :: us)

/-- A section that rounds down is off by less than one. -/
theorem exactSection_near (a x y u : Int) :
    |(exactSection a x y u : ℚ) - (x + ratio a * (u - y))| ≤ 1 := by
  have h0 := Int.emod_nonneg (a * (u - y)) (show (2 ^ 16 : Int) ≠ 0 by norm_num)
  have h1 := Int.emod_lt_of_pos (a * (u - y)) (show (0 : Int) < 2 ^ 16 by norm_num)
  have hsplit := Int.mul_ediv_add_emod (a * (u - y)) (2 ^ 16)
  have hv : exactSection a x y u = x + a * (u - y) / 2 ^ 16 := rfl
  generalize a * (u - y) / 2 ^ 16 = q at hsplit hv
  generalize a * (u - y) % 2 ^ 16 = r at hsplit h0 h1
  have hq : (a : ℚ) * (u - y) = 2 ^ 16 * q + r := by exact_mod_cast hsplit.symm
  have hr0 : (0 : ℚ) ≤ r := by exact_mod_cast h0
  have hr1 : (r : ℚ) ≤ 2 ^ 16 := by exact_mod_cast h1.le
  rw [hv, ratio, div_mul_eq_mul_div, hq, abs_le, Int.cast_add]
  constructor <;> linarith

variable {c : Int × Int × Int} {a : Int} {δ : ℚ} {f : ℚ⟦X⟧}

/-- A coefficient between 0 and 1. -/
def IsRatio (a : Int) : Prop := 0 ≤ ratio a ∧ ratio a < 1

theorem cascade_near (ha : IsRatio a) : ∀ (us : List Int) (n : ℕ) (x y : Int),
    Beside (ratio a) 1 δ f n x y → Near δ f n us →
    Near (spread (ratio a) 1 δ) (transfer (ratio a) * f) n (exactCascade a x y us).1 ∧
      Beside (ratio a) 1 δ f (n + us.length) (exactCascade a x y us).2.1
        (exactCascade a x y us).2.2
  | [], _, _, _, h, _ => ⟨.nil, h⟩
  | u :: us, n, x, y, h, .cons hu hus => by
    have hnext := h.next ha hu (exactSection_near a x y u)
    obtain ⟨hrest, hend⟩ := cascade_near ha us (n + 1) u _ hnext hus
    refine ⟨.cons (hnext.output_le ha.1) hrest, ?_⟩
    rw [List.length_cons, show n + (us.length + 1) = n + 1 + us.length by omega]
    exact hend

/-- The bound for the outputs of a chain. -/
def chainSpread (c : Int × Int × Int) (δ : ℚ) : ℚ :=
  spread (ratio c.2.2) 1 (spread (ratio c.2.1) 1 (spread (ratio c.1) 1 δ))

/-- The states of a chain before sample `n`. -/
structure ChainBeside (c : Int × Int × Int) (δ : ℚ) (f : ℚ⟦X⟧) (n : ℕ)
    (st : AllPassState) : Prop where
  first : Beside (ratio c.1) 1 δ f n st.x0 st.y0
  second : Beside (ratio c.2.1) 1 (spread (ratio c.1) 1 δ) (transfer (ratio c.1) * f) n st.x1 st.y1
  third : Beside (ratio c.2.2) 1 (spread (ratio c.2.1) 1 (spread (ratio c.1) 1 δ))
    (transfer (ratio c.2.1) * (transfer (ratio c.1) * f)) n st.x2 st.y2

/-- All three coefficients are between 0 and 1. -/
structure AreRatios (c : Int × Int × Int) : Prop where
  first : IsRatio c.1
  second : IsRatio c.2.1
  third : IsRatio c.2.2

theorem areRatios_filter1 : AreRatios kAllPassFilter1 := by
  constructor <;> norm_num [IsRatio, ratio, kAllPassFilter1]

theorem areRatios_filter2 : AreRatios kAllPassFilter2 := by
  constructor <;> norm_num [IsRatio, ratio, kAllPassFilter2]

theorem spread_nonneg (ha : IsRatio a) (hδ : 0 ≤ δ) : 0 ≤ spread (ratio a) 1 δ := by
  obtain ⟨h0, h1⟩ := ha
  exact add_nonneg (mul_nonneg (by linarith) hδ) (div_nonneg zero_le_one (by linarith))

theorem chainBeside_start (hc : AreRatios c) (hδ : 0 ≤ δ) : ChainBeside c δ f 0 .zero := by
  have h1 := spread_nonneg hc.first hδ
  have h2 := spread_nonneg hc.second h1
  have hzero : ((0 : Int) : ℚ) = 0 := Int.cast_zero
  constructor <;> simp only [AllPassState.zero, hzero]
  · exact Beside.start hc.first zero_le_one hδ
  · exact Beside.start hc.second zero_le_one h1
  · exact Beside.start hc.third zero_le_one h2

theorem length_exactCascade : ∀ (us : List Int) (x y : Int),
    (exactCascade a x y us).1.length = us.length
  | [], _, _ => rfl
  | u :: us, _, _ => congrArg Nat.succ (length_exactCascade us u _)

theorem length_exactAllPass (c : Int × Int × Int) (st : AllPassState) (us : List Int) :
    (exactAllPass c st us).1.length = us.length := by
  simp only [exactAllPass, length_exactCascade]

theorem chain_near (hc : AreRatios c) {n : ℕ} {st : AllPassState} (h : ChainBeside c δ f n st)
    {us : List Int} (hus : Near δ f n us) :
    Near (chainSpread c δ) (chain c * f) n (exactAllPass c st us).1 ∧
      ChainBeside c δ f (n + us.length) (exactAllPass c st us).2 := by
  obtain ⟨h0, he0⟩ := cascade_near hc.first us n _ _ h.first hus
  obtain ⟨h1, he1⟩ := cascade_near hc.second _ n _ _ h.second h0
  obtain ⟨h2, he2⟩ := cascade_near hc.third _ n _ _ h.third h1
  rw [length_exactCascade] at he1 he2
  rw [length_exactCascade] at he2
  refine ⟨?_, he0, he1, he2⟩
  rw [chain, mul_assoc, mul_assoc]
  exact h2

/-! ### The phases -/

/-- The even (`k = 0`) or the odd (`k = 1`) samples of a stream. -/
noncomputable def phase (x : ℕ → Int) (k : ℕ) : ℚ⟦X⟧ :=
  PowerSeries.mk fun n => (x (2 * n + k) : ℚ)

/-- The same in Q10. -/
noncomputable def phaseQ10 (x : ℕ → Int) (k : ℕ) : ℚ⟦X⟧ := C (2 ^ 10) * phase x k

/-- A frame that is the stream from sample `2 * n` on. -/
def Reads (x : ℕ → Int) (n : ℕ) (frame : List Sample) : Prop :=
  ∀ i < frame.length, (frame.getD i 0).val = x (2 * n + i)

theorem near_evenOdd {x : ℕ → Int} : ∀ (frame : List Sample) (n : ℕ), Reads x n frame →
    Near 0 (phaseQ10 x 0) n (evenOdd frame).1 ∧ Near 0 (phaseQ10 x 1) n (evenOdd frame).2
  | [], _, _ => ⟨.nil, .nil⟩
  | [_], _, _ => ⟨.nil, .nil⟩
  | a :: b :: rest, n, h => by
    have ha : a.val = x (2 * n + 0) := h 0 (by simp)
    have hb : b.val = x (2 * n + 1) := h 1 (by simp)
    have hrest : Reads x (n + 1) rest := by
      intro i hi
      have := h (i + 2) (by simpa using hi)
      rw [show 2 * (n + 1) + i = 2 * n + (i + 2) by ring]
      simpa using this
    obtain ⟨heven, hodd⟩ := near_evenOdd rest (n + 1) hrest
    have hexact : ∀ k, |((x (2 * n + k) * 2 ^ 10 : Int) : ℚ) - coeff n (phaseQ10 x k)| ≤
        0 := by
      intro k
      rw [phaseQ10, coeff_C_mul, phase, coeff_mk, Int.cast_mul, mul_comm]
      norm_num
    exact ⟨.cons (ha ▸ hexact 0) heven, .cons (hb ▸ hexact 1) hodd⟩

theorem length_evenOdd : ∀ frame : List Sample,
    (evenOdd frame).1.length = frame.length / 2 ∧ (evenOdd frame).2.length = frame.length / 2
  | [] => ⟨rfl, rfl⟩
  | [_] => by simp [evenOdd]
  | _ :: _ :: rest => by
    obtain ⟨h1, h2⟩ := length_evenOdd rest
    simp only [evenOdd, List.length_cons, h1, h2]
    omega

/-! ### From the analysis to the synthesis -/

/-- What is computed from two lists sample by sample, and is near the first. -/
theorem near_zip_fst {δ ε : ℚ} {f : ℚ⟦X⟧} {h : Int × Int → Int} :
    ∀ (us vs : List Int) (n : ℕ), Near δ f n us →
      (∀ p ∈ us.zip vs, |(h p : ℚ) - p.1| ≤ ε) → Near (ε + δ) f n ((us.zip vs).map h)
  | [], _, _, _, _ => .nil
  | _ :: _, [], _, _, _ => .nil
  | u :: us, v :: vs, n, .cons hu hus, hp => by
    refine .cons ?_ (near_zip_fst us vs (n + 1) hus fun p hp' => hp p (List.mem_cons_of_mem _ hp'))
    exact (abs_sub_le _ (u : ℚ) _).trans (add_le_add (hp (u, v) List.mem_cons_self) hu)

theorem near_zip_snd {δ ε : ℚ} {f : ℚ⟦X⟧} {h : Int × Int → Int} :
    ∀ (us vs : List Int) (n : ℕ), Near δ f n vs →
      (∀ p ∈ us.zip vs, |(h p : ℚ) - p.2| ≤ ε) → Near (ε + δ) f n ((us.zip vs).map h)
  | [], _, _, _, _ => .nil
  | _ :: _, [], _, _, _ => .nil
  | u :: us, v :: vs, n, .cons hv hvs, hp => by
    refine .cons ?_ (near_zip_snd us vs (n + 1) hvs fun p hp' => hp p (List.mem_cons_of_mem _ hp'))
    exact (abs_sub_le _ (v : ℚ) _).trans (add_le_add (hp (u, v) List.mem_cons_self) hv)

/-- The two bands, from the outputs of the two chains. -/
def low (p : Int × Int) : Sample := .sat ((p.1 + p.2 + 1024) / 2 ^ 11)
def high (p : Int × Int) : Sample := .sat ((p.1 - p.2 + 1024) / 2 ^ 11)

/-- A sample that has not been saturated, as far as can be told from it. -/
def Inside (s : Sample) : Prop := -2 ^ 15 < s.val ∧ s.val < 2 ^ 15 - 1

instance (s : Sample) : Decidable (Inside s) := inferInstanceAs (Decidable (_ ∧ _))

theorem sat_of_inside {z : Int} (h : Inside (.sat z)) : (Sample.sat z).val = z := by
  obtain ⟨h0, h1⟩ := h
  change -2 ^ 15 < sat16 z at h0
  change sat16 z < 2 ^ 15 - 1 at h1
  show sat16 z = z
  unfold sat16 at h0 h1 ⊢
  omega

/-- Their sum is twice the first, and their difference twice the second. -/
theorem bands_near {p : Int × Int} (hlow : Inside (low p)) (hhigh : Inside (high p)) :
    |((((low p).val + (high p).val) * 2 ^ 10 : Int) : ℚ) - p.1| ≤ 2 ^ 10 ∧
      |((((low p).val - (high p).val) * 2 ^ 10 : Int) : ℚ) - p.2| ≤ 2 ^ 10 := by
  have hl : (low p).val = _ := sat_of_inside hlow
  have hh : (high p).val = _ := sat_of_inside hhigh
  rw [hl, hh]
  constructor
  · have : |((p.1 + p.2 + 1024) / 2 ^ 11 + (p.1 - p.2 + 1024) / 2 ^ 11) * 2 ^ 10 - p.1| ≤
        2 ^ 10 := by
      rw [abs_le]
      constructor <;> omega
    exact_mod_cast this
  · have : |((p.1 + p.2 + 1024) / 2 ^ 11 - (p.1 - p.2 + 1024) / 2 ^ 11) * 2 ^ 10 - p.2| ≤
        2 ^ 10 := by
      rw [abs_le]
      constructor <;> omega
    exact_mod_cast this

/-! ### The output -/

/-- A value in the range of a sample. -/
def clamp (q : ℚ) : ℚ := max (-2 ^ 15) (min (2 ^ 15 - 1) q)

theorem sat_near (z : Int) (q : ℚ) : |((Sample.sat z).val : ℚ) - clamp q| ≤ |z - q| := by
  have hz : ((Sample.sat z).val : ℚ) = clamp z := by
    show ((sat16 z : Int) : ℚ) = max (-2 ^ 15) (min (2 ^ 15 - 1) (z : ℚ))
    have : sat16 z = max (-2 ^ 15) (min (2 ^ 15 - 1) z) := by
      unfold sat16
      omega
    rw [this]
    push_cast
    norm_num
  -- both the minimum and the maximum with a constant keep distances
  rw [hz, clamp, clamp]
  refine (abs_max_sub_max_le_max _ _ _ _).trans (max_le (by simp) ?_)
  exact (abs_min_sub_min_le_max _ _ _ _).trans (max_le (by simp) le_rfl)

/-- The six sections. -/
noncomputable def sixSections : ℚ⟦X⟧ := chain kAllPassFilter2 * chain kAllPassFilter1

/-- Two samples of the output, from the outputs of the two chains. -/
def outPair (p : Int × Int) : List Sample :=
  [.sat ((p.2 + 512) / 2 ^ 10), .sat ((p.1 + 512) / 2 ^ 10)]

/-- Two samples for every step from `n` on: one near the even samples of the
stream through the six sections, one near the odd ones. -/
inductive OutNear (x : ℕ → Int) : ℕ → List Sample → Prop
  | nil {n : ℕ} : OutNear x n []
  | cons {n : ℕ} {a b : Sample} {rest : List Sample}
      (even : |(a.val : ℚ) - clamp (coeff n (sixSections * phase x 0))| ≤ 8)
      (odd : |(b.val : ℚ) - clamp (coeff n (sixSections * phase x 1))| ≤ 13)
        (next : OutNear x (n + 1) rest) :
      OutNear x n (a :: b :: rest)

/-- A sample of the output, from the Q10 value of a chain. -/
theorem output_near {v : Int} {q δ : ℚ} (h : |(v : ℚ) - 2 ^ 10 * q| ≤ δ) :
    |((Sample.sat ((v + 512) / 2 ^ 10)).val : ℚ) - clamp q| ≤ (δ + 512) / 2 ^ 10 := by
  refine (sat_near _ _).trans ?_
  have hround : |(v + 512) / 2 ^ 10 * 2 ^ 10 - v| ≤ 512 := by
    rw [abs_le]
    constructor <;> omega
  generalize (v + 512) / 2 ^ 10 = z at hround ⊢
  have hround' : |(z : ℚ) * 2 ^ 10 - v| ≤ 512 := by exact_mod_cast hround
  rw [le_div_iff₀ (by norm_num), ← abs_of_pos (show (0 : ℚ) < 2 ^ 10 by norm_num),
    ← abs_mul]
  calc |((z : ℚ) - q) * 2 ^ 10| = |((z : ℚ) * 2 ^ 10 - v) + (v - 2 ^ 10 * q)| := by ring_nf
    _ ≤ |(z : ℚ) * 2 ^ 10 - v| + |v - 2 ^ 10 * q| := abs_add_le _ _
    _ ≤ δ + 512 := by linarith

theorem outNear_zip {x : ℕ → Int} {δ1 δ2 : ℚ} (h1 : δ1 + 512 ≤ 13 * 2 ^ 10)
    (h2 : δ2 + 512 ≤ 8 * 2 ^ 10) :
    ∀ (us vs : List Int) (n : ℕ), Near δ1 (C (2 ^ 10) * (sixSections * phase x 1)) n us →
    Near δ2 (C (2 ^ 10) * (sixSections * phase x 0)) n vs →
    OutNear x n ((us.zip vs).map outPair).flatten
  | [], _, _, _, _ => .nil
  | _ :: _, [], _, _, _ => .nil
  | u :: us, v :: vs, n, .cons hu hus, .cons hv hvs => by
    rw [coeff_C_mul] at hu hv
    refine .cons ((output_near hv).trans ?_) ((output_near hu).trans ?_)
      (outNear_zip h1 h2 us vs (n + 1) hus hvs)
    · rwa [div_le_iff₀ (by norm_num)]
    · rwa [div_le_iff₀ (by norm_num)]

/-! ### Frames -/

/-- A frame split and merged: the bands, the output and the states. -/
def splitMerge (st : TwoBandsStates) (frame : List Sample) :
    (List Sample × List Sample) × List Sample × TwoBandsStates :=
  let split := (analysisQMF frame st.analysis_state1 st.analysis_state2).val
  let merged := (synthesisQMF split.1.1 split.1.2 st.synthesis_state1 st.synthesis_state2).val
  (split.1, merged.1, ⟨split.2.1, split.2.2, merged.2.1, merged.2.2⟩)

/-- One frame after the other: the bands and the output of each. -/
def splitMergeAll :
    TwoBandsStates → List (List Sample) → List ((List Sample × List Sample) × List Sample)
  | _, [] => []
  | st, frame :: frames =>
    let r := splitMerge st frame
    (r.1, r.2.1) :: splitMergeAll r.2.2 frames

/-- The states before frame `n`, in range and beside their series. -/
structure Synced (x : ℕ → Int) (n : ℕ) (st : TwoBandsStates) : Prop where
  held1 : StateHeld kAllPassFilter1 (2 ^ 25) st.analysis_state1
  held2 : StateHeld kAllPassFilter2 (2 ^ 25) st.analysis_state2
  held3 : StateHeld kAllPassFilter2 (2 ^ 26) st.synthesis_state1
  held4 : StateHeld kAllPassFilter1 (2 ^ 26) st.synthesis_state2
  odd : ChainBeside kAllPassFilter1 0 (phaseQ10 x 1) n st.analysis_state1
  even : ChainBeside kAllPassFilter2 0 (phaseQ10 x 0) n st.analysis_state2
  sums : ChainBeside kAllPassFilter2 (2 ^ 10 + chainSpread kAllPassFilter1 0)
    (chain kAllPassFilter1 * phaseQ10 x 1) n
    st.synthesis_state1
  differences : ChainBeside kAllPassFilter1 (2 ^ 10 + chainSpread kAllPassFilter2 0)
    (chain kAllPassFilter2 * phaseQ10 x 0) n st.synthesis_state2

theorem chainSpread_nonneg {c : Int × Int × Int} {δ : ℚ} (hc : AreRatios c) (hδ : 0 ≤ δ) :
    0 ≤ chainSpread c δ :=
  spread_nonneg hc.third (spread_nonneg hc.second (spread_nonneg hc.first hδ))

theorem synced_zero (x : ℕ → Int) : Synced x 0 .zero where
  held1 := stateHeld_zero roomy_analysis1
  held2 := stateHeld_zero roomy_analysis2
  held3 := stateHeld_zero roomy_synthesis1
  held4 := stateHeld_zero roomy_synthesis2
  odd := chainBeside_start areRatios_filter1 le_rfl
  even := chainBeside_start areRatios_filter2 le_rfl
  sums := chainBeside_start areRatios_filter2
    (add_nonneg (by norm_num) (chainSpread_nonneg areRatios_filter1 le_rfl))
  differences :=
    chainBeside_start areRatios_filter1
      (add_nonneg (by norm_num) (chainSpread_nonneg areRatios_filter2 le_rfl))

/-- The outputs of the two chains of the analysis, in pairs. -/
def analysed (st : TwoBandsStates) (frame : List Sample) : List (Int × Int) :=
  (exactAllPass kAllPassFilter1 st.analysis_state1 (evenOdd frame).2).1.zip
    (exactAllPass kAllPassFilter2 st.analysis_state2 (evenOdd frame).1).1

theorem length_analysed (st : TwoBandsStates) (frame : List Sample) :
    (analysed st frame).length = frame.length / 2 := by
  obtain ⟨h1, h2⟩ := length_evenOdd frame
  rw [analysed, List.length_zip, length_exactAllPass, length_exactAllPass, h1, h2, min_self]

variable {x : ℕ → Int} {n : ℕ} {st : TwoBandsStates} {frame : List Sample}

theorem analysisQMF_eq (h : Synced x n st) (hframe : IsFrame frame) :
    analysisQMF frame st.analysis_state1 st.analysis_state2 =
      pure (((analysed st frame).map low, (analysed st frame).map high),
        (exactAllPass kAllPassFilter1 st.analysis_state1 (evenOdd frame).2).2,
        (exactAllPass kAllPassFilter2 st.analysis_state2 (evenOdd frame).1).2) := by
  obtain ⟨heven, hodd⟩ := evenOdd_le frame
  obtain ⟨-, hq1, -⟩ := filter_exact roomy_analysis1 h.held1 hodd
  obtain ⟨-, hq2, -⟩ := filter_exact roomy_analysis2 h.held2 heven
  obtain ⟨hexact, -⟩ := @analysis_exact (st.analysis_state1, st.analysis_state2) h.held1 h.held2
    frame hframe
  have hsums := hexact.sums
  have hhalf : frame.length / 2 ≤ 320 := Nat.div_le_of_le_mul hframe.2.1
  unfold analysisQMF
  rw [flag_eq hhalf, pure_bind, hq1, pure_bind, hq2, pure_bind,
    mapM_eq_pure (g := low) _ fun p hp => ?_, pure_bind, mapM_eq_pure (g := high) _ fun p hp =>
      ?_, pure_bind]
  · rfl
  · obtain ⟨-, -, h, h'⟩ := hsums p hp
    rw [ck32_eq h, pure_bind, ck32_eq h', pure_bind]
    rfl
  · obtain ⟨h, h', -⟩ := hsums p hp
    rw [ck32_eq h, pure_bind, ck32_eq h', pure_bind]
    rfl

theorem synthesisQMF_eq (h : Synced x n st) {bands : List Sample × List Sample}
    (hbands : AreBands bands) :
    synthesisQMF bands.1 bands.2 st.synthesis_state1 st.synthesis_state2 =
      pure ((((exactAllPass kAllPassFilter2 st.synthesis_state1 (bandSums bands)).1.zip
          (exactAllPass kAllPassFilter1 st.synthesis_state2 (bandDifferences bands)).1).map
            outPair).flatten,
        (exactAllPass kAllPassFilter2 st.synthesis_state1 (bandSums bands)).2,
        (exactAllPass kAllPassFilter1 st.synthesis_state2 (bandDifferences bands)).2) := by
  obtain ⟨-, hq1, hv1, -⟩ := filter_exact roomy_synthesis1 h.held3 (bandSums_le bands)
  obtain ⟨-, hq2, hv2, -⟩ := filter_exact roomy_synthesis2 h.held4 (bandDifferences_le bands)
  have hpeak : filterPeak kAllPassFilter2 (2 ^ 26) < 2 ^ 31 - 2 ^ 16 ∧ filterPeak kAllPassFilter1
      (2 ^ 26) < 2 ^ 31 - 2 ^ 16 := by
    decide
  unfold synthesisQMF
  rw [flag_eq hbands.2.1, pure_bind]
  change (allPassQMF kAllPassFilter2 st.synthesis_state1 (bandSums bands) >>= fun filter1 =>
    allPassQMF kAllPassFilter1 st.synthesis_state2 (bandDifferences bands) >>= _) = _
  rw [hq1, pure_bind, hq2, pure_bind, mapM_eq_pure (g := outPair) _ fun p hp => ?_, pure_bind]
  have hp1 := abs_le.mp (hv1 p.1 (List.of_mem_zip hp).1)
  have hp2 := abs_le.mp (hv2 p.2 (List.of_mem_zip hp).2)
  rw [ck32_eq ⟨by omega, by omega⟩, pure_bind, ck32_eq ⟨by omega, by omega⟩, pure_bind]
  rfl

theorem chainSpread_odd :
    chainSpread kAllPassFilter2 (2 ^ 10 + chainSpread kAllPassFilter1 0) + 512 ≤ 13 * 2 ^ 10 := by
  norm_num [chainSpread, spread, ratio, kAllPassFilter1, kAllPassFilter2]

theorem chainSpread_even :
    chainSpread kAllPassFilter1 (2 ^ 10 + chainSpread kAllPassFilter2 0) + 512 ≤ 8 * 2 ^ 10 := by
  norm_num [chainSpread, spread, ratio, kAllPassFilter1, kAllPassFilter2]

/-- The bands of a frame, without the checks. -/
def bandsOf (st : TwoBandsStates) (frame : List Sample) : List Sample × List Sample :=
  ((analysed st frame).map low, (analysed st frame).map high)

/-- The outputs of the two chains of the synthesis, in pairs. -/
def synthesised (st : TwoBandsStates) (bands : List Sample × List Sample) : List (Int × Int) :=
  (exactAllPass kAllPassFilter2 st.synthesis_state1 (bandSums bands)).1.zip
    (exactAllPass kAllPassFilter1 st.synthesis_state2 (bandDifferences bands)).1

theorem areBands_bandsOf (hframe : IsFrame frame) : AreBands (bandsOf st frame) := by
  obtain ⟨h0, h1, h2⟩ := hframe
  refine ⟨?_, ?_, ?_⟩ <;> simp only [bandsOf, List.length_map, length_analysed] <;> omega

theorem splitMerge_eq (h : Synced x n st) (hframe : IsFrame frame) :
    splitMerge st frame =
      (bandsOf st frame, ((synthesised st (bandsOf st frame)).map outPair).flatten,
        ⟨(exactAllPass kAllPassFilter1 st.analysis_state1 (evenOdd frame).2).2,
          (exactAllPass kAllPassFilter2 st.analysis_state2 (evenOdd frame).1).2,
          (exactAllPass kAllPassFilter2 st.synthesis_state1 (bandSums (bandsOf st frame))).2,
          (exactAllPass kAllPassFilter1 st.synthesis_state2
            (bandDifferences (bandsOf st frame))).2⟩) := by
  have hbands : AreBands (bandsOf st frame) := areBands_bandsOf hframe
  have hmerge := synthesisQMF_eq h hbands
  have hsplit := analysisQMF_eq h hframe
  rw [show ((analysed st frame).map low, (analysed st frame).map high) = bandsOf st frame from rfl]
    at hsplit
  simp only [splitMerge, hsplit, Chk.val_pure, hmerge, synthesised]

/-- What the synthesis starts from: the sums and the differences of the bands are
near the outputs of the analysis. -/
theorem near_bands (h : Synced x n st) (hreads : Reads x n frame)
    (hinside : ∀ s ∈ (bandsOf st frame).1 ++ (bandsOf st frame).2, Inside s) :
    Near (2 ^ 10 + chainSpread kAllPassFilter1 0) (chain kAllPassFilter1 * phaseQ10 x 1) n
      (bandSums (bandsOf st frame)) ∧ Near (2 ^ 10 + chainSpread kAllPassFilter2 0)
      (chain kAllPassFilter2 * phaseQ10 x 0) n
        (bandDifferences (bandsOf st frame)) := by
  obtain ⟨heven, hodd⟩ := near_evenOdd frame n hreads
  have hp : ∀ p ∈ analysed st frame, Inside (low p) ∧ Inside (high p) := fun p hp =>
    ⟨hinside _ (List.mem_append_left _ (List.mem_map_of_mem hp)),
      hinside _ (List.mem_append_right _ (List.mem_map_of_mem hp))⟩
  rw [bandSums, bandDifferences, bandsOf, List.zip_map', List.map_map, List.map_map]
  exact ⟨near_zip_fst _ _ n (chain_near areRatios_filter1 h.odd hodd).1 fun p hmem =>
      (bands_near (hp p hmem).1 (hp p hmem).2).1,
    near_zip_snd _ _ n (chain_near areRatios_filter2 h.even heven).1 fun p hmem =>
      (bands_near (hp p hmem).1 (hp p hmem).2).2⟩

theorem length_bandSums : (bandSums (bandsOf st frame)).length = frame.length / 2 ∧
    (bandDifferences (bandsOf st frame)).length = frame.length / 2 := by
  simp only [bandSums, bandDifferences, bandsOf, List.length_map, List.length_zip, length_analysed,
    min_self, and_self]

theorem length_outPairs (ps : List (Int × Int)) :
    (ps.map outPair).flatten.length = 2 * ps.length := by
  induction ps with
  | nil => rfl
  | cons p ps ih =>
    rw [List.map_cons, List.flatten_cons, List.length_append, ih, List.length_cons]
    simp only [outPair, List.length_cons, List.length_nil]
    omega

theorem Synced.next (h : Synced x n st) (hframe : IsFrame frame) (hreads : Reads x n frame)
    (hinside : ∀ s ∈ (splitMerge st frame).1.1 ++ (splitMerge st frame).1.2, Inside s) :
    OutNear x n (splitMerge st frame).2.1 ∧ (splitMerge st frame).2.1.length = frame.length ∧
      Synced x (n + frame.length / 2) (splitMerge st frame).2.2 := by
  rw [splitMerge_eq h hframe] at hinside ⊢
  obtain ⟨heven, hodd⟩ := near_evenOdd frame n hreads
  obtain ⟨hsums, hdiffs⟩ := near_bands h hreads hinside
  obtain ⟨hlength2, hlength1⟩ := length_evenOdd frame
  obtain ⟨hlength3, hlength4⟩ := @length_bandSums st frame
  obtain ⟨hevens, hodds⟩ := evenOdd_le frame
  have h1 := chain_near areRatios_filter1 h.odd hodd
  have h2 := chain_near areRatios_filter2 h.even heven
  have h3 := chain_near areRatios_filter2 h.sums hsums
  have h4 := chain_near areRatios_filter1 h.differences hdiffs
  rw [hlength1] at h1
  rw [hlength2] at h2
  rw [hlength3] at h3
  rw [hlength4] at h4
  refine ⟨?_, ?_, ?_⟩
  · have hphase1 : chain kAllPassFilter2 * (chain kAllPassFilter1 * phaseQ10 x 1) =
        C (2 ^ 10) * (sixSections * phase x 1) := by
      rw [phaseQ10, sixSections]
      ring
    have hphase0 : chain kAllPassFilter1 * (chain kAllPassFilter2 * phaseQ10 x 0) =
        C (2 ^ 10) * (sixSections * phase x 0) := by
      rw [phaseQ10, sixSections]
      ring
    rw [hphase1] at h3
    rw [hphase0] at h4
    dsimp only
    rw [synthesised]
    exact outNear_zip chainSpread_odd chainSpread_even _ _ n h3.1 h4.1
  · rw [length_outPairs, synthesised, List.length_zip, length_exactAllPass, length_exactAllPass,
      hlength3, hlength4, min_self]
    have := hframe.2.2
    omega
  · exact ⟨(filter_exact roomy_analysis1 h.held1 hodds).2.2.2,
      (filter_exact roomy_analysis2 h.held2 hevens).2.2.2,
      (filter_exact roomy_synthesis1 h.held3 (bandSums_le _)).2.2.2,
      (filter_exact roomy_synthesis2 h.held4 (bandDifferences_le _)).2.2.2, h1.2,
      h2.2, h3.2, h4.2⟩

/-! ### Streams -/

theorem OutNear.append {out rest : List Sample} (h : OutNear x n out)
    (hrest : OutNear x (n + out.length / 2) rest) : OutNear x n (out ++ rest) := by
  induction h with
  | nil => exact hrest
  | @cons n a b out even odd _ ih =>
    refine .cons even odd (ih ?_)
    rw [show n + 1 + out.length / 2 = n + (a :: b :: out).length /
      2 by simp only [List.length_cons]; omega]
    exact hrest

theorem OutNear.getD {out : List Sample} (h : OutNear x n out) : ∀ i, 2 * i + 1 < out.length →
    |((out.getD (2 * i) 0).val : ℚ) - clamp (coeff (n + i) (sixSections * phase x 0))| ≤ 8 ∧
      |((out.getD (2 * i + 1) 0).val : ℚ) - clamp (coeff (n + i) (sixSections * phase x 1))| ≤
        13 := by
  induction h with
  | nil => exact fun i hi => absurd hi (by simp)
  | @cons n a b out even odd _ ih =>
    intro i hi
    cases i with
    | zero => exact ⟨even, odd⟩
    | succ i =>
      have := ih i (by simp only [List.length_cons] at hi; omega)
      rw [show n + 1 + i = n + (i + 1) by omega] at this
      rw [show 2 * (i + 1) = 2 * i + 2 by ring]
      exact this

theorem splitMergeAll_cons (st : TwoBandsStates) (frame : List Sample)
    (frames : List (List Sample)) :
    splitMergeAll st (frame :: frames) =
      ((splitMerge st frame).1, (splitMerge st frame).2.1) ::
        splitMergeAll (splitMerge st frame).2.2 frames := rfl

theorem splitMergeAll_near (frames : List (List Sample)) : ∀ (n : ℕ) (st : TwoBandsStates),
    Synced x n st → (∀ frame ∈ frames, IsFrame frame) → Reads x n frames.flatten →
    (∀ r ∈ splitMergeAll st frames, ∀ s ∈ r.1.1 ++ r.1.2, Inside s) →
    OutNear x n ((splitMergeAll st frames).map (·.2)).flatten ∧
      ((splitMergeAll st frames).map (·.2)).flatten.length = frames.flatten.length := by
  induction frames with
  | nil => exact fun _ _ _ _ _ _ => ⟨.nil, rfl⟩
  | cons frame frames ih =>
    intro n st h hframes hreads hinside
    have hframe := hframes frame List.mem_cons_self
    have heven := hframe.2.2
    have hfirst : Reads x n frame := by
      intro i hi
      rw [← hreads i (by rw [List.flatten_cons, List.length_append]; omega), List.flatten_cons,
        List.getD_append _ _ _ _ hi]
    have hrest : Reads x (n + frame.length / 2) frames.flatten := by
      intro i hi
      have := hreads (frame.length + i) (by rw [List.flatten_cons, List.length_append]; omega)
      rw [List.flatten_cons, List.getD_append_right _ _ _ _ (by omega), Nat.add_sub_cancel_left]
        at this
      rw [this, show 2 * (n + frame.length / 2) + i = 2 * n + (frame.length + i) by omega]
    rw [splitMergeAll_cons] at hinside ⊢
    obtain ⟨hinside, hinsides⟩ := List.forall_mem_cons.mp hinside
    obtain ⟨hout, hlength, hnext⟩ := h.next hframe hfirst hinside
    obtain ⟨ihout, ihlength⟩ :=
      ih _ _ hnext (fun f hf => hframes f (List.mem_cons_of_mem _ hf)) hrest hinsides
    rw [← hlength] at ihout
    have hall := hout.append ihout
    rw [List.map_cons, List.flatten_cons, List.flatten_cons, List.length_append,
      List.length_append, ihlength]
    dsimp only
    exact ⟨hall, by rw [hlength]⟩

/-- The samples of some frames as a stream. -/
def streamOf (frames : List (List Sample)) (i : ℕ) : Int := (frames.flatten.getD i 0).val

/-- The output for the frames, from the states of the constructor. -/
def merged (frames : List (List Sample)) : List Sample :=
  ((splitMergeAll .zero frames).map (·.2)).flatten

/-- The merged signal is the input through one all-pass filter on each of its
phases, saturated to 16 bits, up to rounding, as long as no sample of a band is at
an end of its range. -/
theorem split_merge_near (frames : List (List Sample))
    (hframes : ∀ frame ∈ frames, IsFrame frame)
    (hinside : ∀ r ∈ splitMergeAll .zero frames, ∀ s ∈ r.1.1 ++ r.1.2, Inside s) :
    (merged frames).length = frames.flatten.length ∧ ∀ i, 2 * i + 1 < (merged frames).length →
      |(((merged frames).getD (2 * i) 0).val : ℚ) -
        clamp (coeff i (sixSections * phase (streamOf frames) 0))| ≤ 8 ∧
        |(((merged frames).getD (2 * i + 1) 0).val : ℚ) -
          clamp (coeff i (sixSections * phase (streamOf frames) 1))| ≤ 13 := by
  have hreads : Reads (streamOf frames) 0 frames.flatten := by
    intro i _
    rw [Nat.mul_zero, Nat.zero_add]
    rfl
  obtain ⟨hnear, hlength⟩ :=
    splitMergeAll_near frames 0 .zero (synced_zero _) hframes hreads hinside
  refine ⟨hlength, fun i hi => ?_⟩
  have := hnear.getD i hi
  rwa [Nat.zero_add] at this

/-- Two frames, of four samples and of two. -/
def click : List (List Sample) :=
  [[⟨1000, by decide⟩, 0, 0, ⟨-500, by decide⟩], [0, ⟨7, by decide⟩]]

theorem split_merge_near_click : (merged click).length = 6 ∧
    |(((merged click).getD 0 0).val : ℚ) -
      clamp (coeff 0 (sixSections * phase (streamOf click) 0))| ≤ 8 := by
  have h := split_merge_near click (by unfold IsFrame; decide) (by decide)
  exact ⟨h.1, (h.2 0 (by rw [h.1]; decide)).1⟩

end Reconstruction
end AgcSpec
