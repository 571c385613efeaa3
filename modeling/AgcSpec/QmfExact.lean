/-
# The band splitting is exact

`WebRtcSpl_AnalysisQMF` and `WebRtcSpl_SynthesisQMF` send two sequences through
three all-pass sections each, with coefficients up to 0.96. A comment in the
filter takes its values to be at most 2^25; the sums and differences of two
bands have 2^26 where they enter, and the sections can make twelve times as
much of them. This still fits: for every sequence of frames from the states 0
no subtraction saturates, every product is exact, and so are the sums
(`qmf_exact`).

The filter reads the first sample before its loop and saves the last one, so a
frame has at least one sample for each band.
-/
import AgcSpec.AllPassExact
import AgcSpec.SplittingFilter

namespace AgcSpec

open FixedPoint Runs

/-! ### A section over a block -/

/-- A section in exact arithmetic, over a block. -/
def exactCascade (a : Int) : Int → Int → List Int → List Int × Int × Int
  | x, y, [] => ([], x, y)
  | x, y, u :: us =>
    let r := exactCascade a u (exactSection a x y u) us
    (exactSection a x y u :: r.1, r.2)

/-- At every sample of the block the subtraction does not saturate and the
product is exact. -/
def CascadeExact (a : Int) : Int → Int → List Int → Prop
  | _, _, [] => True
  | x, y, u :: us =>
    subSatW32 u y = u - y ∧ scaleDiff32 a (u - y) x = pure (x + a * (u - y) / 65536) ∧
      CascadeExact a u (exactSection a x y u) us

theorem subSatW32_eq {u y : Int} (h : InI32 (u - y)) : subSatW32 u y = u - y := by
  unfold subSatW32
  rw [i32_of h]
  by_cases hu : u < 0
  · by_cases hy : y < 0
    · simp [hu, hy]
    · simp [hu, hy, show u - y < 0 by omega]
  · by_cases hy : y < 0
    · simp [hu, hy, show ¬ u - y < 0 by omega]
    · simp [hu, hy]

theorem cascade_exact {a X : Int} (ha : 0 ≤ a ∧ a < 2 ^ 16)
    (hX : X + peak a X < 2 ^ 31 - 2 ^ 16) :
    ∀ {us : List Int} {x y : Int}, SectionHeld a X x y → (∀ u ∈ us, |u| ≤ X) →
      CascadeExact a x y us ∧ allPassCascade a x y us = pure (exactCascade a x y us) ∧
        (∀ v ∈ (exactCascade a x y us).1, |v| ≤ peak a X) ∧
        SectionHeld a X (exactCascade a x y us).2.1 (exactCascade a x y us).2.2
  | [], _, _, h, _ => ⟨trivial, rfl, fun _ hv => absurd hv List.not_mem_nil, h⟩
  | u :: us, x, y, h, hus => by
    obtain ⟨hdiff, hmul, hv, hnext⟩ := section_exact ha h (hus u List.mem_cons_self) hX
    obtain ⟨hrest, heq, hout, hend⟩ := cascade_exact ha hX hnext fun w hw =>
      hus w (List.mem_cons_of_mem u hw)
    refine ⟨⟨subSatW32_eq hdiff, hmul, hrest⟩, ?_, ?_, hend⟩
    · rw [allPassCascade, subSatW32_eq hdiff, hmul, pure_bind, heq]
      rfl
    · intro w hw
      rcases List.mem_cons.mp hw with rfl | hw
      · exact hv
      · exact hout w hw

/-! ### The filter -/

/-- The three sections in exact arithmetic. -/
def exactAllPass (c : Int × Int × Int) (st : AllPassState) (us : List Int) :
    List Int × AllPassState :=
  let p := exactCascade c.1 st.x0 st.y0 us
  let q := exactCascade c.2.1 st.x1 st.y1 p.1
  let r := exactCascade c.2.2 st.x2 st.y2 q.1
  (r.1, ⟨p.2.1, p.2.2, q.2.1, q.2.2, r.2.1, r.2.2⟩)

/-- All three sections are exact on the block. -/
structure FilterExact (c : Int × Int × Int) (st : AllPassState) (us : List Int) : Prop where
  first : CascadeExact c.1 st.x0 st.y0 us
  second : CascadeExact c.2.1 st.x1 st.y1 (exactCascade c.1 st.x0 st.y0 us).1
  third : CascadeExact c.2.2 st.x2 st.y2
    (exactCascade c.2.1 st.x1 st.y1 (exactCascade c.1 st.x0 st.y0 us).1).1

/-- The states while the inputs are at most `X`. -/
structure StateHeld (c : Int × Int × Int) (X : Int) (st : AllPassState) : Prop where
  first : SectionHeld c.1 X st.x0 st.y0
  second : SectionHeld c.2.1 (peak c.1 X) st.x1 st.y1
  third : SectionHeld c.2.2 (peak c.2.1 (peak c.1 X)) st.x2 st.y2

/-- A bound for the outputs. -/
def filterPeak (c : Int × Int × Int) (X : Int) : Int := peak c.2.2 (peak c.2.1 (peak c.1 X))

namespace AllPassState

/-- The states after the constructor. -/
def zero : AllPassState := ⟨0, 0, 0, 0, 0, 0⟩

end AllPassState

section Filter

variable {c : Int × Int × Int} {X : Int}

theorem stateHeld_zero (hc : Roomy c.1 c.2.1 c.2.2 X) : StateHeld c X .zero := by
  obtain ⟨h0, h1, h2⟩ := branchHeld_zero hc
  exact ⟨h0, h1, h2⟩

theorem filter_exact (hc : Roomy c.1 c.2.1 c.2.2 X) {st : AllPassState} (h : StateHeld c X st)
    {us : List Int} (hus : ∀ u ∈ us, |u| ≤ X) :
    FilterExact c st us ∧ allPassQMF c st us = pure (exactAllPass c st us) ∧
      (∀ v ∈ (exactAllPass c st us).1, |v| ≤ filterPeak c X) ∧
        StateHeld c X (exactAllPass c st us).2 := by
  obtain ⟨h0, h1, h2, -, hX0, hX1, hX2⟩ := hc
  obtain ⟨he0, hq0, hv0, hh0⟩ := cascade_exact h0 hX0 h.first hus
  obtain ⟨he1, hq1, hv1, hh1⟩ := cascade_exact h1 hX1 h.second hv0
  obtain ⟨he2, hq2, hv2, hh2⟩ := cascade_exact h2 hX2 h.third hv1
  refine ⟨⟨he0, he1, he2⟩, ?_, hv2, ⟨hh0, hh1, hh2⟩⟩
  rw [allPassQMF, hq0, pure_bind, hq1, pure_bind, hq2, pure_bind]
  rfl

end Filter

/-! ### Analysis -/

/-- A frame: an even number of samples, up to 640. -/
def IsFrame (in_data : List Sample) : Prop :=
  0 < in_data.length ∧ in_data.length ≤ 640 ∧ in_data.length % 2 = 0

/-- A call of `WebRtcSpl_AnalysisQMF` on a frame, and the two states after it. -/
def AnalysisCall (s : AllPassState × AllPassState) (in_data : List Sample)
    (s' : AllPassState × AllPassState) : Prop :=
  IsFrame in_data ∧ (analysisQMF in_data s.1 s.2).val.2 = s'

/-- Both filters are exact, and the sums of their outputs fit. -/
structure AnalysisExact (s : AllPassState × AllPassState) (in_data : List Sample) : Prop where
  filter1 : FilterExact kAllPassFilter1 s.1 (evenOdd in_data).2
  filter2 : FilterExact kAllPassFilter2 s.2 (evenOdd in_data).1
  sums : ∀ p ∈ (exactAllPass kAllPassFilter1 s.1 (evenOdd in_data).2).1.zip
      (exactAllPass kAllPassFilter2 s.2 (evenOdd in_data).1).1,
    InI32 (p.1 + p.2) ∧ InI32 (p.1 + p.2 + 1024) ∧ InI32 (p.1 - p.2) ∧
      InI32 (p.1 - p.2 + 1024)
  ok : (analysisQMF in_data s.1 s.2).ok = true

theorem evenOdd_le : ∀ (in_data : List Sample),
    (∀ u ∈ (evenOdd in_data).1, |u| ≤ 2 ^ 25) ∧ ∀ u ∈ (evenOdd in_data).2,
      |u| ≤ 2 ^ 25
  | [] => by simp [evenOdd]
  | [_] => by simp [evenOdd]
  | a :: b :: rest => by
    obtain ⟨h1, h2⟩ := evenOdd_le rest
    have hq10 : ∀ x : Sample, |x.val * 2 ^ 10| ≤ 2 ^ 25 := by
      intro x
      obtain ⟨hx0, hx1⟩ := x.2
      exact abs_le.mpr ⟨by omega, by omega⟩
    simp only [evenOdd, List.forall_mem_cons]
    exact ⟨⟨hq10 a, h1⟩, hq10 b, h2⟩

theorem roomy_analysis1 : Roomy kAllPassFilter1.1 kAllPassFilter1.2.1 kAllPassFilter1.2.2
    (2 ^ 25) := by decide

theorem roomy_analysis2 : Roomy kAllPassFilter2.1 kAllPassFilter2.2.1 kAllPassFilter2.2.2
    (2 ^ 25) := by decide

theorem analysis_exact {s : AllPassState × AllPassState}
    (h1 : StateHeld kAllPassFilter1 (2 ^ 25) s.1) (h2 : StateHeld kAllPassFilter2 (2 ^ 25) s.2)
    {in_data : List Sample} (hframe : IsFrame in_data) :
    AnalysisExact s in_data ∧ StateHeld kAllPassFilter1 (2 ^ 25)
      (analysisQMF in_data s.1 s.2).val.2.1 ∧
      StateHeld kAllPassFilter2 (2 ^ 25) (analysisQMF in_data s.1 s.2).val.2.2 := by
  obtain ⟨heven, hodd⟩ := evenOdd_le in_data
  obtain ⟨he1, hq1, hv1, hh1⟩ := filter_exact roomy_analysis1 h1 hodd
  obtain ⟨he2, hq2, hv2, hh2⟩ := filter_exact roomy_analysis2 h2 heven
  have hpeak : filterPeak kAllPassFilter1 (2 ^ 25) + filterPeak kAllPassFilter2 (2 ^ 25) <
    2 ^ 31 - 2 ^ 16 := by decide
  have hsums : ∀ p ∈ (exactAllPass kAllPassFilter1 s.1 (evenOdd in_data).2).1.zip
      (exactAllPass kAllPassFilter2 s.2 (evenOdd in_data).1).1,
      InI32 (p.1 + p.2) ∧ InI32 (p.1 + p.2 + 1024) ∧ InI32 (p.1 - p.2) ∧
        InI32 (p.1 - p.2 + 1024) := by
    intro p hp
    have hp1 := abs_le.mp (hv1 p.1 (List.of_mem_zip hp).1)
    have hp2 := abs_le.mp (hv2 p.2 (List.of_mem_zip hp).2)
    refine ⟨⟨?_, ?_⟩, ⟨?_, ?_⟩, ⟨?_, ?_⟩, ⟨?_, ?_⟩⟩ <;> omega
  have hhalf : in_data.length / 2 ≤ 320 := Nat.div_le_of_le_mul hframe.2.1
  unfold analysisQMF
  rw [flag_eq hhalf, pure_bind, hq1, pure_bind, hq2, pure_bind]
  refine ⟨⟨he1, he2, hsums, ?_⟩, hh1, hh2⟩
  unfold analysisQMF
  rw [flag_eq hhalf, pure_bind, hq1, pure_bind, hq2, pure_bind]
  simp only [Chk.ok_bind, Chk.ok_pure, Bool.and_true, Bool.and_eq_true]
  constructor
  · refine ok_mapM_iff.mpr fun p hp => ?_
    obtain ⟨h, h', -⟩ := hsums p hp
    rw [ck32_eq h, pure_bind, ck32_eq h']
    rfl
  · refine ok_mapM_iff.mpr fun p hp => ?_
    obtain ⟨-, -, h, h'⟩ := hsums p hp
    rw [ck32_eq h, pure_bind, ck32_eq h']
    rfl

/-! ### Synthesis -/

/-- Two bands of one length, up to 320. -/
def AreBands (bands : List Sample × List Sample) : Prop :=
  0 < bands.1.length ∧ bands.1.length ≤ 320 ∧ bands.2.length = bands.1.length

/-- A call of `WebRtcSpl_SynthesisQMF` on a low and a high band, and the two
states after it. -/
def SynthesisCall (s : AllPassState × AllPassState) (bands : List Sample × List Sample)
    (s' : AllPassState × AllPassState) : Prop :=
  AreBands bands ∧ (synthesisQMF bands.1 bands.2 s.1 s.2).val.2 = s'

/-- The sums and the differences of two bands, in Q10. -/
def bandSums (bands : List Sample × List Sample) : List Int :=
  (bands.1.zip bands.2).map fun p => (p.1.val + p.2.val) * 2 ^ 10

def bandDifferences (bands : List Sample × List Sample) : List Int :=
  (bands.1.zip bands.2).map fun p => (p.1.val - p.2.val) * 2 ^ 10

/-- Both filters are exact, and so is what is computed with their outputs. -/
structure SynthesisExact (s : AllPassState × AllPassState) (bands : List Sample × List Sample) :
    Prop where
  filter1 : FilterExact kAllPassFilter2 s.1 (bandSums bands)
  filter2 : FilterExact kAllPassFilter1 s.2 (bandDifferences bands)
  ok : (synthesisQMF bands.1 bands.2 s.1 s.2).ok = true

theorem band_le (x y : Sample) :
    |(x.val + y.val) * 2 ^ 10| ≤ 2 ^ 26 ∧ |(x.val - y.val) * 2 ^ 10| ≤ 2 ^ 26 := by
  obtain ⟨h0, h1⟩ := x.2
  obtain ⟨h2, h3⟩ := y.2
  constructor <;> rw [abs_le] <;> omega

theorem bandSums_le (bands : List Sample × List Sample) : ∀ u ∈ bandSums bands,
    |u| ≤ 2 ^ 26 := by
  intro u hu
  obtain ⟨p, -, rfl⟩ := List.mem_map.mp hu
  exact (band_le p.1 p.2).1

theorem bandDifferences_le (bands : List Sample × List Sample) : ∀ u ∈ bandDifferences bands,
    |u| ≤ 2 ^ 26 := by
  intro u hu
  obtain ⟨p, -, rfl⟩ := List.mem_map.mp hu
  exact (band_le p.1 p.2).2

theorem roomy_synthesis1 : Roomy kAllPassFilter2.1 kAllPassFilter2.2.1 kAllPassFilter2.2.2
    (2 ^ 26) := by decide

theorem roomy_synthesis2 : Roomy kAllPassFilter1.1 kAllPassFilter1.2.1 kAllPassFilter1.2.2
    (2 ^ 26) := by decide

theorem synthesis_exact {s : AllPassState × AllPassState}
    (h1 : StateHeld kAllPassFilter2 (2 ^ 26) s.1) (h2 : StateHeld kAllPassFilter1 (2 ^ 26) s.2)
    {bands : List Sample × List Sample} (hbands : AreBands bands) :
    SynthesisExact s bands ∧ StateHeld kAllPassFilter2 (2 ^ 26)
      (synthesisQMF bands.1 bands.2 s.1 s.2).val.2.1 ∧
      StateHeld kAllPassFilter1 (2 ^ 26) (synthesisQMF bands.1 bands.2 s.1 s.2).val.2.2 := by
  obtain ⟨he1, hq1, hv1, hh1⟩ := filter_exact roomy_synthesis1 h1 (bandSums_le bands)
  obtain ⟨he2, hq2, hv2, hh2⟩ := filter_exact roomy_synthesis2 h2 (bandDifferences_le bands)
  have hpeak : filterPeak kAllPassFilter2 (2 ^ 26) < 2 ^ 31 - 2 ^ 16 ∧ filterPeak kAllPassFilter1
      (2 ^ 26) < 2 ^ 31 - 2 ^ 16 := by
    decide
  have heq : synthesisQMF bands.1 bands.2 s.1 s.2 =
      ((exactAllPass kAllPassFilter2 s.1 (bandSums bands)).1.zip
        (exactAllPass kAllPassFilter1 s.2 (bandDifferences bands)).1).mapM (fun p => do
          let odd ← ck32 (p.2 + 512)
          let even ← ck32 (p.1 + 512)
          pure [Sample.sat (odd / 2 ^ 10), Sample.sat (even / 2 ^ 10)]) >>= fun out =>
      pure (out.flatten, (exactAllPass kAllPassFilter2 s.1 (bandSums bands)).2,
        (exactAllPass kAllPassFilter1 s.2 (bandDifferences bands)).2) := by
    unfold synthesisQMF
    rw [flag_eq hbands.2.1, pure_bind]
    change (allPassQMF kAllPassFilter2 s.1 (bandSums bands) >>= fun filter1 =>
      allPassQMF kAllPassFilter1 s.2 (bandDifferences bands) >>= _) = _
    rw [hq1, pure_bind, hq2, pure_bind]
  rw [heq]
  refine ⟨⟨he1, he2, ?_⟩, hh1, hh2⟩
  rw [heq, Chk.ok_bind, Chk.ok_pure, Bool.and_true]
  refine ok_mapM_iff.mpr fun p hp => ?_
  have hp1 := abs_le.mp (hv1 p.1 (List.of_mem_zip hp).1)
  have hp2 := abs_le.mp (hv2 p.2 (List.of_mem_zip hp).2)
  rw [ck32_eq ⟨by omega, by omega⟩, pure_bind, ck32_eq ⟨by omega, by omega⟩]
  rfl

/-! ### Streams -/

/-- After any sequence of frames from the states 0, the analysis of one more
frame is exact, and after any sequence of bands so is the synthesis. -/
theorem qmf_exact :
    (∀ (frames : List (List Sample)) (s : AllPassState × AllPassState),
      Run AnalysisCall (.zero, .zero) frames s → ∀ in_data, IsFrame in_data →
        AnalysisExact s in_data) ∧
      ∀ (bands : List (List Sample × List Sample)) (s : AllPassState × AllPassState),
        Run SynthesisCall (.zero, .zero) bands s → ∀ b, AreBands b → SynthesisExact s b := by
  constructor
  · intro frames s hrun in_data hframe
    have hheld : StateHeld kAllPassFilter1 (2 ^ 25) s.1 ∧ StateHeld kAllPassFilter2
        (2 ^ 25) s.2 := by
      refine hrun.invariant (I := fun s => StateHeld kAllPassFilter1 (2 ^ 25) s.1 ∧
        StateHeld kAllPassFilter2 (2 ^ 25) s.2)
        ⟨stateHeld_zero roomy_analysis1, stateHeld_zero roomy_analysis2⟩ ?_
      rintro s in_data s' ⟨h1, h2⟩ ⟨hframe, rfl⟩
      exact (analysis_exact h1 h2 hframe).2
    exact (analysis_exact hheld.1 hheld.2 hframe).1
  · intro bands s hrun b hb
    have hheld : StateHeld kAllPassFilter2 (2 ^ 26) s.1 ∧ StateHeld kAllPassFilter1
        (2 ^ 26) s.2 := by
      refine hrun.invariant (I := fun s => StateHeld kAllPassFilter2 (2 ^ 26) s.1 ∧
        StateHeld kAllPassFilter1 (2 ^ 26) s.2)
        ⟨stateHeld_zero roomy_synthesis1, stateHeld_zero roomy_synthesis2⟩ ?_
      rintro s b s' ⟨h1, h2⟩ ⟨hb, rfl⟩
      exact (synthesis_exact h1 h2 hb).2
    exact (synthesis_exact hheld.1 hheld.2 hb).1

/-- The largest and the smallest sample in turns. -/
def swing (n : ℕ) : List Sample := (List.range n).map fun i => if i % 2 = 0 then .sat 32767
    else .sat (-32768)

/-- A frame of 10 ms in full swing after another one, and the same for bands in
full swing. -/
theorem qmf_exact_swing :
    (∃ s, Run AnalysisCall (.zero, .zero) [swing 320] s ∧ s ≠ (.zero, .zero) ∧
      AnalysisExact s (swing 320)) ∧
    ∃ s, Run SynthesisCall (.zero, .zero) [(swing 160, swing 160)] s ∧ s ≠ (.zero, .zero) ∧
      SynthesisExact s (swing 160, swing 160) := by
  have hframe : IsFrame (swing 320) := by simp [IsFrame, swing]
  have hbands : AreBands (swing 160, swing 160) := by simp [AreBands, swing]
  have hanalysis := Run.one (show AnalysisCall (.zero, .zero) (swing 320) _ from ⟨hframe, rfl⟩)
  have hsynthesis :=
    Run.one (show SynthesisCall (.zero, .zero) (swing 160, swing 160) _ from ⟨hbands, rfl⟩)
  exact ⟨⟨_, hanalysis, by decide +kernel, qmf_exact.1 _ _ hanalysis _ hframe⟩,
    _, hsynthesis, by decide +kernel, qmf_exact.2 _ _ hsynthesis _ hbands⟩

end AgcSpec
