/-
# Frequency bands

The quadrature mirror filters of `common_audio/splitting_filter.c` and the
class `SplittingFilter`, which splits the channels of a buffer into two or
three bands and merges them again. Two bands are split in integers; the bank
of three bands works on floats, and like everything else that does it is a
parameter (`FloatOps`).

A split only reads the full-band buffer and a merge only reads the bands, so
neither changes what can be read there (`analysis_views`, `synthesis_views`).
-/
import AgcSpec.Spl
import AgcSpec.AudioUtil
import AgcSpec.ChannelBuffer

namespace AgcSpec

open FixedPoint

/-! ### The filters -/

/-- `WebRtcSpl_SubSatW32`. -/
def subSatW32 (a b : Int) : Int :=
  let diff := i32 (a - b)
  if decide (a < 0) ≠ decide (b < 0) ∧ decide (a < 0) ≠ decide (diff < 0) then
    if diff < 0 then 2 ^ 31 - 1 else -2 ^ 31
  else diff

/-- `filter_state`: for each of the three cascades the last input and the last
output. -/
structure AllPassState where
  x0 : Int
  y0 : Int
  x1 : Int
  y1 : Int
  x2 : Int
  y2 : Int
deriving DecidableEq, Repr

/-- A cascade over a block, from the last input `x` and the last output `y`. -/
def allPassCascade (a : Int) : Int → Int → List Int → Chk (List Int × Int × Int)
  | x, y, [] => pure ([], x, y)
  | x, y, u :: us => do
    let v ← scaleDiff32 a (subSatW32 u y) x
    let r ← allPassCascade a u v us
    pure (v :: r.1, r.2)

/-- `WebRtcSpl_AllPassQMF`: the second cascade runs over the output of the
first, the third over that of the second. -/
def allPassQMF (filter_coefficients : Int × Int × Int) (st : AllPassState) (in_data : List Int) :
    Chk (List Int × AllPassState) := do
  let p ← allPassCascade filter_coefficients.1 st.x0 st.y0 in_data
  let q ← allPassCascade filter_coefficients.2.1 st.x1 st.y1 p.1
  let r ← allPassCascade filter_coefficients.2.2 st.x2 st.y2 q.1
  pure (r.1, ⟨p.2.1, p.2.2, q.2.1, q.2.2, r.2.1, r.2.2⟩)

def kAllPassFilter1 : Int × Int × Int := (6418, 36982, 57261)
def kAllPassFilter2 : Int × Int × Int := (21333, 49062, 63010)

/-- The even and the odd samples, in Q10. -/
def evenOdd : List Sample → List Int × List Int
  | a :: b :: rest => (a.val * 2 ^ 10 :: (evenOdd rest).1, b.val * 2 ^ 10 :: (evenOdd rest).2)
  | _ => ([], [])

/-- `WebRtcSpl_AnalysisQMF`: the low band, the high band and the states. The
arrays of the function have 320 places. -/
def analysisQMF (in_data : List Sample) (filter_state1 filter_state2 : AllPassState) :
    Chk ((List Sample × List Sample) × AllPassState × AllPassState) := do
  let half_in ← flag (in_data.length / 2 ≤ 320) (evenOdd in_data)
  let filter1 ← allPassQMF kAllPassFilter1 filter_state1 half_in.2
  let filter2 ← allPassQMF kAllPassFilter2 filter_state2 half_in.1
  let low_band ← (filter1.1.zip filter2.1).mapM fun p => do
    let tmp ← ck32 (p.1 + p.2)
    let tmp ← ck32 (tmp + 1024)
    pure (Sample.sat (tmp / 2 ^ 11))
  let high_band ← (filter1.1.zip filter2.1).mapM fun p => do
    let tmp ← ck32 (p.1 - p.2)
    let tmp ← ck32 (tmp + 1024)
    pure (Sample.sat (tmp / 2 ^ 11))
  pure ((low_band, high_band), filter1.2, filter2.2)

/-- `WebRtcSpl_SynthesisQMF`: the samples and the states. -/
def synthesisQMF (low_band high_band : List Sample) (filter_state1 filter_state2 : AllPassState) :
    Chk (List Sample × AllPassState × AllPassState) := do
  let bands ← flag (low_band.length ≤ 320) (low_band.zip high_band)
  let filter1 ← allPassQMF kAllPassFilter2 filter_state1
    (bands.map fun p => (p.1.val + p.2.val) * 2 ^ 10)
  let filter2 ← allPassQMF kAllPassFilter1 filter_state2
    (bands.map fun p => (p.1.val - p.2.val) * 2 ^ 10)
  let out_data ← (filter1.1.zip filter2.1).mapM fun p => do
    let odd ← ck32 (p.2 + 512)
    let even ← ck32 (p.1 + 512)
    pure [Sample.sat (odd / 2 ^ 10), Sample.sat (even / 2 ^ 10)]
  pure (out_data.flatten, filter1.2, filter2.2)

/-! ### The class -/

/-- What the code computes with floats: conversions, mixing, the resamplers
(`R`) and the banks of three bands (`B`). -/
structure FloatOps (F R B : Type) where
  i2f : Sample → F
  /-- `FloatS16ToS16` -/
  f2i : F → Sample
  floatToFloatS16 : F → F
  /-- `DownmixToMono<float, float>` -/
  downmixToMono : List (List F) → ℕ → ℕ → List F
  newResampler : ℕ → ℕ → R
  resample : R → List F → ℕ → List F × R
  newBank : ℕ → B
  analysis : B → List F → List (List F) × B
  synthesis : B → List (List F) → List F × B

/-- `TwoBandsStates`. -/
structure TwoBandsStates where
  analysis_state1 : AllPassState
  analysis_state2 : AllPassState
  synthesis_state1 : AllPassState
  synthesis_state2 : AllPassState
deriving DecidableEq, Repr

def TwoBandsStates.zero : TwoBandsStates :=
  ⟨⟨0, 0, 0, 0, 0, 0⟩, ⟨0, 0, 0, 0, 0, 0⟩, ⟨0, 0, 0, 0, 0, 0⟩,
    ⟨0, 0, 0, 0, 0, 0⟩⟩

/-- `SplittingFilter`: the states of every channel. -/
inductive SplittingFilter (B : Type) where
  | twoBands (states : List TwoBandsStates)
  | threeBands (banks : List B)

namespace SplittingFilter

variable {F R B : Type} {frames channels bands : ℕ}

/-- The constructor. -/
def new (ops : FloatOps F R B) (num_channels num_bands num_frames : ℕ) : SplittingFilter B :=
  if num_bands = 2 then .twoBands (List.replicate num_channels .zero)
  else .threeBands (List.replicate num_channels (ops.newBank num_frames))

section

variable (ops : FloatOps F R B)

/-- The full band and the bands of a buffer. -/
structure Pair (F : Type) (frames channels bands : ℕ) where
  data : IFChannelBuffer Sample F frames channels 1
  bands : IFChannelBuffer Sample F frames channels bands

/-- The rows of the `n` bands of a channel. -/
def rows {T : Type} (b : ChannelBuffer T frames channels bands) (n channel : ℕ) : List (List T) :=
  (List.range n).map fun band => b.row (b.start band channel) (frames / bands)

/-- `TwoBandsAnalysis`, from channel `i` on. -/
def twoBandsAnalysis : ℕ → List TwoBandsStates → Pair F frames channels bands →
    List TwoBandsStates × Pair F frames channels bands
  | _, [], p => ([], p)
  | i, st :: states, p =>
    let data := p.data.ibufConst ops.f2i
    let q := (analysisQMF (data.ibuf_.row (data.ibuf_.start 0 i) frames) st.analysis_state1
      st.analysis_state2).val
    let low := p.bands.writeRowI ops.f2i (p.bands.ibuf_.start 0 i) q.1.1
    let high := low.writeRowI ops.f2i (low.ibuf_.start 1 i) q.1.2
    let r := twoBandsAnalysis (i + 1) states ⟨data, high⟩
    ({ st with analysis_state1 := q.2.1, analysis_state2 := q.2.2 } :: r.1, r.2)

/-- `ThreeBandsAnalysis`. -/
def threeBandsAnalysis :
    ℕ → List B → Pair F frames channels bands → List B × Pair F frames channels bands
  | _, [], p => ([], p)
  | i, bank :: banks, p =>
    let data := p.data.fbufConst ops.i2f
    let q := ops.analysis bank (data.fbuf_.row (data.fbuf_.start 0 i) frames)
    let split := q.1.zipIdx.foldl (fun b out => b.writeRowF ops.i2f (b.fbuf_.start out.2 i) out.1)
      (p.bands.fbuf ops.i2f)
    let r := threeBandsAnalysis (i + 1) banks ⟨data, split⟩
    (q.2 :: r.1, r.2)

/-- `Analysis`. -/
def analysis (filter : SplittingFilter B) (p : Pair F frames channels bands) :
    SplittingFilter B × Pair F frames channels bands :=
  match filter with
  | .twoBands states =>
    (.twoBands (twoBandsAnalysis ops 0 states p).1, (twoBandsAnalysis ops 0 states p).2)
  | .threeBands banks =>
    (.threeBands (threeBandsAnalysis ops 0 banks p).1, (threeBandsAnalysis ops 0 banks p).2)

/-- `TwoBandsSynthesis`: `n` channels from channel `i` on. -/
def twoBandsSynthesis : ℕ → ℕ → List TwoBandsStates → Pair F frames channels bands →
    List TwoBandsStates × Pair F frames channels bands
  | i, n + 1, st :: states, p =>
    let split := p.bands.ibufConst ops.f2i
    let q := (synthesisQMF (split.ibuf_.row (split.ibuf_.start 0 i) (frames / bands))
      (split.ibuf_.row (split.ibuf_.start 1 i) (frames / bands)) st.synthesis_state1
        st.synthesis_state2).val
    let data := p.data.writeRowI ops.f2i (p.data.ibuf_.start 0 i) q.1
    let r := twoBandsSynthesis (i + 1) n states ⟨data, split⟩
    ({ st with synthesis_state1 := q.2.1, synthesis_state2 := q.2.2 } :: r.1, r.2)
  | _, _, states, p => (states, p)

/-- `ThreeBandsSynthesis`. -/
def threeBandsSynthesis :
    ℕ → ℕ → List B → Pair F frames channels bands →
      List B × Pair F frames channels bands
  | i, n + 1, bank :: banks, p =>
    let split := p.bands.fbufConst ops.i2f
    let q := ops.synthesis bank (rows split.fbuf_ 3 i)
    let data := p.data.writeRowF ops.i2f (p.data.fbuf_.start 0 i) q.1
    let r := threeBandsSynthesis (i + 1) n banks ⟨data, split⟩
    (q.2 :: r.1, r.2)
  | _, _, banks, p => (banks, p)

/-- `Synthesis`. -/
def synthesis (filter : SplittingFilter B) (p : Pair F frames channels bands) :
    SplittingFilter B × Pair F frames channels bands :=
  match filter with
  | .twoBands states =>
    let r := twoBandsSynthesis ops 0 p.data.num_channels states p
    (.twoBands r.1, r.2)
  | .threeBands banks =>
    let r := threeBandsSynthesis ops 0 p.data.num_channels banks p
    (.threeBands r.1, r.2)

end

/-! ### What is left as it was -/

section

variable {ops : FloatOps F R B}

/-- The second buffer is up to date in one of its forms if the first is, and
the same integers can be read from it. -/
def SameView (ops : FloatOps F R B) (b b' : IFChannelBuffer Sample F frames channels bands) :
    Prop :=
  b.Valid → b'.Valid ∧ b'.intView ops.f2i = b.intView ops.f2i

variable {b b' b'' : IFChannelBuffer Sample F frames channels bands}

theorem SameView.refl : SameView ops b b := fun h => ⟨h, rfl⟩

theorem SameView.trans (h : SameView ops b b') (h' : SameView ops b' b'') : SameView ops b b'' :=
  fun hb =>
  ⟨(h' (h hb).1).1, (h' (h hb).1).2.trans (h hb).2⟩

theorem sameView_ibufConst : SameView ops b (b.ibufConst ops.f2i) := fun _ =>
  ⟨IFChannelBuffer.valid_refreshI, IFChannelBuffer.intView_refreshI⟩

theorem sameView_fbufConst : SameView ops b (b.fbufConst ops.i2f) := fun hb =>
  ⟨IFChannelBuffer.valid_refreshF, IFChannelBuffer.intView_refreshF hb⟩

theorem valid_writeRowsF {γ : Type} (start : IFChannelBuffer Sample F frames channels bands →
    γ → ℕ) (row : γ → List F) :
    ∀ (l : List γ) {b : IFChannelBuffer Sample F frames channels bands}, b.Valid →
      (l.foldl (fun b c => b.writeRowF ops.i2f (start b c) (row c)) b).Valid
  | [], _, h => h
  | _ :: l, _, _ => valid_writeRowsF start row l (IFChannelBuffer.valid_writeRowF _ _)

theorem valid_writeRowsI {γ : Type} (start : IFChannelBuffer Sample F frames channels bands →
    γ → ℕ) (row : γ → List Sample) :
    ∀ (l : List γ) {b : IFChannelBuffer Sample F frames channels bands}, b.Valid →
      (l.foldl (fun b c => b.writeRowI ops.f2i (start b c) (row c)) b).Valid
  | [], _, h => h
  | _ :: l, _, _ => valid_writeRowsI start row l (IFChannelBuffer.valid_writeRowI _ _)

theorem twoBandsAnalysis_views :
    ∀ (states : List TwoBandsStates) (i : ℕ) (p : Pair F frames channels bands),
      SameView ops p.data (twoBandsAnalysis ops i states p).2.data ∧
        (p.bands.Valid → (twoBandsAnalysis ops i states p).2.bands.Valid)
  | [], _, _ => ⟨.refl, id⟩
  | _ :: states, i, _ =>
    have ih := twoBandsAnalysis_views states (i + 1) _
    ⟨sameView_ibufConst.trans ih.1, fun _ => ih.2 (IFChannelBuffer.valid_writeRowI _ _)⟩

theorem threeBandsAnalysis_views :
    ∀ (banks : List B) (i : ℕ) (p : Pair F frames channels bands),
      SameView ops p.data (threeBandsAnalysis ops i banks p).2.data ∧
        (p.bands.Valid → (threeBandsAnalysis ops i banks p).2.bands.Valid)
  | [], _, _ => ⟨.refl, id⟩
  | _ :: banks, i, _ =>
    have ih := threeBandsAnalysis_views banks (i + 1) _
    ⟨sameView_fbufConst.trans ih.1,
      fun _ => ih.2 (valid_writeRowsF _ _ _ (.inr IFChannelBuffer.fvalid_refreshF))⟩

theorem analysis_views (ops : FloatOps F R B) (filter : SplittingFilter B)
    (p : Pair F frames channels bands) :
    SameView ops p.data (analysis ops filter p).2.data ∧
      (p.bands.Valid → (analysis ops filter p).2.bands.Valid) := by
  cases filter with
  | twoBands states => exact twoBandsAnalysis_views states 0 p
  | threeBands banks => exact threeBandsAnalysis_views banks 0 p

theorem twoBandsSynthesis_views :
    ∀ (states : List TwoBandsStates) (i n : ℕ) (p : Pair F frames channels bands),
      SameView ops p.bands (twoBandsSynthesis ops i n states p).2.bands ∧
        (p.data.Valid → (twoBandsSynthesis ops i n states p).2.data.Valid)
  | [], _, 0, _ => ⟨.refl, id⟩
  | [], _, _ + 1, _ => ⟨.refl, id⟩
  | _ :: _, _, 0, _ => ⟨.refl, id⟩
  | _ :: states, i, n + 1, _ =>
    have ih := twoBandsSynthesis_views states (i + 1) n _
    ⟨sameView_ibufConst.trans ih.1, fun _ => ih.2 (IFChannelBuffer.valid_writeRowI _ _)⟩

theorem threeBandsSynthesis_views :
    ∀ (banks : List B) (i n : ℕ) (p : Pair F frames channels bands),
      SameView ops p.bands (threeBandsSynthesis ops i n banks p).2.bands ∧
        (p.data.Valid → (threeBandsSynthesis ops i n banks p).2.data.Valid)
  | [], _, 0, _ => ⟨.refl, id⟩
  | [], _, _ + 1, _ => ⟨.refl, id⟩
  | _ :: _, _, 0, _ => ⟨.refl, id⟩
  | _ :: banks, i, n + 1, _ =>
    have ih := threeBandsSynthesis_views banks (i + 1) n _
    ⟨sameView_fbufConst.trans ih.1, fun _ => ih.2 (IFChannelBuffer.valid_writeRowF _ _)⟩

theorem synthesis_views (ops : FloatOps F R B) (filter : SplittingFilter B)
    (p : Pair F frames channels bands) :
    SameView ops p.bands (synthesis ops filter p).2.bands ∧
      (p.data.Valid → (synthesis ops filter p).2.data.Valid) := by
  cases filter with
  | twoBands states => exact twoBandsSynthesis_views states 0 p.data.num_channels p
  | threeBands banks => exact threeBandsSynthesis_views banks 0 p.data.num_channels p

end

end SplittingFilter
end AgcSpec
