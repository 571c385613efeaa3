/-
# The voice activity detector

`WebRtcAgc_InitVad` and `WebRtcAgc_ProcessVad` of `digital_agc/digital_agc.c`.
A 10 ms frame is cut into ten sub-frames of 1 ms, each decimated to 4 kHz and
high-pass filtered; the frame's energy in dB updates a short-term and a
long-term mean and variance, and the log-ratio of the two hypotheses (Q10) is
a leaky sum of the normalised level.
-/
import AgcSpec.Spl

namespace AgcSpec

open FixedPoint

/-- `AgcVad`. -/
structure AgcVad where
  downState : FiltState
  HPstate : Int
  counter : Int
  logRatio : Int
  meanLongTerm : Int
  varianceLongTerm : Int
  stdLongTerm : Int
  meanShortTerm : Int
  varianceShortTerm : Int
  stdShortTerm : Int
deriving DecidableEq, Repr

/-- `kAvgDecayTime`, in frames. -/
def kAvgDecayTime : Int := 250

/-- `WebRtcAgc_InitVad`. It sets every field, so the old state is not read. -/
def initVad : AgcVad where
  downState := .zero
  HPstate := 0
  logRatio := 0
  meanLongTerm := 15 * 2 ^ 10
  varianceLongTerm := 500 * 2 ^ 8
  stdLongTerm := 0
  meanShortTerm := 15 * 2 ^ 10
  varianceShortTerm := 500 * 2 ^ 8
  stdShortTerm := 0
  counter := 3

/-! ### The frame's energy -/

/-- The mean of each two neighbours: 16 kHz to 8 kHz. -/
def halveRate : List Int → List Int
  | a :: b :: rest => i16 ((a + b) / 2) :: halveRate rest
  | _ => []

/-- The high-pass filter and the energy of its output, over the samples of a
sub-frame: `out * out / 2^6` is added in two parts to the unsigned `nrg`. -/
def highPass (HPstate nrg : Int) : List Int → Chk (Int × Int)
  | [] => pure (HPstate, nrg)
  | b :: bs => do
    let out ← ck32 (b + HPstate)
    let tmp32 ← ck32 (600 * out)
    let d ← ck32 (tmp32 / 2 ^ 10 - b)
    let hp ← ck16 d
    let p ← ck32 (out * out.tdiv 64)
    let nrg ← cku32 (nrg + p)
    let q ← ck32 (out * out.tmod 64)
    let nrg ← cku32 (nrg + q.tdiv 64)
    highPass hp nrg bs

/-- The sub-frame loop: `k` sub-frames are left, of 16 samples or of 8. -/
def vadSubframes (nrSamples : Nat) :
    Nat → FiltState → Int → Int → List Int → Chk (FiltState × Int × Int)
  | 0, st, hp, nrg, _ => pure (st, hp, nrg)
  | k + 1, st, hp, nrg, inp => do
    let r ← downsampleBy2 st (if nrSamples = 160 then halveRate (inp.take 16) else inp.take 8)
    let e ← highPass hp nrg r.2
    vadSubframes nrSamples k r.1 e.1 e.2 (inp.drop (if nrSamples = 160 then 16 else 8))

/-- The number of leading zeros of the unsigned `nrg`, by halving masks; 31
for 0. A mask of the top `j` bits gives 0 for a number below `2^(32 - j)`. -/
def vadZeros (nrg : Int) : Nat :=
  let zeros := if nrg < 2 ^ 16 then 16 else 0
  let zeros := if u32 (nrg * 2 ^ zeros) < 2 ^ 24 then zeros + 8 else zeros
  let zeros := if u32 (nrg * 2 ^ zeros) < 2 ^ 28 then zeros + 4 else zeros
  let zeros := if u32 (nrg * 2 ^ zeros) < 2 ^ 30 then zeros + 2 else zeros
  if u32 (nrg * 2 ^ zeros) < 2 ^ 31 then zeros + 1 else zeros

/-! ### The statistics -/

/-- The short-term mean, variance and standard deviation. -/
def shortTerm (v : AgcVad) (dB : Int) : Chk AgcVad := do
  let m ← ck32 (v.meanShortTerm * 15 + dB)
  let mean ← ck16 (m / 2 ^ 4)
  let sq ← ck32 (dB * dB)
  let p ← ck32 (v.varianceShortTerm * 15)
  let t ← ck32 (sq / 2 ^ 12 + p)
  let variance := t.tdiv 16
  let mm ← ck32 (mean * mean)
  let vv ← ck32 (variance * 2 ^ 12)
  let d ← ck32 (vv - mm)
  let r ← sqrt d
  let std ← ck16 r
  pure { v with meanShortTerm := mean, varianceShortTerm := variance, stdShortTerm := std }

/-- The long-term mean, variance and standard deviation, over `counter` frames. -/
def longTerm (v : AgcVad) (dB : Int) : Chk AgcVad := do
  let p ← ck32 (v.meanLongTerm * v.counter)
  let m ← ck32 (p + dB)
  let mean := divW32W16ResW16 m (addSatW16 v.counter 1)
  let sq ← ck32 (dB * dB)
  let p ← ck32 (v.varianceLongTerm * v.counter)
  let t ← ck32 (sq / 2 ^ 12 + p)
  let variance := divW32W16 t (addSatW16 v.counter 1)
  let mm ← ck32 (mean * mean)
  let vv ← ck32 (variance * 2 ^ 12)
  let d ← ck32 (vv - mm)
  let r ← sqrt d
  let std ← ck16 r
  pure { v with meanLongTerm := mean, varianceLongTerm := variance, stdLongTerm := std }

/-- The limit of the voice activity measure. -/
def clampLogRatio (x : Int) : Int :=
  let x := if x > 2048 then 2048 else x
  if x < -2048 then -2048 else x

/-- The voice activity measure (Q10). The difference to the mean is converted
to 16 bits before the product. -/
def voiceActivity (v : AgcVad) (dB : Int) : Chk AgcVad := do
  let d ← ck16 (dB - v.meanLongTerm)
  let t ← ck32 (3 * 2 ^ 12 * d)
  let t := divW32W16 t v.stdLongTerm
  let b ← ck32 (v.logRatio * (13 * 2 ^ 12))
  let t ← ck32 (t + b / 2 ^ 10)
  let r ← ck16 (t / 2 ^ 6)
  pure { v with logRatio := clampLogRatio r }

/-- `WebRtcAgc_ProcessVad`. It returns the new `logRatio`. -/
def processVad (state : AgcVad) (inp : List Int) (nrSamples : Nat) : Chk AgcVad := do
  let r ← vadSubframes nrSamples 10 state.downState state.HPstate 0 inp
  -- energy level (range {-32..30}) (Q10)
  let dB := i16 ((15 - (vadZeros r.2.2 : Int)) * 2 ^ 11)
  let v := { state with
    downState := r.1
    HPstate := r.2.1
    counter := if state.counter < kAvgDecayTime then state.counter + 1 else state.counter }
  let v ← shortTerm v dB
  let v ← longTerm v dB
  voiceActivity v dB

theorem clampLogRatio_range (x : Int) : -2048 ≤ clampLogRatio x ∧ clampLogRatio x ≤ 2048 := by
  simp only [clampLogRatio]
  omega

/-- The measure a frame leaves is within its limits, whatever the state. -/
theorem processVad_logRatio (v : AgcVad) (inp : List Int) (n : Nat) :
    -2048 ≤ (processVad v inp n).val.logRatio ∧ (processVad v inp n).val.logRatio ≤ 2048 := by
  simp only [processVad, voiceActivity, Chk.val_bind, Chk.val_pure]
  exact clampLogRatio_range _

end AgcSpec
