/-
# The microphone side

`WebRtcAgc_AddMic`, `WebRtcAgc_VirtualMic` and `WebRtcAgc_AddFarend` of
`digital_agc/analog_agc.c`. A frame is the list of its bands and the number
of samples passed to the functions is the length of band 0. The bands are
changed in place, so they are part of the result.

The flag of these functions is about the volume levels and the table indices;
the decimator, the dot product and the VAD are called for their values.
-/
import AgcSpec.Analog

namespace AgcSpec

open FixedPoint

/-! ### Tables -/

/-- `GAIN_TBL_LEN`. -/
def GAIN_TBL_LEN : Int := 32

/-- The analog gain table, Q12. -/
def kGainTableAnalog : List Int := [
  4096, 4251, 4412, 4579,  4752,  4932,  5118,  5312,  5513,  5722, 5938,
  6163, 6396, 6638, 6889,  7150,  7420,  7701,  7992,  8295,  8609, 8934,
  9273, 9623, 9987, 10365, 10758, 11165, 11587, 12025, 12480, 12953]

/-- Gains of the virtual microphone, Q10. -/
def kGainTableVirtualMic : List Int := [
  1052,  1081,  1110,  1141,  1172,  1204,  1237,  1271,  1305,  1341,  1378,
  1416,  1454,  1494,  1535,  1577,  1620,  1664,  1710,  1757,  1805,  1854,
  1905,  1957,  2010,  2065,  2122,  2180,  2239,  2301,  2364,  2428,  2495,
  2563,  2633,  2705,  2779,  2855,  2933,  3013,  3096,  3180,  3267,  3357,
  3449,  3543,  3640,  3739,  3842,  3947,  4055,  4166,  4280,  4397,  4517,
  4640,  4767,  4898,  5032,  5169,  5311,  5456,  5605,  5758,  5916,  6078,
  6244,  6415,  6590,  6770,  6956,  7146,  7341,  7542,  7748,  7960,  8178,
  8402,  8631,  8867,  9110,  9359,  9615,  9878,  10148, 10426, 10711, 11004,
  11305, 11614, 11932, 12258, 12593, 12938, 13292, 13655, 14029, 14412, 14807,
  15212, 15628, 16055, 16494, 16945, 17409, 17885, 18374, 18877, 19393, 19923,
  20468, 21028, 21603, 22194, 22801, 23425, 24065, 24724, 25400, 26095, 26808,
  27541, 28295, 29069, 29864, 30681, 31520, 32382]

/-- Suppressions of the virtual microphone, Q10. -/
def kSuppressionTableVirtualMic : List Int := [
  1024, 1006, 988, 970, 952, 935, 918, 902, 886, 870, 854, 839, 824, 809, 794,
  780,  766,  752, 739, 726, 713, 700, 687, 675, 663, 651, 639, 628, 616, 605,
  594,  584,  573, 563, 553, 543, 533, 524, 514, 505, 496, 487, 478, 470, 461,
  453,  445,  437, 429, 421, 414, 406, 399, 392, 385, 378, 371, 364, 358, 351,
  345,  339,  333, 327, 321, 315, 309, 304, 298, 293, 288, 283, 278, 273, 268,
  263,  258,  254, 249, 244, 240, 236, 232, 227, 223, 219, 215, 211, 208, 204,
  200,  197,  193, 190, 186, 183, 180, 176, 173, 170, 167, 164, 161, 158, 155,
  153,  150,  147, 145, 142, 139, 137, 134, 132, 130, 127, 125, 123, 121, 118,
  116,  114,  112, 110, 108, 106, 104, 102]

/-! ### `WebRtcAgc_AddMic` -/

/-- The result of a call: the code, the instance and the bands. -/
structure MicResult where
  ret : Int
  agc : LegacyAgc
  bands : List (List Int)

/-- `targetGainIdx`: how far the volume is above the analog maximum, on the
scale of the gain table. -/
def targetGainIdx (s : LegacyAgc) : Chk Int := do
  let d ← ck32 (s.micVol - s.maxAnalog)
  let a ← ck16 d
  let t ← ck32 ((GAIN_TBL_LEN - 1) * a)
  let d ← ck32 (s.maxLevel - s.maxAnalog)
  let b ← ck16 d
  let q ← flag (b ≠ 0) (t.tdiv b)
  pure (u16 q)

/-- One step through the gain table towards the target. -/
def stepGainIdx (idx target : Int) : Int :=
  if idx < target then idx + 1 else if idx > target then idx - 1 else idx

/-- A sample with a gain in Q12. -/
def scaleMic (gain x : Int) : Int := sat16 (x * gain / 2 ^ 12)

/-- The energies of the five blocks of 16 samples at 8 kHz, `k` blocks left.
At 16 kHz a block is decimated from 32 samples; at the other rates it is 16
samples as they are. -/
def micEnergies (fs : Int) : Nat → FiltState → List Int → FiltState × List Int
  | 0, st, _ => (st, [])
  | k + 1, st, band =>
    if fs = 16000 then
      let d := (downsampleBy2 st (band.take 32)).val
      let r := micEnergies fs k d.1 (band.drop 32)
      (r.1, dotProductWithScale d.2 d.2 4 :: r.2)
    else
      let b := band.take 16
      let r := micEnergies fs k st (band.drop 16)
      (r.1, dotProductWithScale b b 4 :: r.2)

/-- Samples in 1 ms, as `WebRtcAgc_AddMic` takes them. -/
def micSubframe (fs : Int) : Nat := if fs = 8000 then 8 else 16

/-- The envelope of a microphone frame. -/
def micEnvelope (fs : Int) (bands : List (List Int)) : List Int :=
  (envelope (micSubframe fs) (bands.headD [])).val

/-- The analysis of a frame: its envelope and energies go to the first slot of
the queue, or to the second if the first is taken. -/
def micAnalyse (s : LegacyAgc) (bands : List (List Int)) : LegacyAgc :=
  let env := micEnvelope s.fs bands
  let e := micEnergies s.fs 5 s.filterState (bands.headD [])
  { s with
    env0 := if s.inQueue > 0 then s.env0 else env
    env1 := if s.inQueue > 0 then env else s.env1
    Rxx16w32_array0 := if s.inQueue > 0 then s.Rxx16w32_array0 else e.2
    Rxx16w32_array1 := if s.inQueue > 0 then e.2 else s.Rxx16w32_array1
    filterState := e.1
    inQueue := if s.inQueue = 0 then 1 else 2
    vadMic := (processVad s.vadMic (bands.headD []) (bands.headD []).length).val }

/-- The slowly varying digital gain of `WebRtcAgc_AddMic`: the new index and
the scaled bands, `none` for its return value -1. -/
def micGain (s : LegacyAgc) (in_mic : List (List Int)) : Chk (Option (Int × List (List Int))) :=
  if s.micVol > s.maxAnalog then
    if ¬ s.maxLevel > s.maxAnalog then pure none
    else do
      let target ← targetGainIdx s
      if ¬ target < GAIN_TBL_LEN then pure none
      else do
        let idx := stepGainIdx s.gainTableIdx target
        let gain ← ckGet kGainTableAnalog idx
        pure (some (idx, in_mic.map fun b => b.map (scaleMic gain)))
  else pure (some (0, in_mic))

/-- `WebRtcAgc_AddMic`. -/
def addMic (s : LegacyAgc) (in_mic : List (List Int)) : Chk MicResult :=
  if (in_mic.headD []).length ≠ 10 * micSubframe s.fs then pure ⟨-1, s, in_mic⟩
  else do
    let g ← micGain s in_mic
    match g with
    | none => pure ⟨-1, s, in_mic⟩
    | some (idx, bands) => pure ⟨0, micAnalyse { s with gainTableIdx := idx } bands, bands⟩

/-! ### `WebRtcAgc_AddFarend` -/

/-- `WebRtcAgc_GetAddFarendError`, for a valid instance. -/
def getAddFarendError (s : LegacyAgc) (samples : Nat) : Int :=
  if s.fs = 8000 then (if samples ≠ 80 then -1 else 0)
  else if s.fs = 16000 ∨ s.fs = 32000 ∨ s.fs = 48000 then (if samples ≠ 160 then -1 else 0)
  else -1

/-- `WebRtcAgc_AddFarend`. -/
def addFarend (s : LegacyAgc) (in_far : List Int) : LegacyAgc × Int :=
  if getAddFarendError s in_far.length ≠ 0 then (s, getAddFarendError s in_far.length)
  else ({ s with digitalAgc := addFarendToDigital s.digitalAgc in_far in_far.length }, 0)

/-! ### `WebRtcAgc_VirtualMic` -/

/-- The energy of a frame, which stops growing once it is not below the
limit, and its zero crossings, from the sample after `prev` on. -/
def frameNrgLoop (limit : Int) (prev frameNrg numZeroCrossing : Int) : List Int → Int × Int
  | [] => (frameNrg, numZeroCrossing)
  | x :: xs =>
    frameNrgLoop limit x (if frameNrg < limit then u32 (frameNrg + u32 (x * x)) else frameNrg)
      (i16 (numZeroCrossing + if (x < 0) ≠ (prev < 0) then 1 else 0)) xs

/-- `frameNrgLimit`. -/
def frameNrgLimit (fs : Int) : Int := if fs ≠ 8000 then 5500 * 2 else 5500

/-- The decision on a low-level signal. -/
def lowLevelDecision (limit frameNrg numZeroCrossing : Int) : Int :=
  if frameNrg < 500 ∨ numZeroCrossing ≤ 5 then 1
  else if numZeroCrossing ≤ 15 then 1
  else if frameNrg ≤ limit then 1
  else if numZeroCrossing ≥ 20 then 1
  else 0

/-- `lowLevelSignal` of a frame. -/
def lowLevelOf (fs : Int) (band : List Int) : Int :=
  let x0 := band.headD 0
  let r := frameNrgLoop (frameNrgLimit fs) x0 (u32 (x0 * x0)) 0 band.tail
  lowLevelDecision (frameNrgLimit fs) r.1 r.2

/-- The gain of an index before the first sample. -/
def virtualGainStart (gainIdx : Int) : Chk Int :=
  if gainIdx > 127 then ckGet kGainTableVirtualMic (gainIdx - 128)
  else ckGet kSuppressionTableVirtualMic (127 - gainIdx)

/-- The gain of an index inside the loop: the table is read one entry further
up than before it. -/
def virtualGainNext (gainIdx : Int) : Chk Int :=
  if gainIdx ≥ 127 then ckGet kGainTableVirtualMic (gainIdx - 127)
  else ckGet kSuppressionTableVirtualMic (127 - gainIdx)

/-- The loop over the samples of band 0: a sample that saturates takes the
index down by one. Beside the samples it gives the gains that the other bands
get at each of them. -/
def virtualLoop (gainIdx gain : Int) : List Int → Chk (Int × List Int × List Int)
  | [] => pure (gainIdx, [], [])
  | x :: xs => do
    let tmpFlt ← ck32 (x * gain)
    let tmpFlt := tmpFlt / 2 ^ 10
    if tmpFlt > 32767 ∨ tmpFlt < -32768 then do
      let gain ← virtualGainNext (gainIdx - 1)
      let r ← virtualLoop (gainIdx - 1) gain xs
      pure (r.1, sat16 tmpFlt :: r.2.1, gain :: r.2.2)
    else do
      let r ← virtualLoop gainIdx gain xs
      pure (r.1, tmpFlt :: r.2.1, gain :: r.2.2)

/-- A higher band with the gains of band 0. -/
def virtualBand (gains band : List Int) : List Int :=
  List.zipWith (fun x g => sat16 (x * g / 2 ^ 10)) band gains

/-- The result of `WebRtcAgc_VirtualMic`. -/
structure VirtualMicResult where
  ret : Int
  agc : LegacyAgc
  bands : List (List Int)
  micLevelOut : Int

/-- The level a frame starts with: the volume, at most the analog maximum; or
the mid-point, when the physical level has changed. -/
def virtualStart (s : LegacyAgc) (micLevelTmp : Int) : LegacyAgc × Int :=
  if micLevelTmp ≠ s.micRef
    then ({ s with micRef := micLevelTmp, micVol := 127, micGainIdx := 127 }, 127)
  else (s, if s.micVol > s.maxAnalog then s.maxAnalog else s.micVol)

/-- `WebRtcAgc_VirtualMic`. -/
def virtualMic (s : LegacyAgc) (in_near : List (List Int)) (micLevelIn : Int) :
    Chk VirtualMicResult := do
  let s := { s with lowLevelSignal := lowLevelOf s.fs (in_near.headD []) }
  let micLevelTmp ← ck32 (micLevelIn * 2 ^ s.scale.toNat)
  let (s, gainIdx) := virtualStart s micLevelTmp
  let gain ← virtualGainStart gainIdx
  let r ← virtualLoop gainIdx gain (in_near.headD [])
  let s := { s with micGainIdx := r.1 }
  let m ← addMic s (r.2.1 :: in_near.tail.map (virtualBand r.2.2))
  pure ⟨m.ret, m.agc, m.bands, r.1 / 2 ^ s.scale.toNat⟩

end AgcSpec
