/-
# The compressor gain table

`WebRtcAgc_CalculateGainTable` of `digital_agc/digital_agc.c`: 32 gains in
Q16, one for each number of leading zeros of the squared input level. An
entry is `10^(y / 20)` for a gain of `y` dB that comes from the compressor
curve, or from the limiter's line for the loudest levels when the limiter is
on. The function rejects a compression gain whose `diffGain` is not an index
of its generator table, before it writes anything.

The source also computes `zeroGainLvl`, which nothing reads, and keeps a
`limiterOffset` that is always 0; they are left out.
-/
import AgcSpec.Spl

namespace AgcSpec

open FixedPoint

/-- Generator table for `y = log2(1 + e^x)` in Q8. -/
def kGenFuncTable : List Int := [
  256,   485,   786,   1126,  1484,  1849,  2217,  2586,  2955,  3324,  3693,
  4063,  4432,  4801,  5171,  5540,  5909,  6279,  6648,  7017,  7387,  7756,
  8125,  8495,  8864,  9233,  9603,  9972,  10341, 10711, 11080, 11449, 11819,
  12188, 12557, 12927, 13296, 13665, 14035, 14404, 14773, 15143, 15512, 15881,
  16251, 16620, 16989, 17359, 17728, 18097, 18466, 18836, 19205, 19574, 19944,
  20313, 20682, 21052, 21421, 21790, 22160, 22529, 22898, 23268, 23637, 24006,
  24376, 24745, 25114, 25484, 25853, 26222, 26592, 26961, 27330, 27700, 28069,
  28438, 28808, 29177, 29546, 29916, 30285, 30654, 31024, 31393, 31762, 32132,
  32501, 32870, 33240, 33609, 33978, 34348, 34717, 35086, 35456, 35825, 36194,
  36564, 36933, 37302, 37672, 38041, 38410, 38780, 39149, 39518, 39888, 40257,
  40626, 40996, 41365, 41734, 42104, 42473, 42842, 43212, 43581, 43950, 44320,
  44689, 45058, 45428, 45797, 46166, 46536, 46905]

/-- `kGenFuncTableSize`. -/
def kGenFuncTableSize : Int := 128

/-- `log2(10)` in Q14. -/
def kLog10 : Int := 54426

/-- `10 * log10(2)` in Q14. -/
def kLog10_2 : Int := 49321

/-- `log2(e)` in Q14. -/
def kLogE_1 : Int := 23637

/-- The compression ratio. -/
def kCompRatio : Int := 3

/-- The slope of the piecewise linear `2^x`, in Q14. -/
def constLinApprox : Int := 22817

/-! ### The parameters of the curve -/

/-- `maxGain`: the largest digital gain in dB. -/
def maxDigitalGain (digCompGaindB targetLevelDbfs analogTarget : Int) : Int :=
  let t := (digCompGaindB - analogTarget) * (kCompRatio - 1)
  let g := i16 (i16 (analogTarget - targetLevelDbfs) +
    divW32W16ResW16 (t + kCompRatio / 2) kCompRatio)
  i16 (if g > analogTarget - targetLevelDbfs then g else analogTarget - targetLevelDbfs)

/-- `diffGain`: the gain lost between the lowest level and 0 dBov. -/
def diffDigitalGain (digCompGaindB : Int) : Int :=
  divW32W16ResW16 (digCompGaindB * (kCompRatio - 1) + kCompRatio / 2) kCompRatio

/-- `limiterIdx`: the first entry that is not on the limiter's line. -/
def limiterIndex (analogTarget : Int) : Int :=
  i16 (2 + divW32W16ResW16 (analogTarget * 2 ^ 13) (kLog10_2 / 2))

/-! ### One entry -/

/-- `inLevel`: the level of entry `i` on the compressor's scale, taken from
`diffGain` (Q14). -/
def inLevel (diffGain i : Int) : Int :=
  diffGain * 2 ^ 14 - divW32W16 (i16 ((kCompRatio - 1) * (i - 1)) * kLog10_2 + 1) kCompRatio

/-- `logApprox`: `log2(1 + 2^inLevel)` in Q14, from the generator table with
linear interpolation on `|inLevel|`, and for a negative level by
`log2(1 + 2^-x) = log2(1 + 2^x) - x`. -/
def logApprox (diffGain i : Int) : Chk Int := do
  let lvl := inLevel diffGain i
  let absInLevel := if lvl ≥ 0 then lvl else -lvl
  let intPart := u16 (absInLevel / 2 ^ 14)
  let fracPart := absInLevel % 2 ^ 14
  let t1 ← ckGet kGenFuncTable (intPart + 1)
  let t0 ← ckGet kGenFuncTable intPart
  let p ← ck32 (u16 (t1 - t0) * fracPart)
  let no1 ← cku32 (p + t0 * 2 ^ 14)
  if lvl < 0 then do
    let zeros := normU32 absInLevel
    let r ←
      if zeros < 15 then do
        let no2 ← cku32 (absInLevel / 2 ^ (15 - zeros).toNat * kLogE_1)
        if zeros < 9 then pure (no1 / 2 ^ (9 - zeros).toNat, no2, 9 - zeros)
        else pure (no1, no2 / 2 ^ (zeros - 9).toNat, (0 : Int))
      else do
        let no2 ← cku32 (absInLevel * kLogE_1)
        pure (no1, no2 / 2 ^ 6, (0 : Int))
    if r.2.1 < r.1 then flag (r.2.2 ≤ 8) ((r.1 - r.2.1) / 2 ^ (8 - r.2.2).toNat)
    else pure 0
  else pure (no1 / 2 ^ 8)

/-- `y32` on the compressor curve, in Q14 of a gain of `20 y` dB. The ratio
`numFIX / den` is formed with `numFIX` shifted up as far as it goes. -/
def compressorExponent (maxGain diffGain logApprox : Int) : Chk Int := do
  let constMaxGain ← ckGet kGenFuncTable diffGain
  let den ← ck32 (20 * constMaxGain)
  let a ← ck32 (maxGain * constMaxGain)
  let a ← ck32 (a * 2 ^ 6)
  let b ← ck32 (i32 logApprox * diffGain)
  let numFIX ← ck32 (a - b)
  let neg ← ck32 (-numFIX)
  let zeros := if numFIX > den / 2 ^ 8 ∨ neg > den / 2 ^ 8 then normW32 numFIX
    else normW32 den + 8
  let p ← flag (zeros ≤ 30) (2 ^ zeros.toNat)
  let num ← ck32 (numFIX * p)
  let d ← shiftW32 den (zeros - 9)
  let y32 ← flag (d ≠ 0) (num.tdiv d)
  -- rounding from Q15 to Q14
  if y32 ≥ 0 then pure ((y32 + 1) / 2) else pure (-((-y32 + 1) / 2))

/-- `y32` on the limiter's line. -/
def limiterExponent (limiterLvl i : Int) : Int :=
  divW32W16 ((i - 1) * kLog10_2 - limiterLvl * 2 ^ 14 + 10) 20

/-- `2^t` for `t` in Q14, its fractional part piecewise linear; 0 if `t` is
not positive. -/
def powerOfTwo (t : Int) : Chk Int :=
  if t > 0 then do
    let intPart := u16 (t / 2 ^ 14)
    let fracPart := t % 2 ^ 14
    let f :=
      if fracPart / 2 ^ 13 ≠ 0 then
        2 ^ 14 - (2 ^ 14 - fracPart) * (2 * 2 ^ 14 - constLinApprox) / 2 ^ 13
      else fracPart * (constLinApprox - 2 ^ 14) / 2 ^ 13
    let one ← flag (intPart ≤ 30) (i32 (2 ^ intPart.toNat))
    let s ← shiftW32 (u16 f) (intPart - 14)
    ck32 (one + s)
  else pure 0

/-- The level in dB to a factor in Q16: `2^(16 + y32 * log2(10))`. -/
def gainOfExponent (y32 : Int) : Chk Int := do
  let t ←
    if y32 > 39000 then do
      let p ← ck32 (y32 / 2 * kLog10)
      let p ← ck32 (p + 4096)
      pure (p / 2 ^ 13)
    else do
      let p ← ck32 (y32 * kLog10)
      let p ← ck32 (p + 8192)
      pure (p / 2 ^ 14)
  let t ← ck32 (t + 16 * 2 ^ 14)
  powerOfTwo t

/-- Entry `i` of the table. -/
def gainTableEntry (maxGain diffGain targetLevelDbfs limiterEnable limiterIdx i : Int) :
    Chk Int := do
  let l ← logApprox diffGain i
  let y32 ← compressorExponent maxGain diffGain l
  gainOfExponent
    (if limiterEnable ≠ 0 ∧ i < limiterIdx then limiterExponent targetLevelDbfs i else y32)

/-- `WebRtcAgc_CalculateGainTable`: the table, or `none` for its return value
-1, with which it leaves the old table alone. -/
def calculateGainTable (digCompGaindB targetLevelDbfs limiterEnable analogTarget : Int) :
    Chk (Option (List Int)) :=
  let maxGain := maxDigitalGain digCompGaindB targetLevelDbfs analogTarget
  let diffGain := diffDigitalGain digCompGaindB
  if diffGain < 0 ∨ diffGain ≥ kGenFuncTableSize then pure none
  else do
    let t ← (List.range 32).mapM fun i : ℕ =>
      gainTableEntry maxGain diffGain targetLevelDbfs limiterEnable (limiterIndex analogTarget) i
    pure (some t)

end AgcSpec
