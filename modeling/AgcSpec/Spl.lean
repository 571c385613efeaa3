/-
# The signal processing library

`digital_agc/signal_processing_library.c` and `.h`: the leading-zero counts,
the guarded divisions, the fixed-point square root, the half-band decimator
and the scaled dot product that the gain control is built from. Arrays are
lists, integers are `Int` with the reductions of `AgcSpec.Lib.Checked`; a
function whose arithmetic can leave its type returns a `Chk`.
-/
import AgcSpec.Lib.Checked

namespace AgcSpec

open FixedPoint

/-! ### Leading zeros -/

/-- `WebRtcSpl_CountLeadingZeros32`, of an unsigned number. -/
def countLeadingZeros32 (n : Int) : Int := if n = 0 then 32 else 31 - (Nat.log2 n.toNat : Int)

/-- `WebRtcSpl_NormW32`: the number of steps `a` can be shifted left without
overflow, 0 for 0. The complement of `a` is `-a - 1`. -/
def normW32 (a : Int) : Int :=
  if a = 0 then 0 else countLeadingZeros32 (if a < 0 then -a - 1 else a) - 1

/-- `WebRtcSpl_NormU32`. -/
def normU32 (a : Int) : Int := if a = 0 then 0 else countLeadingZeros32 a

/-- An unsigned number of at most 31 bits has a leading zero, and one that is
not 0 at most 31 of them. -/
theorem normU32_range {a : Int} (h0 : 0 < a) (h1 : a < 2 ^ 31) :
    1 ≤ normU32 a ∧ normU32 a ≤ 31 := by
  have ha : a.toNat ≠ 0 := by omega
  have hlog : Nat.log2 a.toNat < 31 := (Nat.log2_lt ha).mpr (by omega)
  simp only [normU32, countLeadingZeros32, show a ≠ 0 by omega, if_false]
  omega

/-- A positive number shifted left by its norm has 31 bits. -/
theorem normW32_pos {a : Int} (h0 : 0 < a) (h1 : a < 2 ^ 31) :
    ∃ k : ℕ, normW32 a = k ∧ k ≤ 30 ∧ 2 ^ 30 ≤ a * 2 ^ k ∧ a * 2 ^ k < 2 ^ 31 := by
  obtain ⟨n, rfl⟩ := Int.eq_ofNat_of_zero_le h0.le
  have hn : n ≠ 0 := by omega
  have hlog : Nat.log2 n < 31 := (Nat.log2_lt hn).mpr (by omega)
  have hlo : 2 ^ 30 ≤ n * 2 ^ (30 - Nat.log2 n) := by
    calc 2 ^ 30 = 2 ^ Nat.log2 n * 2 ^ (30 - Nat.log2 n) := by rw [← pow_add]; congr 1; omega
      _ ≤ n * 2 ^ (30 - Nat.log2 n) := Nat.mul_le_mul_right _ (Nat.log2_self_le hn)
  have hhi : n * 2 ^ (30 - Nat.log2 n) < 2 ^ 31 := by
    calc n * 2 ^ (30 - Nat.log2 n) < 2 ^ (Nat.log2 n + 1) * 2 ^ (30 - Nat.log2 n) :=
          Nat.mul_lt_mul_of_pos_right Nat.lt_log2_self (by positivity)
      _ = 2 ^ 31 := by rw [← pow_add]; congr 1; omega
  refine ⟨30 - Nat.log2 n, ?_, by omega, by exact_mod_cast hlo, by exact_mod_cast hhi⟩
  simp only [normW32, countLeadingZeros32, show (n : Int) ≠ 0 by omega, show ¬ (n : Int) <
    0 by omega, if_false, Int.toNat_natCast]
  omega

/-- A negative one stays in 32 bits; its complement then has 31 bits. -/
theorem normW32_neg {a : Int} (h0 : a < -1) (h1 : -2 ^ 31 ≤ a) :
    ∃ k : ℕ, normW32 a = k ∧ k ≤ 30 ∧ 2 ^ 30 ≤ (-a - 1) * 2 ^ k ∧
      -2 ^ 31 ≤ a * 2 ^ k := by
  obtain ⟨k, hk, hk30, hge, hlt⟩ := normW32_pos (a := -a - 1) (by omega) (by omega)
  refine ⟨k, ?_, hk30, hge, ?_⟩
  · simp only [normW32, show a ≠ 0 by omega, show a < 0 by omega, show ¬ (-a - 1 < 0) by omega,
      show -a - 1 ≠ 0 by omega, if_false, if_true] at hk ⊢
    exact hk
  · -- the complement is less than a power of two, so the number is at most that
    have hpow : (2 : Int) ^ 31 = 2 ^ (31 - k) * 2 ^ k := by rw [← pow_add]; congr 1; omega
    have hle : -a - 1 < 2 ^ (31 - k) := lt_of_mul_lt_mul_right (hpow ▸ hlt) (by positivity)
    have := mul_le_mul_of_nonneg_right (show -a ≤ 2 ^ (31 - k) by omega)
      (by positivity : (0 : Int) ≤ 2 ^ k)
    rw [← hpow] at this
    linarith

/-! ### Shifts and divisions -/

/-- `WEBRTC_SPL_SHIFT_W32`: left for a positive amount, right for a negative one. -/
def shiftW32 (x c : Int) : Chk Int :=
  if c ≥ 0 then do
    let p ← flag (c ≤ 30) (2 ^ c.toNat)
    ck32 (x * p)
  else flag (-c ≤ 31) (x / 2 ^ (-c).toNat)

theorem shiftW32_up {x : Int} {c : ℕ} (hc : c ≤ 30) (h : InI32 (x * 2 ^ c)) :
    shiftW32 x c = pure (x * 2 ^ c) := by
  rw [shiftW32, if_pos (by omega), flag_eq (by omega), pure_bind, Int.toNat_natCast, ck32_eq h]

theorem shiftW32_down (x : Int) {c : ℕ} (h0 : 0 < c) (h1 : c ≤ 31) :
    shiftW32 x (-c) = pure (x / 2 ^ c) := by
  rw [shiftW32, if_neg (by omega), flag_eq (by omega), neg_neg, Int.toNat_natCast]

/-- `WebRtcSpl_DivW32W16ResW16`: a division with a 16-bit result, `0x7FFF`
for a divisor 0. -/
def divW32W16ResW16 (num den : Int) : Int := if den ≠ 0 then i16 (num.tdiv den) else 0x7FFF

/-- `WebRtcSpl_DivW32W16`. -/
def divW32W16 (num den : Int) : Int := if den ≠ 0 then num.tdiv den else 0x7FFFFFFF

/-- `WebRtcSpl_AddSatW16`. -/
def addSatW16 (a b : Int) : Int := sat16 (a + b)

/-! ### Square root -/

/-- `WebRtcSpl_SqrtLocal`: `sqrt(in)` in Q31 by a polynomial of degree five. -/
def sqrtLocal (x : Int) : Chk Int := do
  let b ← ck32 (x.tdiv 2 - 0x40000000)
  let x_half ← ck16 (b / 2 ^ 16)
  let b ← ck32 (b + 0x40000000)
  let b ← ck32 (b + 0x40000000)
  let sq ← ck32 (x_half * x_half)
  let x2 ← ck32 (sq * 2)
  let a ← ck32 (-x2)
  let b ← ck32 (b + a / 2)
  let a := a / 2 ^ 16
  let aa ← ck32 (a * a)
  let a ← ck32 (aa * 2)
  let t16 ← ck16 (a / 2 ^ 16)
  let p ← ck32 (-20480 * t16)
  let p ← ck32 (p * 2)
  let b ← ck32 (b + p)
  let p ← ck32 (x_half * t16)
  let a ← ck32 (p * 2)
  let t16 ← ck16 (a / 2 ^ 16)
  let p ← ck32 (28672 * t16)
  let p ← ck32 (p * 2)
  let b ← ck32 (b + p)
  let t16 ← ck16 (x2 / 2 ^ 16)
  let p ← ck32 (x_half * t16)
  let a ← ck32 (p * 2)
  let b ← ck32 (b + a / 2)
  ck32 (b + 32768)

/-- `WebRtcSpl_Sqrt`: the root of `|value|`. -/
def sqrt (value : Int) : Chk Int :=
  if value = 0 then pure 0
  else do
    let a := if value < 0 then (if value = -2 ^ 31 then 0x7FFFFFFF else -value) else value
    let sh := normW32 a
    let a ← ck32 (a * 2 ^ sh.toNat)
    let a ← if a < 0x7FFFFFFF - 32767 then ck32 (a + 32768) else pure 0x7FFFFFFF
    let x_norm ← ck16 (a / 2 ^ 16)
    let nshift := sh.tdiv 2
    if nshift < 0 then pure (-1)
    else do
      let a ← ck32 (x_norm * 2 ^ 16)
      let a ← if a ≥ 0 then pure a else ck32 (-a)
      let a ← sqrtLocal a
      let a ←
        if 2 * nshift = sh then do
          let t16 ← ck16 (a / 2 ^ 16)
          let p ← ck32 (23170 * t16)
          let p ← ck32 (p * 2)
          let p ← ck32 (p + 32768)
          -- the mask 0x7fff0000
          pure ((p % 2 ^ 31 - p % 2 ^ 16) / 2 ^ 15)
        else pure (a / 2 ^ 16)
      pure (a % 2 ^ 16 / 2 ^ nshift.toNat)

/-! ### The half-band decimator -/

/-- The eight states of the two allpass branches (`filterState`, `downState`). -/
structure FiltState where
  state0 : Int
  state1 : Int
  state2 : Int
  state3 : Int
  state4 : Int
  state5 : Int
  state6 : Int
  state7 : Int
deriving DecidableEq, Repr

/-- `WebRtcSpl_MemSetW32(filterState, 0, 8)`. -/
def FiltState.zero : FiltState := ⟨0, 0, 0, 0, 0, 0, 0, 0⟩

/-- `WEBRTC_SPL_SCALEDIFF32`, the body of `MUL_ACCUM_1` and `MUL_ACCUM_2`:
`C + A * B / 2^16`. The low half's product is unsigned, so the last addition
is too, and the result is converted back. -/
def scaleDiff32 (A B C : Int) : Chk Int := do
  let hi ← ck32 (B / 2 ^ 16 * A)
  let s ← ck32 (C + hi)
  let lo ← cku32 (B % 2 ^ 16 * A)
  ck32 (s + lo / 2 ^ 16)

/-- One branch of the decimator, three first-order allpass sections with the
coefficients `k0`, `k1`, `k2`, on the sample `x`. -/
def allpassBranch (k0 k1 k2 x s0 s1 s2 s3 : Int) : Chk (Int × Int × Int × Int) := do
  let in32 ← ck32 (x * 2 ^ 10)
  let diff ← ck32 (in32 - s1)
  let tmp1 ← scaleDiff32 k0 diff s0
  let diff ← ck32 (tmp1 - s2)
  let tmp2 ← scaleDiff32 k1 diff s1
  let diff ← ck32 (tmp2 - s3)
  let out ← scaleDiff32 k2 diff s2
  pure (in32, tmp1, tmp2, out)

/-- `WebRtcSpl_DownsampleBy2`: one output sample for every two input samples,
the even ones through the lower branch and the odd ones through the upper. -/
def downsampleBy2 (st : FiltState) : List Int → Chk (FiltState × List Int)
  | a :: b :: rest => do
    let lo ← allpassBranch 12199 37471 60255 a st.state0 st.state1 st.state2 st.state3
    let up ← allpassBranch 3284 24441 49528 b st.state4 st.state5 st.state6 st.state7
    let s ← ck32 (lo.2.2.2 + up.2.2.2)
    let s ← ck32 (s + 1024)
    let r ← downsampleBy2
      ⟨lo.1, lo.2.1, lo.2.2.1, lo.2.2.2, up.1, up.2.1, up.2.2.1, up.2.2.2⟩ rest
    pure (r.1, sat16 (s / 2 ^ 11) :: r.2)
  | _ => pure (st, [])

/-! ### The dot product -/

/-- The sum of `WebRtcSpl_DotProductWithScale`, in 64 bits: four products a
turn while four are left, then one a turn. -/
def dotProductLoop (scaling : Nat) (sum : Int) : List Int → List Int → Int
  | a0 :: a1 :: a2 :: a3 :: as, b0 :: b1 :: b2 :: b3 :: bs =>
    dotProductLoop scaling
      (sum + a0 * b0 / 2 ^ scaling + a1 * b1 / 2 ^ scaling + a2 * b2 / 2 ^ scaling +
        a3 * b3 / 2 ^ scaling) as bs
  | a :: as, b :: bs => dotProductLoop scaling (sum + a * b / 2 ^ scaling) as bs
  | _, _ => sum

/-- `WebRtcSpl_DotProductWithScale`, clamped to 32 bits. -/
def dotProductWithScale (vector1 vector2 : List Int) (scaling : Nat) : Int :=
  let sum := dotProductLoop scaling 0 vector1 vector2
  if sum > 0x7FFFFFFF then 0x7FFFFFFF else if sum < -2 ^ 31 then -2 ^ 31 else sum

end AgcSpec
