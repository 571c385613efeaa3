/-
# The range of the gain table

The gain tables for every target level from 0 to 31 and every compression gain
from 0 to 90, and the arithmetic of an entry for all the gains that
`WebRtcAgc_CalculateGainTable` can work with. An entry goes through three
approximations. The logarithm on the compressor's curve is read off a table
(`logApprox_eq`). The ratio that turns it into an exponent is formed in
floating point by hand, with a shift that depends on the numerator; it is
never below the exact ratio, and above it only by the bits the denominator
loses (`fixRatio_upper`, `fixRatio_lower`). The power of two is exact below 31
octaves (`powerOfTwo_eq`).

The largest digital gain of the adaptive digital mode is 75 dB, so no entry of
its tables is above `2^29` (`tableOf_bounded`); the tables of the fixed digital
mode stay below `2^31` (`tableOf_wide`).
-/
import AgcSpec.Gains
import AgcSpec.Config

namespace AgcSpec
namespace TableRange

open FixedPoint Gains

/-! ### A quotient with a normalised numerator

The numerator goes up by `e` bits and the denominator down by `9 - e`, which
loses bits of it. The numerator is shifted as far as it goes, so the
denominator loses few bits against its size. -/

/-- The quotient of `n` and `den` in Q9. -/
def quot (e : ℕ) (n den : Int) : Int := n * 2 ^ e / (den / 2 ^ (9 - e))

theorem shifted_den {e : ℕ} {den : Int} (hden : 5120 ≤ den) :
    0 < den / 2 ^ (9 - e) ∧ den / 2 ^ (9 - e) * 2 ^ (9 - e) ≤ den ∧
      den < den / 2 ^ (9 - e) * 2 ^ (9 - e) + 2 ^ (9 - e) ∧
      9 * den ≤ 10 * (den / 2 ^ (9 - e) * 2 ^ (9 - e)) := by
  have hp : (0 : Int) < 2 ^ (9 - e) := by positivity
  have hle : (2 : Int) ^ (9 - e) ≤ 2 ^ 9 := pow_le_pow_right₀ (by decide) (by omega)
  have h1 := Int.ediv_mul_le den hp.ne'
  have h2 := Int.lt_ediv_add_one_mul_self den hp
  rw [add_mul, one_mul] at h2
  have h0 : 1 ≤ den / 2 ^ (9 - e) := (Int.le_ediv_iff_mul_le hp).mpr (by omega)
  exact ⟨h0, h1, h2, by omega⟩

/-- The quotient is not below the exact one, rounded down. -/
theorem lt_quot {e : ℕ} {n den : Int} (he : e ≤ 9) (hden : 5120 ≤ den) (hn : 0 ≤ n) :
    512 * n < (quot e n den + 1) * den := by
  obtain ⟨hpos, hle, -, -⟩ := shifted_den (e := e) hden
  have hq : 0 ≤ quot e n den := Int.ediv_nonneg (by positivity) hpos.le
  have hlt : n * 2 ^ e < (quot e n den + 1) * (den / 2 ^ (9 - e)) :=
    Int.lt_ediv_add_one_mul_self _ hpos
  have hpow : (2 : Int) ^ e * 2 ^ (9 - e) = 512 := by rw [← pow_add, Nat.add_sub_of_le he]; rfl
  calc 512 * n = n * 2 ^ e * 2 ^ (9 - e) := by rw [← hpow]; ring
    _ < (quot e n den + 1) * (den / 2 ^ (9 - e)) * 2 ^ (9 - e) :=
      mul_lt_mul_of_pos_right hlt (by positivity)
    _ = (quot e n den + 1) * (den / 2 ^ (9 - e) * 2 ^ (9 - e)) := by ring
    _ ≤ (quot e n den + 1) * den := mul_le_mul_of_nonneg_left hle (by omega)

/-- And above it only by what the lost bits can make of a ratio of at most
`r`. -/
theorem quot_le {e : ℕ} {n den r m : Int} (he : e ≤ 9) (hden : 5120 ≤ den) (hn : 0 ≤ n)
    (hnorm : e < 9 → 2 ^ 30 ≤ n * 2 ^ e)
    (hr : n ≤ r * den) (hm : 5120 * (r * r) ≤ 9 * (m * 2 ^ 21)) :
    quot e n den * den ≤ 512 * n + m * den := by
  obtain ⟨hpos, hle, hlt, hnine⟩ := shifted_den (e := e) hden
  have hq : 0 ≤ quot e n den := Int.ediv_nonneg (by positivity) hpos.le
  have hpow : (2 : Int) ^ e * 2 ^ (9 - e) = 512 := by rw [← pow_add, Nat.add_sub_of_le he]; rfl
  have hD : quot e n den * (den / 2 ^ (9 - e) * 2 ^ (9 - e)) ≤ 512 * n := by
    calc quot e n den * (den / 2 ^ (9 - e) * 2 ^ (9 - e))
        = quot e n den * (den / 2 ^ (9 - e)) * 2 ^ (9 - e) := by ring
      _ ≤ n * 2 ^ e * 2 ^ (9 - e) := mul_le_mul_of_nonneg_right (Int.ediv_mul_le _ hpos.ne')
        (by positivity)
      _ = 512 * n := by rw [← hpow]; ring
  -- the lost bits, as a part of the numerator
  have hlost : quot e n den * 2 ^ (9 - e) * 2 ^ 21 ≤ quot e n den * n ∨ e = 9 := by
    rcases Nat.lt_or_ge e 9 with h9 | h9
    · have hn' : (2 : Int) ^ (9 - e) * 2 ^ 21 ≤ n := by
        have h := hnorm h9
        rw [show (2 : Int) ^ 30 =
          2 ^ (9 - e) * 2 ^ 21 * 2 ^ e by rw [mul_assoc, mul_comm, mul_assoc, hpow]; rfl] at h
        exact le_of_mul_le_mul_right h (by positivity)
      rw [mul_assoc]
      exact .inl (mul_le_mul_of_nonneg_left hn' hq)
    · exact .inr (le_antisymm he h9)
  have hr0 : 0 ≤ r := by
    by_contra hneg
    have := mul_neg_of_neg_of_pos (not_le.mp hneg) (show 0 < den by omega)
    omega
  have hnine' : 9 * quot e n den ≤ 5120 * r := by
    have h1 : 9 * quot e n den * den ≤ 5120 * r * den := by
      have := mul_le_mul_of_nonneg_left hnine hq
      linarith
    exact le_of_mul_le_mul_right h1 (by omega)
  have hm0 : 0 ≤ m * den := mul_nonneg (by have := mul_nonneg hr0 hr0; omega) (by omega)
  rcases hlost with hlost | rfl
  · have h2 : 9 * (quot e n den * n) ≤ 9 * (m * 2 ^ 21) * den := by
      calc 9 * (quot e n den * n) = 9 * quot e n den * n := by ring
        _ ≤ 5120 * r * (r * den) := mul_le_mul hnine' hr hn (by omega)
        _ = 5120 * (r * r) * den := by ring
        _ ≤ 9 * (m * 2 ^ 21) * den := mul_le_mul_of_nonneg_right hm (by omega)
    have h3 : quot e n den * den ≤
        quot e n den * (den / 2 ^ (9 - e) * 2 ^ (9 - e) + 2 ^ (9 - e)) :=
      mul_le_mul_of_nonneg_left hlt.le hq
    rw [mul_add] at h3
    linarith
  · simp only [Nat.sub_self, pow_zero, Int.ediv_one, mul_one] at hD
    linarith

/-! ### The ratio -/

/-- `zeros` of the compressor: how far the numerator goes up. -/
def ratioShift (N den : Int) : Int := if N > den / 2 ^ 8 ∨ -N > den / 2 ^ 8 then normW32 N
    else normW32 den + 8

/-- The ratio of numerator and denominator in Q9 of the shifted operands. -/
def fixRatio (N den : Int) : Int :=
  (i32 (N * 2 ^ (ratioShift N den).toNat)).tdiv (shiftW32 den (ratioShift N den - 9)).val

/-- The operations that form it. -/
def ratio (N den : Int) : Chk Int := do
  let p ← flag (ratioShift N den ≤ 30) (2 ^ (ratioShift N den).toNat)
  let num ← ck32 (N * p)
  let d ← shiftW32 den (ratioShift N den - 9)
  flag (d ≠ 0) (num.tdiv d)

/-- The shift fills the 31 bits of the numerator unless it is small, and both
operands stay in range. -/
theorem ratioShift_spec {N den : Int} (hden : 5120 ≤ den ∧ den ≤ 2 ^ 20)
    (hN : -2 ^ 31 < N ∧ N < 2 ^ 31) :
    ∃ k : ℕ, ratioShift N den = k ∧ k ≤ 30 ∧ InI32 (N * 2 ^ k) ∧ (k < 9 →
      2 ^ 30 ≤ |N| * 2 ^ k) ∧
      (9 ≤ k → den * 2 ^ (k - 9) < 2 ^ 31) := by
  have hlarge : ∀ {k : ℕ} {n : Int}, den < 256 * n → n * 2 ^ k ≤ 2 ^ 31 → 9 ≤ k →
      den * 2 ^ (k - 9) < 2 ^ 31 := by
    intro k n hlt hk h9
    obtain ⟨m, rfl⟩ := Nat.exists_eq_add_of_le h9
    have hm : (0 : Int) < 2 ^ m := by positivity
    have := mul_lt_mul_of_pos_right hlt hm
    rw [pow_add] at hk
    rw [Nat.add_sub_cancel_left]
    linarith
  by_cases hpos : N > den / 2 ^ 8
  · obtain ⟨k, hk, hk30, hlo, hhi⟩ := normW32_pos (a := N) (by omega) hN.2
    refine ⟨k, by rw [ratioShift, if_pos (.inl hpos), hk], hk30, ⟨by omega, hhi⟩, fun _ => ?_,
      hlarge (n := N) (by omega) hhi.le⟩
    rw [abs_of_pos (by omega)]
    exact hlo
  by_cases hneg : -N > den / 2 ^ 8
  · obtain ⟨k, hk, hk30, hge, hlo⟩ := normW32_neg (a := N) (by omega) hN.1.le
    have hp : (0 : Int) < 2 ^ k := by positivity
    rw [sub_mul, one_mul, neg_mul] at hge
    refine ⟨k, by rw [ratioShift, if_pos (.inr hneg), hk], hk30, ⟨hlo, by omega⟩, fun _ => ?_,
      hlarge (n := -N) (by omega) (by rw [neg_mul]; omega)⟩
    rw [abs_of_neg (by omega), neg_mul]
    omega
  · obtain ⟨j, hj, -, hlo, hhi⟩ := normW32_pos (a := den) (by omega) (by omega)
    -- the denominator has between 13 and 21 bits
    have hj10 : 10 ≤ j := by
      by_contra hlt
      have : (2 : Int) ^ j ≤ 2 ^ 9 := pow_le_pow_right₀ (by decide) (by omega)
      have := mul_le_mul hden.2 this (by positivity) (by decide)
      omega
    have hj18 : j ≤ 18 := by
      by_contra hgt
      have : (2 : Int) ^ 19 ≤ 2 ^ j := pow_le_pow_right₀ (by decide) (by omega)
      have := mul_le_mul hden.1 this (by positivity) (by omega)
      omega
    obtain ⟨m, rfl⟩ := Nat.exists_eq_add_of_le (show 1 ≤ j by omega)
    have hm : (0 : Int) < 2 ^ m := by positivity
    have hup : N * 2 ^ (9 + m) = 2 * (256 * N * 2 ^ m) := by rw [pow_add]; ring
    have hden' : den * 2 ^ (1 + m) = 2 * (den * 2 ^ m) := by rw [pow_add]; ring
    have h1 : 256 * N * 2 ^ m ≤ den * 2 ^ m := mul_le_mul_of_nonneg_right (by omega) hm.le
    have h2 : -den * 2 ^ m ≤ 256 * N * 2 ^ m := mul_le_mul_of_nonneg_right (by omega) hm.le
    rw [neg_mul] at h2
    refine ⟨9 + m, ?_, by omega, ⟨by omega, by omega⟩, fun h => by omega, fun _ => ?_⟩
    · rw [ratioShift, if_neg (by omega), hj]
      push_cast
      ring
    · rw [Nat.add_sub_cancel_left]
      omega

/-- The ratio is formed exactly, and is a normalised quotient with the sign of
the numerator. -/
theorem ratio_eq {N den : Int} (hden : 5120 ≤ den ∧ den ≤ 2 ^ 20)
    (hN : -2 ^ 31 < N ∧ N < 2 ^ 31) :
    ratio N den = pure (fixRatio N den) ∧ ∃ e ≤ 9, (e < 9 → 2 ^ 30 ≤ |N| * 2 ^ e) ∧
      fixRatio N den = if 0 ≤ N then quot e N den else -quot e (-N) den := by
  obtain ⟨k, hk, hk30, hnum, hnorm, hup⟩ := ratioShift_spec hden hN
  have hp : (0 : Int) < 2 ^ k := by positivity
  -- the shifted denominator
  obtain ⟨D, hD, hD0, hquot⟩ : ∃ D : Int, shiftW32 den (k - 9) = pure D ∧ 0 < D ∧
      ∀ n, n * 2 ^ k / D = quot (min k 9) n den := by
    rcases Nat.lt_or_ge k 9 with h9 | h9
    · obtain ⟨hpos, -, -, -⟩ := shifted_den (e := k) hden.1
      refine ⟨den / 2 ^ (9 - k), ?_, hpos, fun n => by rw [min_eq_left h9.le, quot]⟩
      rw [show (k : Int) - 9 = -((9 - k : ℕ) : Int) by omega]
      exact shiftW32_down den (by omega) (by omega)
    · obtain ⟨m, rfl⟩ := Nat.exists_eq_add_of_le h9
      have hm : (0 : Int) < 2 ^ m := by positivity
      have hpos : 0 < den * 2 ^ m := mul_pos (by omega) hm
      have hlt := hup h9
      rw [Nat.add_sub_cancel_left] at hlt
      refine ⟨den * 2 ^ m, ?_, hpos, fun n => ?_⟩
      · rw [show ((9 + m : ℕ) : Int) - 9 = (m : ℕ) by push_cast; ring]
        exact shiftW32_up (by omega) ⟨by omega, hlt⟩
      · rw [min_eq_right h9, quot, Nat.sub_self, pow_zero, Int.ediv_one, pow_add, ← mul_assoc,
          Int.mul_ediv_mul_of_pos_left _ _ hm]
  have hfix : fixRatio N den = (N * 2 ^ k).tdiv D := by
    rw [fixRatio, hk, Int.toNat_natCast, i32_of hnum, hD, Chk.val_pure]
  refine ⟨?_, min k 9, min_le_right _ _, fun h => ?_, ?_⟩
  · rw [ratio, hk, flag_eq (by omega), pure_bind, Int.toNat_natCast, ck32_eq hnum, pure_bind,
      hD, pure_bind, flag_eq hD0.ne', hfix]
  · rw [min_eq_left (by omega)]
    exact hnorm (by omega)
  · rw [hfix, tdiv_eq, ← hquot, ← hquot, neg_mul]
    by_cases h0 : 0 ≤ N
    · rw [if_pos h0, if_pos (by positivity)]
    · rw [if_neg h0, if_neg (not_le.mpr (mul_neg_of_neg_of_pos (not_le.mp h0) hp))]

/-- The estimate of the ratio from above, for numerators up to 290
denominators. -/
theorem fixRatio_upper {N den : Int} (hden : 5120 ≤ den ∧ den ≤ 2 ^ 20)
    (hN : -2 ^ 31 < N ∧ N < 2 ^ 31) (hr : N ≤ 290 * den) :
    fixRatio N den * den ≤ 512 * N + 23 * den := by
  obtain ⟨-, e, he, hnorm, heq⟩ := ratio_eq hden hN
  rw [heq]
  split
  · rename_i h0
    rw [abs_of_nonneg h0] at hnorm
    exact quot_le he hden.1 h0 hnorm hr (by decide)
  · have := lt_quot he hden.1 (show 0 ≤ -N by omega)
    rw [add_mul, one_mul] at this
    rw [neg_mul]
    omega

theorem fixRatio_lower {N den : Int} (hden : 5120 ≤ den ∧ den ≤ 2 ^ 20)
    (hN : -2 ^ 31 < N ∧ N < 2 ^ 31) (hr : -115 * den ≤ N) :
    512 * N ≤ fixRatio N den * den + 4 * den := by
  obtain ⟨-, e, he, hnorm, heq⟩ := ratio_eq hden hN
  rw [heq]
  split
  · rename_i h0
    have := lt_quot he hden.1 h0
    rw [add_mul, one_mul] at this
    omega
  · rename_i h0
    rw [abs_of_neg (not_le.mp h0)] at hnorm
    have := quot_le (r := 115) (m := 4) he hden.1 (show 0 ≤ -N by omega) hnorm
      (by omega) (by decide)
    rw [neg_mul]
    omega

/-! ### The curve -/

/-- The generator table at `|inLevel|`, with linear interpolation (Q22). -/
def genLog (a : Int) : Int :=
  (kGenFuncTable.getD (a / 2 ^ 14 + 1).toNat 0 - kGenFuncTable.getD (a / 2 ^ 14).toNat 0) *
    (a % 2 ^ 14) + kGenFuncTable.getD (a / 2 ^ 14).toNat 0 * 2 ^ 14

/-- `|inLevel|` times `log2(e)`, in Q22. -/
def linLog (a : Int) : Int :=
  if normU32 a < 15 then a / 2 ^ (15 - normU32 a).toNat * kLogE_1 / 2 ^ (normU32 a - 9).toNat
  else a * kLogE_1 / 2 ^ 6

/-- `logApprox` of a level in exact arithmetic. -/
def curveLog (lvl : Int) : Int :=
  if lvl < 0 then (if linLog (-lvl) < genLog (-lvl) then (genLog (-lvl) - linLog (-lvl)) / 2 ^ 8
    else 0)
  else genLog lvl / 2 ^ 8

theorem kGenFuncTable_step {n : ℕ} (h : n < 127) :
    0 ≤ kGenFuncTable.getD n 0 ∧ kGenFuncTable.getD n 0 ≤ kGenFuncTable.getD (n + 1) 0 ∧
      kGenFuncTable.getD (n + 1) 0 ≤ kGenFuncTable.getD n 0 + 370 ∧
        kGenFuncTable.getD (n + 1) 0 ≤ 46905 := by
  have hall : ∀ n ∈ List.range 127, 0 ≤ kGenFuncTable.getD n 0 ∧
    kGenFuncTable.getD n 0 ≤ kGenFuncTable.getD (n + 1) 0 ∧
      kGenFuncTable.getD (n + 1) 0 ≤ kGenFuncTable.getD n 0 + 370 ∧
        kGenFuncTable.getD (n + 1) 0 ≤ 46905 := by
    decide +kernel
  exact hall n (List.mem_range.mpr h)

theorem inLevel_range {d i : Int} (hd : 0 ≤ d ∧ d ≤ 124) (hi : 0 ≤ i ∧ i ≤ 31) :
    -986421 ≤ inLevel d i ∧ inLevel d i ≤ 2064496 := by
  rw [inLevel, divW32W16, if_pos (by decide), kCompRatio, kLog10_2, i16_of ⟨by omega, by omega⟩,
    tdiv_eq]
  split <;> omega

theorem genLog_range {a : Int} (h0 : 0 ≤ a) (h1 : a < 127 * 2 ^ 14) :
    0 ≤ genLog a ∧ genLog a ≤ 46905 * 2 ^ 14 := by
  obtain ⟨n, hn⟩ := Int.eq_ofNat_of_zero_le (show 0 ≤ a / 2 ^ 14 by omega)
  obtain ⟨ht0, ht1, ht2, ht3⟩ := kGenFuncTable_step (n := n) (by omega)
  rw [genLog, hn, Int.toNat_natCast, show ((n : Int) + 1).toNat = n + 1 by omega]
  have hm0 : 0 ≤ (kGenFuncTable.getD (n + 1) 0 - kGenFuncTable.getD n 0) * (a % 2 ^ 14) :=
    mul_nonneg (by omega) (by omega)
  have hm1 := mul_le_mul_of_nonneg_left (show a % 2 ^ 14 ≤ 2 ^ 14 by omega)
    (show 0 ≤ kGenFuncTable.getD (n + 1) 0 - kGenFuncTable.getD n 0 by omega)
  omega

/-- The product with `log2(e)` is formed without overflow. -/
theorem normU32_product {a : Int} (h0 : 0 < a) (h1 : a < 2 ^ 20) :
    12 ≤ normU32 a ∧ normU32 a ≤ 31 ∧
      (normU32 a < 15 → a / 2 ^ (15 - normU32 a).toNat < 2 ^ 17) ∧
        (15 ≤ normU32 a → a < 2 ^ 17) := by
  have hne : a.toNat ≠ 0 := by omega
  have hlog : Nat.log2 a.toNat < 20 := (Nat.log2_lt hne).mpr (by omega)
  have hlt : a.toNat < 2 ^ (Nat.log2 a.toNat + 1) := Nat.lt_log2_self
  have hz : normU32 a = 31 - (Nat.log2 a.toNat : Int) := by
    simp only [normU32, countLeadingZeros32, show a ≠ 0 by omega, if_false]
  generalize Nat.log2 a.toNat = n at hlog hlt hz
  refine ⟨by omega, by omega, fun h => ?_, fun h => ?_⟩
  · obtain ⟨m, rfl⟩ := Nat.exists_eq_add_of_le (show 16 ≤ n by omega)
    rw [hz, show (15 - (31 - ((16 + m : ℕ) : Int))).toNat = m by omega]
    refine Int.ediv_lt_of_lt_mul (by positivity) ?_
    rw [← pow_add, add_comm, show m + 17 = 16 + m + 1 by omega]
    have : ((a.toNat : ℕ) : Int) < ((2 ^ (16 + m + 1) : ℕ) : Int) := by exact_mod_cast hlt
    rw [Int.toNat_of_nonneg h0.le] at this
    exact_mod_cast this
  · have : 2 ^ (n + 1) ≤ 2 ^ 17 := Nat.pow_le_pow_right (by decide) (by omega)
    omega

/-- `logApprox` is formed exactly for the compressor curves whose levels are
in the generator table. -/
theorem logApprox_eq {d i : Int} (hd : 0 ≤ d ∧ d ≤ 124) (hi : 0 ≤ i ∧ i ≤ 31) :
    logApprox d i = pure (curveLog (inLevel d i)) := by
  obtain ⟨hl0, hl1⟩ := inLevel_range hd hi
  rw [logApprox, curveLog]
  generalize inLevel d i = lvl at hl0 hl1
  dsimp only
  -- the interpolation
  have hgen : ∀ {β : Type} (a : Int) (k : Int → Chk β), 0 ≤ a → a < 127 * 2 ^ 14 → (do
      let t1 ← ckGet kGenFuncTable (u16 (a / 2 ^ 14) + 1)
      let t0 ← ckGet kGenFuncTable (u16 (a / 2 ^ 14))
      let p ← ck32 (u16 (t1 - t0) * (a % 2 ^ 14))
      let no1 ← cku32 (p + t0 * 2 ^ 14)
      k no1) = k (genLog a) := by
    intro β a k h0 h1
    have hlen : kGenFuncTable.length = 128 := rfl
    have hu : u16 (a / 2 ^ 14) = a / 2 ^ 14 := Int.emod_eq_of_lt (by omega) (by omega)
    obtain ⟨hg0, hg1⟩ := genLog_range h0 h1
    rw [genLog] at hg0 hg1 ⊢
    obtain ⟨n, hn⟩ := Int.eq_ofNat_of_zero_le (show 0 ≤ a / 2 ^ 14 by omega)
    obtain ⟨ht0, ht1, ht2, ht3⟩ := kGenFuncTable_step (n := n) (by omega)
    rw [hu, ckGet_eq ⟨by omega, by omega⟩, pure_bind, ckGet_eq ⟨by omega, by omega⟩,
      pure_bind]
    rw [hn, Int.toNat_natCast, show ((n : Int) + 1).toNat = n + 1 by omega] at hg0 hg1 ⊢
    have hd16 : u16 (kGenFuncTable.getD (n + 1) 0 - kGenFuncTable.getD n 0) =
        kGenFuncTable.getD (n + 1) 0 - kGenFuncTable.getD n 0 :=
          Int.emod_eq_of_lt (by omega) (by omega)
    rw [hd16]
    have hm0 : 0 ≤ (kGenFuncTable.getD (n + 1) 0 - kGenFuncTable.getD n 0) * (a % 2 ^ 14) :=
      mul_nonneg (by omega) (by omega)
    rw [ck32_eq ⟨by omega, by omega⟩, pure_bind, cku32_eq ⟨by omega, by omega⟩, pure_bind]
  rcases lt_or_ge lvl 0 with hneg | hpos
  · rw [if_neg (not_le.mpr hneg), hgen _ _ (by omega) (by omega), if_pos hneg, if_pos hneg]
    obtain ⟨hz0, hz1, hz2, hz3⟩ := normU32_product (a := -lvl) (by omega) (by omega)
    rw [linLog]
    -- the generator's value loses no bits, as the level has less than 21
    by_cases hz : normU32 (-lvl) < 15
    · have hq0 : 0 ≤ -lvl / 2 ^ (15 - normU32 (-lvl)).toNat :=
        Int.ediv_nonneg (by omega) (by positivity)
      have hq1 := hz2 hz
      rw [if_pos hz, if_pos hz, kLogE_1, cku32_eq ⟨by omega, by omega⟩, pure_bind,
        if_neg (by omega), pure_bind]
      dsimp only
      split
      · rw [flag_eq (by decide)]
        rfl
      · rfl
    · have := hz3 (by omega)
      rw [if_neg hz, if_neg hz, kLogE_1, cku32_eq ⟨by omega, by omega⟩, pure_bind, pure_bind]
      dsimp only
      split
      · rw [flag_eq (by decide)]
        rfl
      · rfl
  · rw [if_pos hpos, hgen _ _ hpos (by omega), if_neg (not_lt.mpr hpos), if_neg (not_lt.mpr hpos)]

theorem linLog_nonneg {a : Int} (h : 0 ≤ a) : 0 ≤ linLog a := by
  rw [linLog, kLogE_1]
  split
  · have : 0 ≤ a / 2 ^ (15 - normU32 a).toNat := Int.ediv_nonneg h (by positivity)
    exact Int.ediv_nonneg (by omega) (by positivity)
  · omega

theorem curveLog_range {d i : Int} (hd : 0 ≤ d ∧ d ≤ 124) (hi : 0 ≤ i ∧ i ≤ 31) :
    0 ≤ curveLog (inLevel d i) ∧ curveLog (inLevel d i) ≤ 2 ^ 22 := by
  obtain ⟨hl0, hl1⟩ := inLevel_range hd hi
  rw [curveLog]
  split
  · obtain ⟨hg0, hg1⟩ := genLog_range (a := -inLevel d i) (by omega) (by omega)
    have := linLog_nonneg (a := -inLevel d i) (by omega)
    split <;> omega
  · obtain ⟨hg0, hg1⟩ := genLog_range (a := inLevel d i) (by omega) (by omega)
    omega

theorem logApprox_range {d i : Int} (hd : 0 ≤ d ∧ d ≤ 124) (hi : 0 ≤ i ∧ i ≤ 31) :
    0 ≤ (logApprox d i).val ∧ (logApprox d i).val ≤ 2 ^ 22 := by
  rw [logApprox_eq hd hi]
  exact curveLog_range hd hi

/-! ### The exponents -/

/-- `constMaxGain`, the generator's value at `diffGain`. -/
def genFunc (d : Int) : Int := kGenFuncTable.getD d.toNat 0

theorem genFunc_range {d : Int} (hd : 0 ≤ d ∧ d ≤ 124) :
    256 ≤ genFunc d ∧ genFunc d ≤ 45797 ∧ 369 * d ≤ genFunc d := by
  have hall : ∀ d : Int, 0 ≤ d → d ≤ 124 → 256 ≤ genFunc d ∧ genFunc d ≤ 45797 ∧
    369 * d ≤ genFunc d := by decide +kernel
  exact hall d hd.1 hd.2

theorem mul_genFunc_le {d a b : Int} (hd : 0 ≤ d ∧ d ≤ 124) (h : a ≤ b) :
    a * genFunc d ≤ b * genFunc d := by
  obtain ⟨hC0, -, -⟩ := genFunc_range hd
  exact mul_le_mul_of_nonneg_right h (by omega)

/-- From one level to the next the approximation of the logarithm goes down,
but for the last bits of the generator table, and at the lowest level it is
lowest, but for these; it is nowhere far above the gain it stands for. -/
theorem curveLog_step {d i : Int} (hd : 0 ≤ d ∧ d ≤ 124) (hi : 0 ≤ i ∧ i ≤ 31) :
    curveLog (inLevel d (i + 1)) ≤ curveLog (inLevel d i) + 29 ∧
      curveLog (inLevel d 31) ≤ curveLog (inLevel d i) + 42 ∧
        curveLog (inLevel d i) * d ≤ 64 * (d + 3) * genFunc d := by
  have hall : ∀ d : Int, 0 ≤ d → d ≤ 124 → ∀ i : Int, 0 ≤ i → i ≤ 31 →
      curveLog (inLevel d (i + 1)) ≤ curveLog (inLevel d i) + 29 ∧
        curveLog (inLevel d 31) ≤ curveLog (inLevel d i) + 42 ∧
          curveLog (inLevel d i) * d ≤ 64 * (d + 3) * genFunc d := by
    decide +kernel
  exact hall d hd.1 hd.2 i hi.1 hi.2

/-- `numFIX`. -/
def numFix (maxGain d l : Int) : Int := maxGain * genFunc d * 2 ^ 6 - l * d

/-- The rounding from Q15 to Q14, halves away from 0. -/
def roundHalf (y : Int) : Int := if y ≥ 0 then (y + 1) / 2 else -((-y + 1) / 2)

theorem roundHalf_range (y : Int) : y - 1 ≤ 2 * roundHalf y ∧ 2 * roundHalf y ≤ y + 1 := by
  rw [roundHalf]
  split <;> omega

/-- Parameters of a curve for which every operation is exact. -/
structure Params (maxGain d : Int) : Prop where
  gain : -32 ≤ maxGain ∧ maxGain ≤ 186
  diff : 0 ≤ d ∧ d ≤ 124

theorem numFix_range {maxGain d l : Int} (h : Params maxGain d) (hl : 0 ≤ l ∧ l ≤ 2 ^ 22) :
    (-32 * genFunc d ≤ maxGain * genFunc d ∧ maxGain * genFunc d ≤ 186 * genFunc d) ∧
      0 ≤ l * d ∧ l * d ≤ 2 ^ 22 * 124 :=
  ⟨⟨mul_genFunc_le h.diff h.gain.1, mul_genFunc_le h.diff h.gain.2⟩,
    mul_nonneg hl.1 h.diff.1, mul_le_mul hl.2 h.diff.2 h.diff.1 (by decide)⟩

/-- The exponent of the compressor is formed exactly. -/
theorem compressorExponent_eq {maxGain d l : Int} (h : Params maxGain d)
    (hl : 0 ≤ l ∧ l ≤ 2 ^ 22) :
    compressorExponent maxGain d l =
      pure (roundHalf (fixRatio (numFix maxGain d l) (20 * genFunc d))) := by
  obtain ⟨hC0, hC1, -⟩ := genFunc_range h.diff
  obtain ⟨⟨ha0, ha1⟩, hb0, hb1⟩ := numFix_range h hl
  have hidx : 0 ≤ d ∧ d < kGenFuncTable.length := by
    have hd := h.diff
    have : kGenFuncTable.length = 128 := rfl
    omega
  have hratio : ratio (numFix maxGain d l) (20 * genFunc d) =
      pure (fixRatio (numFix maxGain d l) (20 * genFunc d)) := by
    rw [numFix]
    exact (ratio_eq ⟨by omega, by omega⟩ ⟨by omega, by omega⟩).1
  have hget : ckGet kGenFuncTable d = pure (genFunc d) := ckGet_eq hidx
  rw [compressorExponent, hget, pure_bind, i32_of ⟨by omega, by omega⟩,
    ck32_eq ⟨by omega, by omega⟩, pure_bind, ck32_eq ⟨by omega, by omega⟩, pure_bind,
    ck32_eq ⟨by omega, by omega⟩, pure_bind, ck32_eq ⟨by omega, by omega⟩, pure_bind,
    ck32_eq ⟨by omega, by omega⟩, pure_bind, ck32_eq ⟨by omega, by omega⟩, pure_bind]
  calc _ = (ratio (numFix maxGain d l) (20 * genFunc d) >>= fun y =>
        if y ≥ 0 then pure ((y + 1) / 2) else pure (-((-y + 1) / 2)) : Chk Int) := by
        simp only [ratio, bind_assoc]
        rfl
    _ = _ := by
        rw [hratio, pure_bind, roundHalf]
        split <;> rfl

theorem exponent_upper {maxGain d l : Int} (h : Params maxGain d) (hl : 0 ≤ l ∧ l ≤ 2 ^ 22)
    (hN : numFix maxGain d l ≤ 5800 * genFunc d) :
    5 * (compressorExponent maxGain d l).val * genFunc d ≤
      64 * numFix maxGain d l + 60 * genFunc d := by
  obtain ⟨hC0, hC1, -⟩ := genFunc_range h.diff
  obtain ⟨⟨ha0, ha1⟩, hb0, hb1⟩ := numFix_range h hl
  have hN' : -2 ^ 31 < numFix maxGain d l ∧ numFix maxGain d l < 2 ^ 31 := by
    rw [numFix]
    omega
  rw [compressorExponent_eq h hl, Chk.val_pure]
  have hup := fixRatio_upper ⟨by omega, by omega⟩ hN'
    (show _ ≤ 290 * (20 * genFunc d) by omega)
  have hhalf := mul_le_mul_of_nonneg_right
    (roundHalf_range (fixRatio (numFix maxGain d l) (20 * genFunc d))).2
    (show 0 ≤ 20 * genFunc d by omega)
  linarith

theorem exponent_lower {maxGain d l : Int} (h : Params maxGain d) (hl : 0 ≤ l ∧ l ≤ 2 ^ 22)
    (hN : -2300 * genFunc d ≤ numFix maxGain d l) :
    64 * numFix maxGain d l ≤ 5 * (compressorExponent maxGain d l).val * genFunc d +
      13 * genFunc d := by
  obtain ⟨hC0, hC1, -⟩ := genFunc_range h.diff
  obtain ⟨⟨ha0, ha1⟩, hb0, hb1⟩ := numFix_range h hl
  have hN' : -2 ^ 31 < numFix maxGain d l ∧ numFix maxGain d l < 2 ^ 31 := by
    rw [numFix]
    omega
  rw [compressorExponent_eq h hl, Chk.val_pure]
  have hlow := fixRatio_lower ⟨by omega, by omega⟩ hN'
    (show -115 * (20 * genFunc d) ≤ _ by omega)
  have hhalf := mul_le_mul_of_nonneg_right
    (roundHalf_range (fixRatio (numFix maxGain d l) (20 * genFunc d))).1
    (show 0 ≤ 20 * genFunc d by omega)
  linarith

theorem exponent_le {maxGain d l K q : Int} (h : Params maxGain d) (hl : 0 ≤ l ∧ l ≤ 2 ^ 22)
    (hK : K ≤ 5800) (hN : numFix maxGain d l ≤ K * genFunc d) (hq : 64 * K + 60 < 5 * (q + 1)) :
    (compressorExponent maxGain d l).val ≤ q := by
  obtain ⟨hC0, -, -⟩ := genFunc_range h.diff
  have hup := exponent_upper h hl (hN.trans (mul_genFunc_le h.diff hK))
  have hlt : (64 * K + 60) * genFunc d < 5 * (q + 1) * genFunc d :=
    mul_lt_mul_of_pos_right hq (by omega)
  have : 5 * (compressorExponent maxGain d l).val < 5 * (q + 1) := by
    refine lt_of_mul_lt_mul_right (lt_of_le_of_lt hup ?_) (by omega : 0 ≤ genFunc d)
    linarith
  omega

/-- At the seven loudest levels the curve has lost nearly all of the gain. -/
theorem logApprox_loud {d i : Int} (hd : 0 ≤ d ∧ d ≤ 81) (hi : 0 ≤ i ∧ i ≤ 6) :
    (64 * min 90 ((3 * d + 8) / 2) - 2700) * genFunc d ≤ (logApprox d i).val * d := by
  have hall : ∀ d : Int, 0 ≤ d → d ≤ 81 → ∀ i : Int, 0 ≤ i → i ≤ 6 →
      (64 * min 90 ((3 * d + 8) / 2) - 2700) * genFunc d ≤
        curveLog (inLevel d i) * d := by decide +kernel
  rw [logApprox_eq ⟨hd.1, by omega⟩ ⟨hi.1, by omega⟩, Chk.val_pure]
  exact hall d hd.1 hd.2 i hi.1 hi.2

/-- The parameters of a curve that a configuration can ask for: the largest
gain is at most one and a half times the gain lost towards 0 dBov. -/
structure Curve (maxGain d : Int) : Prop where
  lower : -31 ≤ maxGain
  upper : maxGain ≤ 90
  diff : 0 ≤ d ∧ d ≤ 81
  slope : 2 * maxGain ≤ 3 * d + 8

theorem Curve.params {maxGain d : Int} (h : Curve maxGain d) : Params maxGain d :=
  ⟨⟨by have := h.lower; omega, by have := h.upper; omega⟩,
    ⟨h.diff.1, by have := h.diff.2; omega⟩⟩

theorem numFix_le {maxGain d l K : Int} (h : Params maxGain d) (hl : 0 ≤ l)
    (hK : 64 * maxGain ≤ K) : numFix maxGain d l ≤ K * genFunc d := by
  have hpos : 0 ≤ l * d := mul_nonneg hl h.diff.1
  have := mul_genFunc_le h.diff hK
  rw [numFix]
  linarith

theorem compressorExponent_any {maxGain d l : Int} (hc : Curve maxGain d)
    (hl : 0 ≤ l ∧ l ≤ 2 ^ 22) : (compressorExponent maxGain d l).val ≤ 73900 :=
  exponent_le (K := 5760) hc.params hl (by decide)
    (numFix_le hc.params hl.1 (by have := hc.upper; omega)) (by decide)

theorem compressorExponent_adaptive {maxGain d l : Int} (hc : Curve maxGain d) (hm : maxGain ≤ 75)
    (hl : 0 ≤ l ∧ l ≤ 2 ^ 22) : (compressorExponent maxGain d l).val ≤ 64000 :=
  exponent_le (K := 4800) hc.params hl (by decide) (numFix_le hc.params hl.1 (by omega)) (by decide)

theorem compressorExponent_loud {maxGain d i : Int} (hc : Curve maxGain d)
    (hi : 0 ≤ i ∧ i ≤ 6) :
    (compressorExponent maxGain d (logApprox d i).val).val ≤ 35200 := by
  have hup := hc.upper
  have hslope := hc.slope
  have hloud := logApprox_loud hc.diff hi
  have htop : 64 * maxGain * genFunc d ≤ 64 * min 90 ((3 * d + 8) / 2) * genFunc d :=
    mul_genFunc_le hc.params.diff (by omega)
  refine exponent_le (K := 2700) hc.params (logApprox_range hc.params.diff ⟨hi.1, by omega⟩)
    (by decide) ?_ (by decide)
  rw [numFix]
  linarith

theorem limiterExponent_le {target i n y : Int} (ht : 0 ≤ target) (hi : i ≤ n)
    (hy : (n - 1) * kLog10_2 + 10 ≤ 20 * y + 19)
    (hy0 : 0 ≤ y) : limiterExponent target i ≤ y := by
  rw [kLog10_2] at hy
  rw [limiterExponent, divW32W16, if_pos (by decide), tdiv_eq, kLog10_2]
  split <;> omega

/-! ### The power of two -/

/-- The fraction of an octave, piecewise linear. -/
def octaveFrac (frac : Int) : Int :=
  if frac / 2 ^ 13 ≠ 0 then 2 ^ 14 - (2 ^ 14 - frac) * (2 * 2 ^ 14 - constLinApprox) / 2 ^ 13
  else frac * (constLinApprox - 2 ^ 14) / 2 ^ 13

theorem octaveFrac_range {f : Int} (h : 0 ≤ f ∧ f < 2 ^ 14) :
    0 ≤ octaveFrac f ∧ octaveFrac f < 2 ^ 14 ∧ octaveFrac f ≤ f := by
  rw [octaveFrac, constLinApprox]
  split <;> omega

theorem octave_eq {k : ℕ} {f : Int} (hk : k ≤ 30) (hf : 0 ≤ f ∧ f < 2 ^ 14) :
    (do let s ← shiftW32 f (k - 14); ck32 (2 ^ k + s) : Chk Int) =
      pure (2 ^ k * (2 ^ 14 + f) / 2 ^ 14) := by
  have hone : (0 : Int) < 2 ^ k ∧ (2 : Int) ^ k ≤ 2 ^ 30 :=
    ⟨by positivity, pow_le_pow_right₀ (by decide) hk⟩
  by_cases h14 : 14 ≤ k
  · obtain ⟨m, rfl⟩ := Nat.exists_eq_add_of_le h14
    have hm : (0 : Int) < 2 ^ m := by positivity
    have hle : f * 2 ^ m < 2 ^ 14 * 2 ^ m := mul_lt_mul_of_pos_right hf.2 hm
    have hnn : 0 ≤ f * 2 ^ m := mul_nonneg hf.1 hm.le
    rw [pow_add] at hone
    rw [show ((14 + m : ℕ) : Int) - 14 = (m : ℕ) by push_cast; ring,
      shiftW32_up (by omega) ⟨by omega, by omega⟩, pure_bind, pow_add,
      ck32_eq ⟨by omega, by omega⟩]
    congr 1
    rw [show (2 : Int) ^ 14 * 2 ^ m * (2 ^ 14 + f) = (2 ^ 14 * 2 ^ m + f * 2 ^ m) * 2 ^ 14 by ring,
      Int.mul_ediv_cancel _ (by decide)]
  · obtain ⟨j, hj, hj0⟩ : ∃ j, k + j = 14 ∧ 0 < j := ⟨14 - k, by omega, by omega⟩
    have hpow : (2 : Int) ^ 14 = 2 ^ k * 2 ^ j := by rw [← pow_add, hj]
    have hq : 0 ≤ f / 2 ^ j := Int.ediv_nonneg hf.1 (by positivity)
    have hq' : f / 2 ^ j < 2 ^ k :=
      Int.ediv_lt_of_lt_mul (by positivity) (by rw [← hpow]; exact hf.2)
    rw [show (k : Int) - 14 = -(j : Int) by omega, shiftW32_down f hj0 (by omega), pure_bind,
      ck32_eq ⟨by omega, by omega⟩]
    congr 1
    nth_rewrite 2 [hpow]
    rw [Int.mul_ediv_mul_of_pos _ _ hone.1, hpow, add_comm (2 ^ k * 2 ^ j) f,
      Int.add_mul_ediv_right _ _ (by positivity : (2 : Int) ^ j ≠ 0), add_comm]

/-- The power of two is exact below 31 octaves. -/
theorem powerOfTwo_eq {t : Int} (h0 : 0 < t) (h1 : t < 31 * 2 ^ 14) :
    powerOfTwo t = pure (2 ^ (t / 2 ^ 14).toNat * (2 ^ 14 + octaveFrac (t % 2 ^ 14)) / 2 ^ 14) := by
  obtain ⟨hf0, hf1, -⟩ := octaveFrac_range (f := t % 2 ^ 14) ⟨by omega, by omega⟩
  have hint : u16 (t / 2 ^ 14) = t / 2 ^ 14 := Int.emod_eq_of_lt (by omega) (by omega)
  have hf16 : u16 (octaveFrac (t % 2 ^ 14)) = octaveFrac (t % 2 ^ 14) :=
    Int.emod_eq_of_lt hf0 (by omega)
  obtain ⟨k, hk⟩ := Int.eq_ofNat_of_zero_le (show 0 ≤ t / 2 ^ 14 by omega)
  have hk30 : k ≤ 30 := by omega
  have hpow : (2 : Int) ^ k ≤ 2 ^ 30 := pow_le_pow_right₀ (by decide) hk30
  have hpos : (0 : Int) < 2 ^ k := by positivity
  rw [powerOfTwo, if_pos h0]
  show (do
    let one ← flag (u16 (t / 2 ^ 14) ≤ 30) (i32 (2 ^ (u16 (t / 2 ^ 14)).toNat))
    let s ← shiftW32 (u16 (octaveFrac (t % 2 ^ 14))) (u16 (t / 2 ^ 14) - 14)
    ck32 (one + s) : Chk Int) = _
  rw [hint, hf16, hk, Int.toNat_natCast, flag_eq (by omega), pure_bind,
    i32_of ⟨by omega, by omega⟩]
  exact octave_eq hk30 ⟨hf0, hf1⟩

theorem powerOfTwo_overflow {t : Int} (h0 : 31 * 2 ^ 14 ≤ t) (h1 : t < 2 ^ 30) :
    (powerOfTwo t).ok = false := by
  have hint : u16 (t / 2 ^ 14) = t / 2 ^ 14 := Int.emod_eq_of_lt (by omega) (by omega)
  have hflag : ¬ u16 (t / 2 ^ 14) ≤ 30 := by omega
  rw [powerOfTwo, if_pos (by omega)]
  dsimp only
  rw [Chk.ok_bind, flag]
  simp only [hflag, decide_false, Bool.false_and]

/-- The power of two below 31 octaves, the last one nearly to its end. -/
theorem powerOfTwo_range {t : Int} (ht : t < 30 * 2 ^ 14 + 16200) :
    0 ≤ (powerOfTwo t).val ∧ (powerOfTwo t).val ≤ 2 ^ 31 - 2 ^ 20 ∧
      ∀ k : ℕ, k ≤ 30 → t < k * 2 ^ 14 → (powerOfTwo t).val ≤ 2 ^ k := by
  rcases le_or_gt t 0 with h0 | h0
  · rw [powerOfTwo, if_neg (not_lt.mpr h0)]
    exact ⟨le_rfl, by decide, fun k _ _ => by rw [Chk.val_pure]; positivity⟩
  obtain ⟨hf0, hf1, hf2⟩ := octaveFrac_range (f := t % 2 ^ 14) ⟨by omega, by omega⟩
  rw [powerOfTwo_eq h0 (by omega), Chk.val_pure]
  obtain ⟨n, hn⟩ := Int.eq_ofNat_of_zero_le (show 0 ≤ t / 2 ^ 14 by omega)
  rw [hn, Int.toNat_natCast]
  have hpos : (0 : Int) < 2 ^ n := by positivity
  have hnn : 0 ≤ 2 ^ n * (2 ^ 14 + octaveFrac (t % 2 ^ 14)) := mul_nonneg hpos.le (by omega)
  have hdouble : (2 : Int) ^ n * (2 ^ 14 + octaveFrac (t % 2 ^ 14)) ≤ 2 ^ n * 2 ^ 15 :=
    mul_le_mul_of_nonneg_left (by omega) hpos.le
  refine ⟨by omega, ?_, fun k hk htk => ?_⟩
  · rcases Nat.lt_or_ge n 30 with h | h
    · have : (2 : Int) ^ n ≤ 2 ^ 29 := pow_le_pow_right₀ (by decide) (by omega)
      omega
    · obtain rfl : n = 30 := by omega
      omega
  · obtain ⟨j, rfl⟩ : ∃ j, k = j + 1 := ⟨k - 1, by omega⟩
    have : (2 : Int) ^ n ≤ 2 ^ j := pow_le_pow_right₀ (by decide) (by push_cast at htk; omega)
    rw [pow_succ 2 j]
    omega

/-! ### An entry -/

theorem gainOfExponent_range {y : Int} (hy : y ≤ 73900) :
    0 ≤ (gainOfExponent y).val ∧ (gainOfExponent y).val ≤ 2 ^ 31 - 2 ^ 20 ∧
      (y ≤ 64000 → (gainOfExponent y).val ≤ 2 ^ 29) ∧
        (y ≤ 35200 → (gainOfExponent y).val ≤ 2 ^ 24) := by
  rw [gainOfExponent]
  dsimp only
  split
  · rw [kLog10, ck32_eq ⟨by omega, by omega⟩, pure_bind, ck32_eq ⟨by omega, by omega⟩,
      pure_bind, pure_bind, ck32_eq ⟨by omega, by omega⟩, pure_bind]
    obtain ⟨h0, h1, hk⟩ := powerOfTwo_range (t := (y / 2 * 54426 + 4096) / 2 ^ 13 + 16 * 2 ^ 14)
      (by omega)
    exact ⟨h0, h1, fun h => hk 29 (by decide) (by push_cast; omega), fun h => by omega⟩
  · -- the product may wrap, but is shifted down to 18 bits
    obtain ⟨h0, h1⟩ := inI32_i32 (i32 (y * kLog10) + 8192)
    rw [Chk.val_bind, Chk.val_bind, pure_bind, val_ck32, val_ck32, ck32_eq ⟨by omega, by omega⟩,
      pure_bind]
    obtain ⟨hv0, hv1, hk⟩ :=
      powerOfTwo_range (t := i32 (i32 (y * kLog10) + 8192) / 2 ^ 14 + 16 * 2 ^ 14) (by omega)
    have h24 := hk 24 (by decide) (by push_cast; omega)
    exact ⟨hv0, hv1, fun _ => h24.trans (by decide), fun _ => h24⟩

/-! ### The table -/

theorem analogTargetOf_fixed (g : Int) : analogTargetOf kAgcModeFixedDigital g = g := if_pos rfl

theorem analogTargetOf_adaptive {agcMode : Int} (hmode : agcMode ≠ kAgcModeFixedDigital)
    (g : Int) : analogTargetOf agcMode g = analogTargetOf kAgcModeAdaptiveDigital g := by
  rw [analogTargetOf, if_neg hmode]
  rfl

/-- The largest gain from the quotient it is formed with. -/
theorem maxDigitalGain_eq {g target a q : Int}
    (hq : divW32W16ResW16 ((g - a) * (kCompRatio - 1) + kCompRatio / 2) kCompRatio = q)
    (ha : -1 ≤ a ∧ a ≤ 200)
    (ht : 0 ≤ target ∧ target ≤ 31) (hq' : -200 ≤ q ∧ q ≤ 200) :
    maxDigitalGain g target a = a + max 0 q - target := by
  rw [maxDigitalGain, hq, i16_of (x := a - target) ⟨by omega, by omega⟩,
    i16_of (x := a - target + q) ⟨by omega, by omega⟩]
  split
  · rw [i16_of ⟨by omega, by omega⟩]
    omega
  · rw [i16_of ⟨by omega, by omega⟩]
    omega

/-- In the fixed digital mode it is the gain less the target level. -/
theorem maxDigitalGain_fixed {g target : Int} (hg : -1 ≤ g ∧ g ≤ 200)
    (ht : 0 ≤ target ∧ target ≤ 31) : maxDigitalGain g target g = g - target := by
  rw [maxDigitalGain_eq (q := 0) (by rw [sub_self, zero_mul]; rfl) hg ht (by decide),
    max_self, add_zero]

/-- The parameters of the curve for a compression gain from 0 to 90. -/
theorem curve_range {agcMode g : Int} (hmode : agcMode ≠ kAgcModeFixedDigital)
    (hg : 0 ≤ g ∧ g ≤ 90) :
    limiterIndex (analogTargetOf agcMode g) ≤ 16 ∧ ∀ target, 0 ≤ target →
      target ≤ 31 → Curve (maxDigitalGain g target (analogTargetOf agcMode g))
        (diffDigitalGain g) ∧
        maxDigitalGain g target (analogTargetOf agcMode g) ≤ 75 := by
  have hall : ∀ g : Int, 0 ≤ g → g ≤ 90 →
    (0 ≤ diffDigitalGain g ∧ diffDigitalGain g ≤ 60) ∧
      limiterIndex (analogTargetOf kAgcModeAdaptiveDigital g) ≤ 16 ∧
      (4 ≤ analogTargetOf kAgcModeAdaptiveDigital g ∧
        analogTargetOf kAgcModeAdaptiveDigital g ≤ 45) ∧
      2 * analogTargetOf kAgcModeAdaptiveDigital g ≤ 3 * diffDigitalGain g + 8 ∧
      -4 ≤ divW32W16ResW16 ((g - analogTargetOf kAgcModeAdaptiveDigital g) * (kCompRatio - 1) +
        kCompRatio / 2) kCompRatio ∧
      divW32W16ResW16 ((g - analogTargetOf kAgcModeAdaptiveDigital g) * (kCompRatio - 1) +
        kCompRatio / 2) kCompRatio ≤ 75 - analogTargetOf kAgcModeAdaptiveDigital g ∧
      2 * (analogTargetOf kAgcModeAdaptiveDigital g +
        divW32W16ResW16 ((g - analogTargetOf kAgcModeAdaptiveDigital g) *
        (kCompRatio - 1) + kCompRatio / 2) kCompRatio) ≤
          3 * diffDigitalGain g + 8 := by decide +kernel
  obtain ⟨h1, h2, h3, h4, h5, h6, h7⟩ := hall g hg.1 hg.2
  rw [analogTargetOf_adaptive hmode]
  refine ⟨h2, fun target ht0 ht1 => ?_⟩
  rw [maxDigitalGain_eq rfl ⟨by omega, by omega⟩ ⟨ht0, ht1⟩ ⟨by omega, by omega⟩]
  exact ⟨⟨by omega, by omega, ⟨h1.1, by omega⟩, by omega⟩, by omega⟩

/-- In the fixed digital mode the target level is added to the compression
gain, and the largest gain is the compression gain itself. -/
theorem curve_fixed {g target : Int} (hg : 0 ≤ g ∧ g ≤ 90)
    (ht : 0 ≤ target ∧ target ≤ 31) :
    Curve (maxDigitalGain (g + target) target (g + target)) (diffDigitalGain (g + target)) ∧
      (target = 0 → limiterIndex (g + target) ≤ 31) := by
  have hall : ∀ n : Int, 0 ≤ n → n ≤ 121 →
    (0 ≤ diffDigitalGain n ∧ diffDigitalGain n ≤ 81 ∧
      2 * n ≤ 3 * diffDigitalGain n + 8) ∧
      (n ≤ 90 → limiterIndex n ≤ 31) := by decide +kernel
  obtain ⟨⟨h1, h2, h3⟩, h4⟩ := hall (g + target) (by omega) (by omega)
  rw [maxDigitalGain_fixed ⟨by omega, by omega⟩ ht, add_sub_cancel_right]
  exact ⟨⟨by omega, hg.2, ⟨h1, h2⟩, by omega⟩, fun h0 => h4 (by omega)⟩

/-- An entry of the table of a curve. On the limiter's line the last entry
needs a target below 0 dBov. -/
theorem gainTableEntry_range {maxGain d target : Int} (lim : Int) {idx i : Int}
    (hc : Curve maxGain d) (ht : 0 ≤ target) (hidx : target = 0 → idx ≤ 31)
    (hi : 0 ≤ i ∧ i ≤ 31) :
    0 ≤ (gainTableEntry maxGain d target lim idx i).val ∧
      (gainTableEntry maxGain d target lim idx i).val ≤ 2 ^ 31 - 2 ^ 20 ∧
      (maxGain ≤ 75 → idx ≤ 16 →
        (gainTableEntry maxGain d target lim idx i).val ≤ 2 ^ 29) ∧
      (i ≤ 6 → (gainTableEntry maxGain d target lim idx i).val ≤ 2 ^ 24) := by
  rw [gainTableEntry, Chk.val_bind, Chk.val_bind]
  split
  · rename_i hlim
    have hline : limiterExponent target i ≤ 73900 := by
      rcases eq_or_lt_of_le ht with h0 | h0
      · exact limiterExponent_le (n := 30) ht (by have := hidx h0.symm; omega)
          (by decide) (by decide)
      · rw [limiterExponent, divW32W16, if_pos (by decide), tdiv_eq, kLog10_2]
        split <;> omega
    obtain ⟨h0, h1, h2, h3⟩ := gainOfExponent_range hline
    exact ⟨h0, h1, fun _ h16 =>
      h2 (limiterExponent_le (n := 15) ht (by omega) (by decide) (by decide)), fun h6 =>
        h3 (limiterExponent_le (n := 6) ht h6 (by decide) (by decide))⟩
  · have hl := logApprox_range hc.params.diff hi
    obtain ⟨h0, h1, h2, h3⟩ := gainOfExponent_range (compressorExponent_any hc hl)
    exact ⟨h0, h1, fun h75 _ => h2 (compressorExponent_adaptive hc h75 hl),
      fun h6 => h3 (compressorExponent_loud hc ⟨hi.1, h6⟩)⟩

theorem tableOf_bounded {c : WebRtcAgcConfig}
    (ht : 0 ≤ c.targetLevelDbfs ∧ c.targetLevelDbfs ≤ 31)
    (hg : 0 ≤ c.compressionGaindB ∧ c.compressionGaindB ≤ 90) :
    ∃ t, tableOf kAgcModeAdaptiveDigital c = some t ∧ Bounded t := by
  obtain ⟨hidx, hcurve⟩ :=
    curve_range (show kAgcModeAdaptiveDigital ≠ kAgcModeFixedDigital by decide) hg
  obtain ⟨hc, hm⟩ := hcurve _ ht.1 ht.2
  have hd := hc.diff
  have heff : effectiveGain kAgcModeAdaptiveDigital c = c.compressionGaindB := if_neg (by decide)
  rw [tableOf, heff, calculateGainTable, if_neg (by rw [kGenFuncTableSize]; omega), Chk.val_bind,
    Chk.val_pure, val_mapM]
  refine ⟨_, rfl, by simp, fun x hx => ?_⟩
  obtain ⟨i, hi, rfl⟩ := List.mem_map.mp hx
  have hi32 := List.mem_range.mp hi
  obtain ⟨h0, -, h29, -⟩ :=
    gainTableEntry_range c.limiterEnable hc ht.1 (fun _ => hidx.trans (by decide))
    (i := i) ⟨by omega, by omega⟩
  exact ⟨h0, h29 hm hidx⟩

/-- A table with entries below `2^31`, those of the seven loudest levels below
`2^24`. -/
structure Wide (T : List Int) : Prop where
  length : T.length = 32
  range : ∀ x ∈ T, 0 ≤ x ∧ x ≤ 2 ^ 31 - 2 ^ 20
  loud : ∀ i ≤ 6, T.getD i 0 ≤ 2 ^ 24

theorem tableOf_wide (agcMode : Int) {c : WebRtcAgcConfig}
    (ht : 0 ≤ c.targetLevelDbfs ∧ c.targetLevelDbfs ≤ 31)
    (hg : 0 ≤ c.compressionGaindB ∧ c.compressionGaindB ≤ 90) :
    ∃ t, tableOf agcMode c = some t ∧ Wide t := by
  have hcurve : Curve (maxDigitalGain (effectiveGain agcMode c) c.targetLevelDbfs
        (analogTargetOf agcMode (effectiveGain agcMode c)))
          (diffDigitalGain (effectiveGain agcMode c)) ∧
      (c.targetLevelDbfs = 0 →
        limiterIndex (analogTargetOf agcMode (effectiveGain agcMode c)) ≤ 31) := by
    by_cases hfix : agcMode = kAgcModeFixedDigital
    · rw [effectiveGain, analogTargetOf, if_pos hfix, if_pos hfix, i16_of ⟨by omega, by omega⟩]
      exact curve_fixed hg ht
    · rw [effectiveGain, if_neg hfix]
      obtain ⟨hidx, hcurve⟩ := curve_range hfix hg
      exact ⟨(hcurve _ ht.1 ht.2).1, fun _ => hidx.trans (by decide)⟩
  obtain ⟨hc, hidx⟩ := hcurve
  have hd := hc.diff
  have hentry : ∀ i : ℕ, i < 32 → _ := fun i hi =>
    gainTableEntry_range c.limiterEnable (i := i) hc ht.1 hidx ⟨by omega, by omega⟩
  rw [tableOf, calculateGainTable, if_neg (by rw [kGenFuncTableSize]; omega), Chk.val_bind,
    Chk.val_pure, val_mapM]
  refine ⟨_, rfl, by simp, fun x hx => ?_, fun i hi => ?_⟩
  · obtain ⟨i, hi, rfl⟩ := List.mem_map.mp hx
    obtain ⟨h0, h1, -, -⟩ := hentry i (List.mem_range.mp hi)
    exact ⟨h0, h1⟩
  · obtain ⟨-, -, -, hloud⟩ := hentry i (by omega)
    rw [List.getD_eq_getElem _ _ (by simp; omega), List.getElem_map, List.getElem_range]
    exact hloud (by omega)

end TableRange
end AgcSpec
