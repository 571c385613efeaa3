/-
# The square root

`WebRtcSpl_Sqrt` normalises its argument to 15 bits, takes the root of that by
a polynomial of degree five (`WebRtcSpl_SqrtLocal`), multiplies it by the root
of two for an even shift, and takes back half of the shift. No step overflows,
and what is cut to 16 bits fits (`sqrt_eq`).

The root of the normalised number is monotone in it (`localRoot_mono`): all
terms of the polynomial but the first grow with the distance to one, and so do
their roundings. Its error is therefore bounded by its values on a grid
(`roots_on_grid`), and the result is the root of the argument up to 1/512 of
it, and 1 for the last shift (`sqrt_accurate`).
-/
import AgcSpec.Spl
import Mathlib.Analysis.Real.Sqrt

namespace AgcSpec
namespace SquareRoot

open FixedPoint

/-! ### The polynomial -/

/-- The value of `WebRtcSpl_SqrtLocal` at `n * 2^16`; `h` is the argument less
one, halved, in Q15, and `t3`, `t4` and `t5` are from its powers. -/
def localRoot (n : Int) : Int :=
  let h := (n - 32768) / 2
  let a := -(h * h * 2) / 65536
  let t4 := a * a * 2 / 65536
  let t5 := h * t4 * 2 / 65536
  let t3 := h * h * 2 / 65536
  n * 32768 + 1073741824 - h * h - 40960 * t4 + 57344 * t5 + h * t3 + 32768

/-- Numbers that are not positive have squares in the opposite order. -/
theorem mul_self_anti {x y : Int} (h : x ≤ y) (hy : y ≤ 0) : y * y ≤ x * x := by nlinarith

/-- At a normalised argument no step overflows, and the root of a number of 31
bits has 31 bits. -/
theorem sqrtLocal_eq {n : Int} (h0 : 2 ^ 14 ≤ n) (h1 : n < 2 ^ 15) :
    sqrtLocal (n * 2 ^ 16) = pure (localRoot n) ∧ 2 ^ 30 ≤ localRoot n ∧
      localRoot n < 2 ^ 31 := by
  obtain ⟨h, hh⟩ : ∃ h, h = (n - 32768) / 2 := ⟨_, rfl⟩
  have hneg : -8192 ≤ h ∧ h ≤ -1 := by omega
  have hsq : 1 ≤ h * h ∧ h * h ≤ 2 ^ 26 :=
    ⟨mul_self_anti hneg.2 (by norm_num), mul_self_anti hneg.1 (by omega)⟩
  obtain ⟨a, ha⟩ : ∃ a, a = -(h * h * 2) / 2 ^ 16 := ⟨_, rfl⟩
  have haneg : -2048 ≤ a ∧ a ≤ -1 := by omega
  have hasq : 0 ≤ a * a ∧ a * a ≤ 2 ^ 22 :=
    ⟨mul_self_nonneg a, mul_self_anti haneg.1 (by omega)⟩
  obtain ⟨t4, ht4⟩ : ∃ t, t = a * a * 2 / 2 ^ 16 := ⟨_, rfl⟩
  have ht4r : 0 ≤ t4 ∧ t4 ≤ 128 := by omega
  have h5 : -2 ^ 20 ≤ h * t4 ∧ h * t4 ≤ 0 :=
    ⟨(mul_range (X := 8192) ⟨hneg.1, by omega⟩ ⟨by omega, ht4r.2⟩).1,
      mul_nonpos_of_nonpos_of_nonneg (by omega) ht4r.1⟩
  obtain ⟨t5, ht5⟩ : ∃ t, t = h * t4 * 2 / 2 ^ 16 := ⟨_, rfl⟩
  have ht5r : -32 ≤ t5 ∧ t5 ≤ 0 := by omega
  obtain ⟨t3, ht3⟩ : ∃ t, t = h * h * 2 / 2 ^ 16 := ⟨_, rfl⟩
  have ht3r : 0 ≤ t3 ∧ t3 ≤ 2048 := by omega
  have h3 : -2 ^ 24 ≤ h * t3 ∧ h * t3 ≤ 0 :=
    ⟨(mul_range (X := 8192) ⟨hneg.1, by omega⟩ ⟨by omega, ht3r.2⟩).1,
      mul_nonpos_of_nonpos_of_nonneg (by omega) ht3r.1⟩
  have hvalue : localRoot n = n * 32768 + 1073741824 - h * h - 40960 * t4 + 57344 * t5 +
      h * t3 + 32768 := by
    rw [ht5, ht4, ha, ht3, hh]
    rfl
  have hhalf : (n * 2 ^ 16).tdiv 2 = n * 2 ^ 15 := by
    rw [tdiv_eq]
    split <;> omega
  have hQ15 : (n * 2 ^ 15 - 0x40000000) / 2 ^ 16 = h := by omega
  rw [hvalue]
  refine ⟨?_, by omega, by omega⟩
  rw [sqrtLocal, hhalf, ck32_eq ⟨by omega, by omega⟩, pure_bind, hQ15,
    ck16_eq ⟨by omega, by omega⟩, pure_bind, ck32_eq ⟨by omega, by omega⟩, pure_bind,
    ck32_eq ⟨by omega, by omega⟩, pure_bind, ck32_eq ⟨by omega, by omega⟩, pure_bind,
    ck32_eq ⟨by omega, by omega⟩, pure_bind, ck32_eq ⟨by omega, by omega⟩, pure_bind,
    ck32_eq ⟨by omega, by omega⟩, pure_bind]
  dsimp only
  rw [← ha, ck32_eq ⟨by omega, by omega⟩, pure_bind, ck32_eq ⟨by omega, by omega⟩,
    pure_bind, ← ht4, ck16_eq ⟨by omega, by omega⟩, pure_bind,
    ck32_eq ⟨by omega, by omega⟩, pure_bind, ck32_eq ⟨by omega, by omega⟩, pure_bind,
    ck32_eq ⟨by omega, by omega⟩, pure_bind, ck32_eq ⟨by omega, by omega⟩, pure_bind,
    ck32_eq ⟨by omega, by omega⟩, pure_bind, ← ht5, ck16_eq ⟨by omega, by omega⟩,
    pure_bind, ck32_eq ⟨by omega, by omega⟩, pure_bind, ck32_eq ⟨by omega, by omega⟩,
    pure_bind, ck32_eq ⟨by omega, by omega⟩, pure_bind, ← ht3,
    ck16_eq ⟨by omega, by omega⟩, pure_bind, ck32_eq ⟨by omega, by omega⟩, pure_bind,
    ck32_eq ⟨by omega, by omega⟩, pure_bind, ck32_eq ⟨by omega, by omega⟩, pure_bind,
    ck32_eq ⟨by omega, by omega⟩]
  congr 1
  omega

theorem localRoot_mono {n m : Int} (h : n ≤ m) (hm : m ≤ 32768) :
    localRoot n ≤ localRoot m := by
  have hh : (n - 32768) / 2 ≤ (m - 32768) / 2 ∧ (m - 32768) / 2 ≤ 0 := by omega
  unfold localRoot
  dsimp only
  generalize (n - 32768) / 2 = x at hh
  generalize (m - 32768) / 2 = y at hh
  have hsq := mul_self_anti hh.1 hh.2
  have hsq0 := mul_self_nonneg y
  have ha : -(x * x * 2) / 65536 ≤ -(y * y * 2) / 65536 ∧ -(y * y * 2) / 65536 ≤ 0 := by omega
  have ht3 : 0 ≤ y * y * 2 / 65536 ∧ y * y * 2 / 65536 ≤ x * x * 2 / 65536 := by omega
  generalize -(x * x * 2) / 65536 = a at ha
  generalize -(y * y * 2) / 65536 = b at ha
  have hasq := mul_self_anti ha.1 ha.2
  have hasq0 := mul_self_nonneg b
  have ht4 : 0 ≤ b * b * 2 / 65536 ∧ b * b * 2 / 65536 ≤ a * a * 2 / 65536 := by omega
  generalize a * a * 2 / 65536 = s at ht4
  generalize b * b * 2 / 65536 = t at ht4
  generalize x * x * 2 / 65536 = p at ht3
  generalize y * y * 2 / 65536 = q at ht3
  have h5 : x * s ≤ y * t := by nlinarith
  have h3 : x * p ≤ y * q := by nlinarith
  omega

/-! ### Both kinds of shift -/

/-- The 16 bits of the root for an odd shift. -/
def oddRoot (n : Int) : Int := localRoot n / 65536

/-- For an even shift it is multiplied by the root of two and rounded. -/
def evenRoot (n : Int) : Int := (46340 * oddRoot n + 32768) / 65536 * 2

def root (k : ℕ) (n : Int) : Int := if k % 2 = 0 then evenRoot n else oddRoot n

theorem oddRoot_mono {n m : Int} (h : n ≤ m) (hm : m ≤ 32768) : oddRoot n ≤ oddRoot m :=
  Int.ediv_le_ediv (by norm_num) (localRoot_mono h hm)

theorem evenRoot_mono {n m : Int} (h : n ≤ m) (hm : m ≤ 32768) : evenRoot n ≤ evenRoot m := by
  have := oddRoot_mono h hm
  unfold evenRoot
  omega

theorem roots_range {n : Int} (h0 : 2 ^ 14 ≤ n) (h1 : n < 2 ^ 15) :
    (2 ^ 14 ≤ oddRoot n ∧ oddRoot n ≤ 32767) ∧ 0 ≤ evenRoot n ∧
      evenRoot n ≤ 46341 := by
  obtain ⟨-, hlo, hhi⟩ := sqrtLocal_eq h0 h1
  have hodd : 2 ^ 14 ≤ oddRoot n ∧ oddRoot n ≤ 32767 := by
    unfold oddRoot
    omega
  refine ⟨hodd, ?_⟩
  unfold evenRoot
  omega

theorem denormalised {b : Int} {k : ℕ} (h0 : 2 ^ 30 ≤ b) (h1 : b < 2 ^ 31) : (do
    let x_norm ← ck16 (b / 2 ^ 16)
    let nshift := (k : Int).tdiv 2
    if nshift < 0 then pure (-1)
    else do
      let a ← ck32 (x_norm * 2 ^ 16)
      let a ← if a ≥ 0 then pure a else ck32 (-a)
      let a ← sqrtLocal a
      let a ←
        if 2 * nshift = k then do
          let t16 ← ck16 (a / 2 ^ 16)
          let p ← ck32 (23170 * t16)
          let p ← ck32 (p * 2)
          let p ← ck32 (p + 32768)
          pure ((p % 2 ^ 31 - p % 2 ^ 16) / 2 ^ 15)
        else pure (a / 2 ^ 16)
      pure (a % 2 ^ 16 / 2 ^ nshift.toNat) : Chk Int) =
        pure (root k (b / 2 ^ 16) / 2 ^ (k / 2)) := by
  obtain ⟨n, hn⟩ : ∃ n, n = b / 2 ^ 16 := ⟨_, rfl⟩
  obtain ⟨hr, -⟩ := sqrtLocal_eq (n := n) (by omega) (by omega)
  obtain ⟨⟨hodd0, hodd1⟩, -⟩ := roots_range (n := n) (by omega) (by omega)
  have hhalf : (k : Int).tdiv 2 = (k / 2 : ℕ) := by
    rw [tdiv_eq, if_pos (by omega)]
    omega
  rw [← hn, ck16_eq ⟨by omega, by omega⟩, pure_bind, hhalf]
  dsimp only
  rw [if_neg (by omega), ck32_eq ⟨by omega, by omega⟩, pure_bind, if_pos (by omega), pure_bind,
    hr, pure_bind, Int.toNat_natCast, show localRoot n / 2 ^ 16 = oddRoot n from rfl, root]
  by_cases hk : k % 2 = 0
  · rw [if_pos (by omega), if_pos hk, ck16_eq ⟨by omega, by omega⟩, pure_bind,
      ck32_eq ⟨by omega, by omega⟩, pure_bind, ck32_eq ⟨by omega, by omega⟩, pure_bind,
      ck32_eq ⟨by omega, by omega⟩, pure_bind, pure_bind]
    have heven : ((23170 * oddRoot n * 2 + 32768) % 2 ^ 31 - (23170 * oddRoot n * 2 + 32768) % 2 ^
      16) / 2 ^ 15 % 2 ^ 16 =
        evenRoot n := by
      rw [evenRoot, show 23170 * oddRoot n * 2 = 46340 * oddRoot n by ring]
      have hp : 0 ≤ 46340 * oddRoot n + 32768 ∧ 46340 * oddRoot n + 32768 < 2 ^ 31 := by omega
      generalize 46340 * oddRoot n + 32768 = p at hp
      omega
    rw [heven]
  · rw [if_neg (by omega), if_neg hk, pure_bind, Int.emod_eq_of_lt (by omega) (by omega)]

/-- The number whose root is taken. -/
def magnitude (value : Int) : Int := if value = -2 ^ 31 then 2 ^ 31 - 1 else |value|

/-- The normalised number is within a half of its last place, or the end of the
range. -/
theorem sqrt_eq {value : Int} (hv : InI32 value) (h0 : value ≠ 0) : ∃ (k : ℕ) (n : Int),
    2 ^ 14 ≤ n ∧ n < 2 ^ 15 ∧ n * 65536 - 32768 ≤ magnitude value * 2 ^ k ∧
    magnitude value * 2 ^ k ≤ n * 65536 + 65535 ∧
    2 ^ 30 ≤ magnitude value * 2 ^ k ∧ sqrt value = pure (root k n / 2 ^ (k / 2)) := by
  obtain ⟨hv0, hv1⟩ := hv
  have ha : (if value < 0 then (if value = -2 ^ 31 then 0x7FFFFFFF else -value) else value) =
      magnitude value := by
    unfold magnitude
    split_ifs with hneg hmin hmin
    · rfl
    · rw [abs_of_neg hneg]
    · omega
    · rw [abs_of_nonneg (not_lt.mp hneg)]
  have hpos : 0 < magnitude value ∧ magnitude value < 2 ^ 31 := by
    rw [← ha]
    split_ifs <;> omega
  obtain ⟨k, hk, -, hlo, hhi⟩ := normW32_pos hpos.1 hpos.2
  rw [sqrt, if_neg h0, ha]
  dsimp only
  rw [hk, Int.toNat_natCast, ck32_eq ⟨by omega, by omega⟩, pure_bind]
  split
  · rw [ck32_eq ⟨by omega, by omega⟩, pure_bind, denormalised (by omega) (by omega)]
    exact ⟨k, _, by omega, by omega, by omega, by omega, hlo, rfl⟩
  · rw [pure_bind, denormalised (by norm_num) (by norm_num)]
    exact ⟨k, _, by norm_num, by norm_num, by omega, by omega, hlo, rfl⟩

/-- The root of a number below `2^30` fits 16 bits: it has been shifted. -/
theorem sqrt_small {value : Int} (h0 : -2 ^ 30 < value) (h1 : value < 2 ^ 30) :
    ∃ r, sqrt value = pure r ∧ 0 ≤ r ∧ r ≤ 32767 := by
  by_cases hzero : value = 0
  · exact ⟨0, by rw [sqrt, if_pos hzero], le_rfl, by decide⟩
  obtain ⟨k, n, hn0, hn1, -, -, hnorm, heq⟩ := sqrt_eq ⟨by omega, by omega⟩ hzero
  obtain ⟨⟨hodd0, hodd1⟩, heven0, heven1⟩ := roots_range hn0 hn1
  refine ⟨_, heq, ?_⟩
  rw [root]
  split
  · rename_i hk
    -- an even shift is at least two
    have hk0 : k ≠ 0 := by
      rintro rfl
      have hmag : magnitude value < 2 ^ 30 := by
        rw [magnitude, if_neg (by omega)]
        exact abs_lt.mpr ⟨h0, h1⟩
      omega
    obtain ⟨j, hj⟩ : ∃ j, k / 2 = j + 1 := ⟨k / 2 - 1, by omega⟩
    rw [hj, pow_succ, mul_comm, ← Int.ediv_ediv_of_nonneg (by decide)]
    exact ⟨Int.ediv_nonneg (by omega) (by positivity),
      (Int.ediv_le_self _ (by omega)).trans (by omega)⟩
  · exact ⟨Int.ediv_nonneg (by omega) (by positivity),
      (Int.ediv_le_self _ (by omega)).trans hodd1⟩

/-! ### Accuracy -/

/-- For the normalised numbers from `n` to `n + 32` the roots at both ends are
good enough for all of them. -/
def GoodFrom (n : Int) : Prop :=
  511 * 511 * ((n + 32) * 65536 + 65535) ≤ 512 * 512 * (evenRoot n * evenRoot n) ∧
    512 * 512 * (evenRoot (n + 32) * evenRoot (n + 32)) ≤ 513 * 513 * (n * 65536 - 32768) ∧
    511 * 511 * ((n + 32) * 65536 + 65535) ≤ 2 * 512 * 512 * (oddRoot n * oddRoot n) ∧
    2 * 512 * 512 * (oddRoot (n + 32) * oddRoot (n + 32)) ≤ 513 * 513 * (n * 65536 - 32768)

instance (n : Int) : Decidable (GoodFrom n) := inferInstanceAs (Decidable (_ ∧ _))

theorem roots_on_grid : ∀ j : Int, 0 ≤ j → j < 512 → GoodFrom (16384 + 32 * j) := by
  decide +kernel

/-- The squares of the roots, for a number that is normalised to `n`. -/
theorem roots_good {n A : Int} (h0 : 2 ^ 14 ≤ n) (h1 : n < 2 ^ 15) (hlo : n * 65536 - 32768 ≤ A)
    (hhi : A ≤ n * 65536 + 65535) :
    (511 * 511 * A ≤ 512 * 512 * (evenRoot n * evenRoot n) ∧
      512 * 512 * (evenRoot n * evenRoot n) ≤ 513 * 513 * A) ∧
      511 * 511 * A ≤ 2 * 512 * 512 * (oddRoot n * oddRoot n) ∧
      2 * 512 * 512 * (oddRoot n * oddRoot n) ≤ 513 * 513 * A := by
  obtain ⟨j, hj⟩ : ∃ j, j = (n - 16384) / 32 := ⟨_, rfl⟩
  obtain ⟨he0, he1, ho0, ho1⟩ := roots_on_grid j (by omega) (by omega)
  have hle : 16384 + 32 * j ≤ n ∧ n ≤ 16384 + 32 * j + 32 ∧
    16384 + 32 * j + 32 ≤ 32768 ∧ 16384 ≤ 16384 + 32 * j := by omega
  generalize 16384 + 32 * j = m at he0 he1 ho0 ho1 hle
  obtain ⟨hodd, heven, -⟩ := roots_range (n := m) (by omega) (by omega)
  obtain ⟨hodd', heven', -⟩ := roots_range h0 h1
  have hel := evenRoot_mono hle.1 (by omega)
  have heu := evenRoot_mono hle.2.1 hle.2.2.1
  have hol := oddRoot_mono hle.1 (by omega)
  have hou := oddRoot_mono hle.2.1 hle.2.2.1
  have hel2 := mul_self_le_mul_self heven hel
  have heu2 := mul_self_le_mul_self heven' heu
  have hol2 := mul_self_le_mul_self (by omega) hol
  have hou2 := mul_self_le_mul_self (by omega) hou
  refine ⟨⟨?_, ?_⟩, ?_, ?_⟩ <;> omega

/-- A number whose square is near `4^m a`, with `m` bits cut off, is near the
root of `a`. -/
theorem near_root {a M : Int} {m : ℕ} (ha : 0 ≤ a) (hM : 0 ≤ M)
    (hlo : 511 * 511 * (a * 4 ^ m) ≤ 512 * 512 * (M * M))
    (hhi : 512 * 512 * (M * M) ≤ 513 * 513 * (a * 4 ^ m)) :
    |((M / 2 ^ m : Int) : ℝ) - Real.sqrt a| ≤ Real.sqrt a / 512 + 1 := by
  have hpow : (0 : ℝ) < 2 ^ m := by positivity
  have hs0 := Real.sqrt_nonneg (a : ℝ)
  have hs : Real.sqrt a * Real.sqrt a = a := Real.mul_self_sqrt (by exact_mod_cast ha)
  generalize Real.sqrt a = s at hs0 hs
  have hscaled : (a : ℝ) * 4 ^ m = (s * 2 ^ m) * (s * 2 ^ m) := by
    rw [← hs, show (4 : ℝ) = 2 * 2 by norm_num, mul_pow]
    ring
  have hM' : (0 : ℝ) ≤ M := by exact_mod_cast hM
  have hlower : 511 * (s * 2 ^ m) ≤ 512 * (M : ℝ) := by
    refine (mul_self_le_mul_self_iff (by positivity) (by positivity)).mpr ?_
    have h : (511 : ℝ) * 511 * (a * 4 ^ m) ≤ 512 * 512 * (M * M) := by exact_mod_cast hlo
    rw [hscaled] at h
    linarith
  have hupper : 512 * (M : ℝ) ≤ 513 * (s * 2 ^ m) := by
    refine (mul_self_le_mul_self_iff (by positivity) (by positivity)).mpr ?_
    have h : (512 : ℝ) * 512 * (M * M) ≤ 513 * 513 * (a * 4 ^ m) := by exact_mod_cast hhi
    rw [hscaled] at h
    linarith
  -- the bits that are cut off are less than one
  have hq0 : ((M / 2 ^ m : Int) : ℝ) * 2 ^ m ≤ M := by
    exact_mod_cast Int.ediv_mul_le M (by positivity : (2 : Int) ^ m ≠ 0)
  have hq1 : (M : ℝ) < (((M / 2 ^ m : Int) : ℝ) + 1) * 2 ^ m := by
    exact_mod_cast Int.lt_ediv_add_one_mul_self M (by positivity : (0 : Int) < 2 ^ m)
  generalize ((M / 2 ^ m : Int) : ℝ) = q at hq0 hq1
  have h1 : 512 * q ≤ 513 * s := le_of_mul_le_mul_right (by linarith) hpow
  have h2 : 511 * s ≤ 512 * (q + 1) := le_of_mul_le_mul_right (by linarith) hpow
  rw [abs_le]
  constructor <;> linarith

theorem sqrt_near {value : Int} (hv : InI32 value) (hzero : value ≠ 0) :
    ∃ r, sqrt value = pure r ∧ 0 ≤ r ∧ r ≤ 46341 ∧
      |(r : ℝ) - Real.sqrt (magnitude value)| ≤ Real.sqrt (magnitude value) / 512 + 1 := by
  obtain ⟨k, n, hn0, hn1, hlo, hhi, -, heq⟩ := sqrt_eq hv hzero
  obtain ⟨⟨hodd0, hodd1⟩, heven0, heven1⟩ := roots_range hn0 hn1
  obtain ⟨⟨he0, he1⟩, ho0, ho1⟩ := roots_good hn0 hn1 hlo hhi
  have hmag : 0 ≤ magnitude value := by
    unfold magnitude
    split
    · norm_num
    · exact abs_nonneg value
  have hroot : 0 ≤ root k n ∧ root k n ≤ 46341 := by
    unfold root
    split <;> omega
  refine ⟨_, heq, Int.ediv_nonneg hroot.1 (by positivity),
    (Int.ediv_le_self _ hroot.1).trans hroot.2, ?_⟩
  -- the shift is `2 m` or `2 m + 1`
  have hpow : (2 : Int) ^ k = 4 ^ (k / 2) * 2 ^ (k % 2) := by
    rw [show (4 : Int) = 2 ^ 2 by norm_num, ← pow_mul, ← pow_add, Nat.div_add_mod]
  rw [hpow, ← mul_assoc (magnitude value)] at he0 he1 ho0 ho1
  refine near_root hmag hroot.1 ?_ ?_ <;> unfold root <;> split
  · rename_i hk
    rw [hk, pow_zero, mul_one] at he0
    linarith
  · rename_i hk
    rw [show k % 2 = 1 by omega, pow_one] at ho0
    linarith
  · rename_i hk
    rw [hk, pow_zero, mul_one] at he1
    linarith
  · rename_i hk
    rw [show k % 2 = 1 by omega, pow_one] at ho1
    linarith

theorem le_sqrt {value r k : Int} (hv : InI32 value) (hk : 0 < k) (h : k * k ≤ value)
    (hr : sqrt value = pure r) : 511 * k ≤ 512 * (r + 1) := by
  have hpos : 0 < value := (mul_pos hk hk).trans_le h
  obtain ⟨r', hr', -, -, hnear⟩ := sqrt_near hv hpos.ne'
  obtain rfl : r' = r := congrArg Chk.val (hr'.symm.trans hr)
  have hmag : magnitude value = value := by
    rw [magnitude, if_neg (by omega), abs_of_pos hpos]
  have hroot : (k : ℝ) ≤ Real.sqrt value := by
    refine Real.le_sqrt_of_sq_le ?_
    rw [pow_two]
    exact_mod_cast h
  rw [hmag] at hnear
  have hlow : (511 * k : ℝ) ≤ 512 * (r' + 1) := by
    have := (abs_le.mp hnear).1
    linarith
  exact_mod_cast hlow

/-- The root of every 32-bit number is exact in 32 and 16 bits, at most 46341,
and right up to 1/512 of it and 1. -/
theorem sqrt_accurate {value : Int} (hv : InI32 value) :
    ∃ r, sqrt value = pure r ∧ 0 ≤ r ∧ r ≤ 46341 ∧
    |(r : ℝ) - Real.sqrt (magnitude value)| ≤ Real.sqrt (magnitude value) / 512 + 1 := by
  by_cases hzero : value = 0
  · refine ⟨0, by rw [sqrt, if_pos hzero], le_rfl, by norm_num, ?_⟩
    simp [hzero, magnitude]
  · exact sqrt_near hv hzero

/-- The smallest 32-bit number has the root of the largest. -/
theorem sqrt_accurate_min : InI32 (-2 ^ 31) ∧ ∃ r,
    sqrt (-2 ^ 31) = pure r ∧ 0 ≤ r ∧ r ≤ 46341 ∧
    |(r : ℝ) - Real.sqrt (magnitude (-2 ^ 31))| ≤ Real.sqrt (magnitude (-2 ^ 31)) / 512 + 1 :=
  ⟨by decide, sqrt_accurate (by decide)⟩

end SquareRoot
end AgcSpec
