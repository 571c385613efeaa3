/-
# The application of the gains

The second half of `WebRtcAgc_ProcessDigital` scales the samples of a
sub-frame by a ramp from one gain to the next. In Q20 the ramp is a sum of
integer steps; in Q16 it is the straight line between the two gains
(`ramp_eq`). For gains less than 8 every operation is exact, and a sample is
the product of input and gain, rounded down and saturated, up to the error of
dropping the low bits of the gain: 1 from the second sub-frame on, 3 in the
first one, whose test for saturation drops seven bits more (`Near`).

A band keeps its length whatever the gains are (`length_applyGains`).
-/
import AgcSpec.Gains

namespace AgcSpec
namespace Samples

open FixedPoint Gains

/-! ### Blocks of a list -/

/-- Equal blocks put together have a length that is a multiple. -/
theorem length_flatten_blocks {α : Type} {L : ℕ} {f : ℕ → List α} (m : ℕ)
    (h : ∀ k < m, (f k).length = L) : ((List.range m).map f).flatten.length = m * L := by
  induction m with
  | zero => simp
  | succ m ih =>
    simp only [List.range_succ, List.map_append, List.flatten_append, List.length_append,
      ih fun k hk => h k (by omega)]
    simp [h m (by omega), Nat.succ_mul]

theorem getD_flatten_blocks {α : Type} {L : ℕ} {f : ℕ → List α} (d : α) {m k n : ℕ}
    (h : ∀ k < m, (f k).length = L) (hk : k < m) (hn : n < L) :
    ((List.range m).map f).flatten.getD (k * L + n) d = (f k).getD n d := by
  induction m with
  | zero => omega
  | succ m ih =>
    have hlen := length_flatten_blocks m fun k hk => h k (by omega)
    simp only [List.range_succ, List.map_append, List.flatten_append, List.map_cons, List.map_nil,
      List.flatten_cons, List.flatten_nil, List.append_nil]
    rcases Nat.lt_succ_iff_lt_or_eq.mp hk with hlt | rfl
    · have hin : k * L + n < m * L := by
        calc k * L + n < (k + 1) * L := by rw [Nat.succ_mul]; omega
          _ ≤ m * L := Nat.mul_le_mul_right L hlt
      rw [List.getD_append _ _ _ _ (by omega), ih (fun k hk => h k (by omega)) hlt]
    · rw [List.getD_append_right _ _ _ _ (by omega), hlen, Nat.add_sub_cancel_left]

theorem length_subframe {L k : ℕ} {band : List Int} (h : 10 * L ≤ band.length) (hk : k < 10) :
    (subframe L k band).length = L := by
  have : (k + 1) * L ≤ 10 * L := Nat.mul_le_mul_right L hk
  rw [subframe, List.length_take, List.length_drop]
  rw [Nat.succ_mul] at this
  omega

theorem getD_subframe {L k n : ℕ} (hn : n < L) (band : List Int) :
    (subframe L k band).getD n 0 = band.getD (k * L + n) 0 := by
  simp [subframe, List.getD_eq_getElem?_getD, List.getElem?_take_of_lt hn]

/-! ### Lengths -/

theorem length_applyRamp (sample : Int → Int → Chk Int) (delta : Int) :
    ∀ (xs : List Int) (gain32 : Int), (applyRamp sample delta gain32 xs).val.length = xs.length
  | [], _ => rfl
  | x :: xs, gain32 => by
    rw [applyRamp, Chk.val_bind, Chk.val_bind, Chk.val_bind, Chk.val_pure, List.length_cons,
      List.length_cons, length_applyRamp sample delta xs]

theorem length_applySubframe (sample : Int → Int → Chk Int) (L2 : ℕ) (g0 g1 : Int)
    (xs : List Int) : (applySubframe sample L2 g0 g1 xs).val.length = xs.length := by
  rw [applySubframe, Chk.val_bind, Chk.val_bind, Chk.val_bind, length_applyRamp]

theorem length_applyGains {L : ℕ} (L2 : ℕ) (gains : List Int) {band : List Int}
    (h : 10 * L ≤ band.length) : (applyGains L L2 gains band).val.length = band.length := by
  rw [applyGains, Chk.val_bind, Chk.val_pure, val_mapM, List.length_append, List.length_drop,
    length_flatten_blocks (L := L) 10 fun k hk =>
      by rw [length_applySubframe, length_subframe h hk]]
  omega

/-! ### One sample -/

/-- The sample `v` is the product of `x` and the gain `y`, in Q20, up to 3. -/
def Near (y x v : Int) : Prop := |v - sat16 (x * y / 2 ^ 20)| ≤ 3

theorem drop_bits {x : Int} (hx : InI16 x) (y : Int) :
    x * (y / 2 ^ 4) / 2 ^ 16 ≤ x * y / 2 ^ 20 + 1 ∧
      x * y / 2 ^ 20 ≤ x * (y / 2 ^ 4) / 2 ^ 16 + 1 := by
  obtain ⟨h0, h1⟩ := hx
  have hsplit : x * y = x * (y / 2 ^ 4) * 2 ^ 4 + x * (y % 2 ^ 4) := by
    calc x * y = x * (y % 2 ^ 4 + 2 ^ 4 * (y / 2 ^ 4)) := by rw [Int.emod_add_mul_ediv]
      _ = x * (y / 2 ^ 4) * 2 ^ 4 + x * (y % 2 ^ 4) := by ring
  obtain ⟨hm0, hm1⟩ := mul_range (x := x) (y := y % 2 ^ 4) (X := 2 ^ 15) (Y := 15)
    ⟨by omega, by omega⟩ ⟨by omega, by omega⟩
  omega

theorem near_of_close {y x v : Int} (h0 : v ≤ x * y / 2 ^ 20 + 1)
    (h1 : x * y / 2 ^ 20 ≤ v + 1) : Near y x (sat16 v) := by
  rw [Near, sat16, sat16, abs_le]
  omega

theorem sampleRest_exact {y x : Int} (hx : InI16 x) :
    ∃ v, sampleRest y x = pure v ∧ Near y x v := by
  obtain ⟨h0, h1⟩ := drop_bits hx y
  exact ⟨_, rfl, near_of_close h0 h1⟩

/-- The coarse product, which decides on saturation, fits for gains up to 8. -/
theorem coarse_fits {x y : Int} (hx : InI16 x) (hy : 0 ≤ y ∧ y ≤ 2 ^ 23) :
    InI32 (x * ((y + 127) / 2 ^ 7)) := by
  have hq0 : 0 ≤ (y + 127) / 2 ^ 7 := by omega
  have hq1 : (y + 127) / 2 ^ 7 ≤ 65536 := by omega
  have hlo := mul_le_mul_of_nonneg_right hx.1 hq0
  have hhi := mul_le_mul_of_nonneg_right (show x ≤ 32767 by have := hx.2; omega) hq0
  exact ⟨by omega, by omega⟩

/-- The coarse product against the fine one, on either side of 0. -/
theorem coarse_product (x : Int) {y : Int} (hy : 0 ≤ y) :
    (0 ≤ x → x * (y / 2 ^ 4) ≤ 8 * (x * ((y + 127) / 2 ^ 7)) ∧ 0 ≤ x * (y / 2 ^ 4) ∧
      2 ^ 7 * (x * ((y + 127) / 2 ^ 7)) ≤ x * y + 127 * x ∧ 0 ≤ x * ((y + 127) / 2 ^ 7)) ∧
    (x ≤ 0 → 8 * (x * ((y + 127) / 2 ^ 7)) ≤ x * (y / 2 ^ 4) ∧ x * (y / 2 ^ 4) ≤ 0 ∧
      x * y + 127 * x ≤ 2 ^ 7 * (x * ((y + 127) / 2 ^ 7)) ∧ x * ((y + 127) / 2 ^ 7) ≤ 0) := by
  have hq0 : 0 ≤ (y + 127) / 2 ^ 7 := by omega
  have hfine : y / 2 ^ 4 ≤ 8 * ((y + 127) / 2 ^ 7) := by omega
  have hround : 2 ^ 7 * ((y + 127) / 2 ^ 7) ≤ y + 127 := by omega
  have hpos : 0 ≤ y / 2 ^ 4 := by omega
  constructor
  · intro h
    have hf := mul_le_mul_of_nonneg_left hfine h
    have hr := mul_le_mul_of_nonneg_left hround h
    exact ⟨by linarith, mul_nonneg h hpos, by linarith, mul_nonneg h hq0⟩
  · intro h
    have hf := mul_le_mul_of_nonpos_left hfine h
    have hr := mul_le_mul_of_nonpos_left hround h
    exact ⟨by linarith, mul_nonpos_of_nonpos_of_nonneg h hpos, by linarith,
      mul_nonpos_of_nonpos_of_nonneg h hq0⟩

/-- The first sub-frame's sample where the coarse product fits. -/
theorem sampleFirst_fits {y x : Int} (hx : InI16 x) (hy : 0 ≤ y ∧ y ≤ 2 ^ 31 - 128)
    (hin : InI32 (x * ((y + 127) / 2 ^ 7))) : ∃ v, sampleFirst y x = pure v ∧ Near y x v := by
  obtain ⟨hpos, hneg⟩ := coarse_product x hy.1
  obtain ⟨hx0, hx1⟩ := hx
  rw [sampleFirst, ck32_eq ⟨by omega, by omega⟩, pure_bind, ck32_eq hin, pure_bind]
  generalize x * ((y + 127) / 2 ^ 7) = t at hin hpos hneg
  by_cases hhigh : t / 2 ^ 16 > 4095
  · -- the exact product is at most 127 * 32767 short of the limit
    rw [if_pos hhigh]
    refine ⟨_, rfl, ?_⟩
    rw [Near, sat16, abs_le]
    omega
  rw [if_neg hhigh]
  by_cases hlow : t / 2 ^ 16 < -4096
  · rw [if_pos hlow]
    refine ⟨_, rfl, ?_⟩
    rw [Near, sat16, abs_le]
    omega
  · rw [if_neg hlow]
    have hin16 : InI16 (x * (y / 2 ^ 4) / 2 ^ 16) := ⟨by omega, by omega⟩
    obtain ⟨h0, h1⟩ := drop_bits ⟨hx0, hx1⟩ y
    rw [ck32_eq ⟨by omega, by omega⟩, pure_bind, i16_of hin16]
    refine ⟨_, rfl, ?_⟩
    have := near_of_close h0 h1
    rwa [sat16_of hin16] at this

theorem sampleFirst_exact {y x : Int} (hx : InI16 x) (hy : 0 ≤ y ∧ y ≤ 2 ^ 23 - 16) :
    ∃ v, sampleFirst y x = pure v ∧ Near y x v :=
  sampleFirst_fits hx ⟨hy.1, by omega⟩ (coarse_fits hx ⟨hy.1, by omega⟩)

/-! ### Two paths for one product -/

/-- A sample near the product is as near to the other sub-frames' sample, one
rounding apart. -/
theorem near_sampleRest {y x v : Int} (hx : InI16 x) (h : Near y x v) :
    |v - (sampleRest y x).val| ≤ 4 := by
  obtain ⟨h0, h1⟩ := drop_bits hx y
  have hrest : (sampleRest y x).val = sat16 (x * (y / 2 ^ 4) / 2 ^ 16) := rfl
  rw [Near, sat16, abs_le] at h
  rw [hrest, sat16, abs_le]
  omega

/-- Above 8 there is a negative sample whose coarse product wraps to a large
positive one. -/
theorem sampleFirst_wraps {y : Int} (hy : 2 ^ 23 < y ∧ y ≤ 2 ^ 31 - 128) :
    ∃ x, InI16 x ∧ x < 0 ∧ (sampleFirst y x).val = 32767 := by
  -- the first multiple of the coarse gain below the range
  have hq : 65537 ≤ (y + 127) / 2 ^ 7 ∧ (y + 127) / 2 ^ 7 ≤ 2 ^ 24 := ⟨by omega, by omega⟩
  have hck : ck32 (y + 127) = pure (y + 127) := ck32_eq ⟨by omega, by omega⟩
  simp only [sampleFirst, hck, pure_bind]
  generalize (y + 127) / 2 ^ 7 = q at hq
  have hdiv := Int.emod_add_mul_ediv (2 ^ 31) q
  have hmod0 := Int.emod_nonneg (2 ^ 31) (show q ≠ 0 by omega)
  have hmod1 := Int.emod_lt_of_pos (2 ^ 31) (show 0 < q by omega)
  have hn0 : 0 ≤ (2 ^ 31 : Int) / q := Int.ediv_nonneg (by decide) (by omega)
  have hn1 : (2 ^ 31 : Int) / q ≤ 32767 := by
    have : (2 ^ 31 : Int) / q < 32768 := Int.ediv_lt_of_lt_mul (by omega) (by omega)
    omega
  refine ⟨-(2 ^ 31 / q + 1), ⟨by omega, by omega⟩, by omega, ?_⟩
  have hprod : -(2 ^ 31 / q + 1) * q = -(q * (2 ^ 31 / q)) - q := by ring
  have hwrap : i32 (-(2 ^ 31 / q + 1) * q) / 2 ^ 16 > 4095 := by
    rw [hprod, i32]
    omega
  rw [Chk.val_bind, val_ck32, if_pos hwrap, Chk.val_pure]

/-- The code of the first sub-frame against the one of the others, for the
same sample and gain: they agree up to 4 where the coarse product fits 32
bits, and they agree on all samples exactly for the gains up to 8 (in Q20). -/
theorem first_path_agrees_iff (gain32 : Int) (hg : 0 ≤ gain32 ∧ gain32 ≤ 2 ^ 31 - 128) :
    (∀ x, InI16 x → InI32 (x * ((gain32 + 127) / 2 ^ 7)) →
      |(sampleFirst gain32 x).val - (sampleRest gain32 x).val| ≤ 4) ∧
    ((∀ x, InI16 x → |(sampleFirst gain32 x).val - (sampleRest gain32 x).val| ≤ 4) ↔
      gain32 ≤ 2 ^ 23) := by
  have hfits : ∀ x, InI16 x → InI32 (x * ((gain32 + 127) / 2 ^ 7)) →
      |(sampleFirst gain32 x).val - (sampleRest gain32 x).val| ≤ 4 := by
    intro x hx hin
    obtain ⟨v, hv, hnear⟩ := sampleFirst_fits hx hg hin
    rw [hv, Chk.val_pure]
    exact near_sampleRest hx hnear
  refine ⟨hfits, fun hall => ?_, fun hle x hx => hfits x hx (coarse_fits hx ⟨hg.1, hle⟩)⟩
  by_contra hgt
  obtain ⟨x, hx, hneg, hfirst⟩ := sampleFirst_wraps ⟨not_le.mp hgt, hg.2⟩
  have hrest : (sampleRest gain32 x).val ≤ 0 := by
    have hfine := (coarse_product x hg.1).2 hneg.le
    show sat16 (x * (gain32 / 2 ^ 4) / 2 ^ 16) ≤ 0
    rw [sat16]
    omega
  have := abs_le.mp (hall x hx)
  omega

/-- A full-scale sample with a gain of 8, and a gain of 2 on every sample. -/
theorem first_path_agrees_eight :
    |(sampleFirst (2 ^ 23) (-32768)).val - (sampleRest (2 ^ 23) (-32768)).val| ≤ 4 ∧
    ∀ x, InI16 x → |(sampleFirst (2 ^ 21) x).val - (sampleRest (2 ^ 21) x).val| ≤ 4 :=
  ⟨(first_path_agrees_iff (2 ^ 23) (by decide)).1 _ (by decide) (by decide),
    (first_path_agrees_iff (2 ^ 21) (by decide)).2.mpr (by decide)⟩

/-- Just above 8 the smallest sample comes out as the largest. -/
theorem first_path_wraps :
    (sampleFirst (2 ^ 23 + 1) (-32768)).val = 32767 ∧
      (sampleRest (2 ^ 23 + 1) (-32768)).val = -32768 := by
  decide

/-! ### A sub-frame -/

/-- Where no step wraps, a ramp is the sample function at every place. -/
theorem applyRamp_eq (sample : Int → Int → Chk Int) (delta y : Int) :
    ∀ (xs : List Int) (k : ℕ), (∀ n ≤ k + xs.length, InI32 (y + n * delta)) →
      applyRamp sample delta (y + k * delta) xs = (xs.zipIdx k).mapM fun p =>
        sample (y + p.2 * delta) p.1
  | [], _, _ => rfl
  | x :: xs, k, h => by
    have hnext : y + k * delta + delta = y + (k + 1 : ℕ) * delta := by
      push_cast
      ring
    have hin := h (k + 1) (by simp)
    rw [← hnext] at hin
    have ih := applyRamp_eq sample delta y xs (k + 1) fun n hn =>
      h n (by simp only [List.length_cons]; omega)
    rw [applyRamp, ck32_eq hin, hnext, List.zipIdx_cons, List.mapM_cons]
    simp only [pure_bind, ih]

/-- The gain of sample `n` of a sub-frame between the gains `g0` and `g1`, in
Q20; there are `2^L2` samples. -/
def rampQ20 (L2 : ℕ) (g0 g1 : Int) (n : ℕ) : Int := g0 * 2 ^ 4 + n * ((g1 - g0) * 2 ^ (4 - L2))

theorem rampQ20_zero (L2 : ℕ) (g0 g1 : Int) : rampQ20 L2 g0 g1 0 = g0 * 2 ^ 4 := by
  simp [rampQ20]

/-- At the end of the sub-frame the ramp is at the second gain. -/
theorem rampQ20_end {L2 : ℕ} (hL : L2 ≤ 4) (g0 g1 : Int) :
    rampQ20 L2 g0 g1 (2 ^ L2) = g1 * 2 ^ 4 := by
  have hpow : (2 : Int) ^ L2 * 2 ^ (4 - L2) = 2 ^ 4 := by rw [← pow_add]; congr 1; omega
  calc rampQ20 L2 g0 g1 (2 ^ L2) = g0 * 2 ^ 4 + (g1 - g0) * (2 ^ L2 * 2 ^ (4 - L2)) := by
        rw [rampQ20]
        push_cast
        ring
    _ = g1 * 2 ^ 4 := by
        rw [hpow]
        ring

/-- The ramp stays where its two ends are. -/
theorem rampQ20_between {L2 : ℕ} (hL : L2 ≤ 4) {g0 g1 lo hi : Int}
    (h0 : lo ≤ g0 ∧ g0 ≤ hi) (h1 : lo ≤ g1 ∧ g1 ≤ hi) {n : ℕ} (hn : n ≤ 2 ^ L2) :
    lo * 2 ^ 4 ≤ rampQ20 L2 g0 g1 n ∧ rampQ20 L2 g0 g1 n ≤ hi * 2 ^ 4 := by
  -- a weighted sum of the two gains
  have hpow : (2 : Int) ^ L2 * 2 ^ (4 - L2) = 2 ^ 4 := by rw [← pow_add]; congr 1; omega
  have hsum : rampQ20 L2 g0 g1 n = 2 ^ (4 - L2) * ((2 ^ L2 - n) * g0 + n * g1) := by
    calc rampQ20 L2 g0 g1 n = g0 * (2 ^ L2 * 2 ^ (4 - L2)) +
      n * ((g1 - g0) * 2 ^ (4 - L2)) := by rw [rampQ20, hpow]
      _ = 2 ^ (4 - L2) * ((2 ^ L2 - n) * g0 + n * g1) := by ring
  have hconst : ∀ g : Int, 2 ^ (4 - L2) * ((2 ^ L2 - n) * g + n * g) = g * 2 ^ 4 := fun g => by
    rw [← hpow]
    ring
  have hw : (0 : Int) ≤ 2 ^ L2 - n := by
    have : (n : Int) ≤ 2 ^ L2 := by exact_mod_cast hn
    omega
  rw [hsum, ← hconst lo, ← hconst hi]
  constructor
  · gcongr
    · exact h0.1
    · exact h1.1
  · gcongr
    · exact h0.2
    · exact h1.2

theorem rampQ20_range {L2 : ℕ} (hL : L2 ≤ 4) {g0 g1 : Int} (h0 : 0 ≤ g0 ∧ g0 < 2 ^ 19)
    (h1 : 0 ≤ g1 ∧ g1 < 2 ^ 19) {n : ℕ} (hn : n ≤ 2 ^ L2) :
    0 ≤ rampQ20 L2 g0 g1 n ∧ rampQ20 L2 g0 g1 n ≤ 2 ^ 23 - 16 := by
  have h0' : 0 ≤ g0 ∧ g0 ≤ 2 ^ 19 - 1 := ⟨h0.1, by omega⟩
  have := rampQ20_between hL h0' ⟨h1.1, by omega⟩ hn
  omega

theorem rampQ20_min_max {L2 : ℕ} (hL : L2 ≤ 4) (g0 g1 : Int) {n : ℕ} (hn : n ≤ 2 ^ L2) :
    min g0 g1 * 2 ^ 4 ≤ rampQ20 L2 g0 g1 n ∧ rampQ20 L2 g0 g1 n ≤ max g0 g1 * 2 ^ 4 :=
  rampQ20_between hL ⟨min_le_left _ _, le_max_left _ _⟩ ⟨min_le_right _ _,
    le_max_right _ _⟩ hn

/-- Where the two ends and the step fit 32 bits, a sub-frame is the sample
function along the ramp. -/
theorem applySubframe_eq (sample : Int → Int → Chk Int) {L2 : ℕ} (hL : L2 ≤ 4) {g0 g1 : Int}
    (h0 : InI32 (g0 * 2 ^ 4)) (h1 : InI32 (g1 * 2 ^ 4)) (hd : InI32 ((g1 - g0) * 2 ^ (4 - L2)))
    {xs : List Int} (hlen : xs.length ≤ 2 ^ L2) :
    applySubframe sample L2 g0 g1 xs = xs.zipIdx.mapM fun p =>
      sample (rampQ20 L2 g0 g1 p.2) p.1 := by
  obtain ⟨h00, h01⟩ := h0
  obtain ⟨h10, h11⟩ := h1
  have hramp := applyRamp_eq sample ((g1 - g0) * 2 ^ (4 - L2)) (g0 * 2 ^ 4) xs 0 fun n hn => by
    obtain ⟨hr0, hr1⟩ := rampQ20_min_max hL g0 g1 (show n ≤ 2 ^ L2 by omega)
    rw [rampQ20] at hr0 hr1
    exact ⟨by omega, by omega⟩
  rw [Nat.cast_zero, zero_mul, add_zero] at hramp
  rw [applySubframe, ck32_eq ⟨by omega, by omega⟩, pure_bind, ck32_eq hd, pure_bind,
    ck32_eq ⟨h00, h01⟩, pure_bind, hramp]
  rfl

theorem applySubframe_exact {sample : Int → Int → Chk Int}
    (hs : ∀ y x, 0 ≤ y ∧ y ≤ 2 ^ 23 - 16 → InI16 x → ∃ v,
      sample y x = pure v ∧ Near y x v)
    {L2 : ℕ} (hL : L2 ≤ 4) {g0 g1 : Int} (h0 : 0 ≤ g0 ∧ g0 < 2 ^ 19)
    (h1 : 0 ≤ g1 ∧ g1 < 2 ^ 19) {xs : List Int} (hx : ∀ x ∈ xs, InI16 x)
    (hlen : xs.length = 2 ^ L2) :
    ∃ ys, applySubframe sample L2 g0 g1 xs = pure ys ∧
      ∀ n < 2 ^ L2, Near (rampQ20 L2 g0 g1 n) (xs.getD n 0) (ys.getD n 0) := by
  have hc : (0 : Int) < 2 ^ (4 - L2) ∧ (2 : Int) ^ (4 - L2) ≤ 2 ^ 4 :=
    ⟨by positivity, pow_le_pow_right₀ (by norm_num) (by omega)⟩
  obtain ⟨hm0, hm1⟩ := mul_range (x := g1 - g0) (y := 2 ^ (4 - L2)) (X := 2 ^ 19) (Y := 2 ^ 4)
    ⟨by omega, by omega⟩ ⟨by omega, by omega⟩
  rw [applySubframe_eq sample hL ⟨by omega, by omega⟩ ⟨by omega, by omega⟩
    ⟨by omega, by omega⟩ hlen.le]
  obtain ⟨f, heq, hf⟩ :=
    mapM_exists (f := fun p : Int × ℕ => sample (rampQ20 L2 g0 g1 p.2) p.1)
    (P := fun p v => Near (rampQ20 L2 g0 g1 p.2) p.1 v) xs.zipIdx fun p hp => by
      obtain ⟨-, hlt, hget⟩ := List.mem_zipIdx hp
      exact hs _ _ (rampQ20_range hL h0 h1 (by omega)) (hx _ (hget ▸ List.getElem_mem _))
  refine ⟨_, heq, fun n hn => ?_⟩
  have hn' : n < xs.length := by omega
  have hmem : (xs[n], n) ∈ xs.zipIdx :=
    List.mk_mem_zipIdx_iff_getElem?.mpr (List.getElem?_eq_getElem hn')
  have hget : (xs.zipIdx.map f).getD n 0 = f (xs[n], n) := by
    simp [List.getD_eq_getElem?_getD, List.getElem?_eq_getElem hn']
  rw [hget, List.getD_eq_getElem xs 0 hn']
  exact (hf _ hmem).2

/-! ### A frame -/

/-- The gain of sample `n` of sub-frame `k`, in Q16: on the straight line
between the gains at the two ends of the sub-frame. -/
def ramp (L : ℕ) (gains : List Int) (k n : ℕ) : ℚ :=
  gains.getD k 0 + n * (gains.getD (k + 1) 0 - gains.getD k 0) / L

theorem ramp_eq {L2 : ℕ} (hL : L2 ≤ 4) (gains : List Int) (k n : ℕ) :
    ramp (2 ^ L2) gains k n = (rampQ20 L2 (gains.getD k 0) (gains.getD (k + 1) 0) n : ℚ) / 2 ^
      4 := by
  have hpow : (2 : ℚ) ^ L2 * 2 ^ (4 - L2) = 16 := by
    rw [← pow_add, show L2 + (4 - L2) = 4 by omega]
    norm_num
  have hL2 : (2 : ℚ) ^ L2 ≠ 0 := by positivity
  rw [ramp, rampQ20]
  push_cast
  rw [eq_div_iff (by norm_num)]
  field_simp
  linear_combination (n : ℚ) * ((gains.getD k 0 : ℚ) - gains.getD (k + 1) 0) * hpow

theorem floor_mul_ramp {L2 : ℕ} (hL : L2 ≤ 4) (gains : List Int) (k n : ℕ) (x : Int) :
    ⌊(x : ℚ) * ramp (2 ^ L2) gains k n / 65536⌋ =
      x * rampQ20 L2 (gains.getD k 0) (gains.getD (k + 1) 0) n / 2 ^ 20 := by
  rw [ramp_eq hL]
  have h := Rat.floor_intCast_div_natCast (x * rampQ20 L2 (gains.getD k 0) (gains.getD (k + 1) 0) n)
    (2 ^ 20)
  rw [show ((2 : Int) ^ 20) = ((2 ^ 20 : ℕ) : Int) by norm_num, ← h]
  congr 1
  push_cast
  ring

/-- The band `out` is `band` with every sample multiplied by its gain on the
ramp, rounded down and saturated, up to 4. -/
structure ScaledBy (L : ℕ) (gains band out : List Int) : Prop where
  length : out.length = band.length
  nonneg : ∀ k < 10, ∀ n < L, 0 ≤ ramp L gains k n
  close : ∀ k < 10, ∀ n < L, |out.getD (k * L + n) 0 -
    sat16 ⌊(band.getD (k * L + n) 0 : ℚ) * ramp L gains k n / 65536⌋| ≤ 4

/-- The application of gains less than 8 to a band of 16-bit samples. -/
theorem applyGains_exact {L2 : ℕ} (hL : L2 ≤ 4) {gains band : List Int}
    (hg : ∀ g ∈ gains, 0 ≤ g ∧ g < 2 ^ 19) (hx : ∀ x ∈ band, InI16 x)
    (hlen : band.length = 10 * 2 ^ L2) :
    ∃ out, applyGains (2 ^ L2) L2 gains band = pure out ∧ ScaledBy (2 ^ L2) gains band out := by
  have hgain : ∀ k, 0 ≤ gains.getD k 0 ∧ gains.getD k 0 < 2 ^ 19 :=
    forall_getD (P := fun g => 0 ≤ g ∧ g < 2 ^ 19) (by decide) hg
  have hsample : ∀ (k : ℕ) (y x : Int), 0 ≤ y ∧ y ≤ 2 ^ 23 - 16 → InI16 x →
      ∃ v, (if k = 0 then sampleFirst else sampleRest) y x = pure v ∧ Near y x v :=
        fun k y x hy hx => by
    split
    · exact sampleFirst_exact hx hy
    · exact sampleRest_exact hx
  have hsub : ∀ k, ∀ x ∈ subframe (2 ^ L2) k band, InI16 x := fun k x h =>
    hx x (List.mem_of_mem_drop (List.mem_of_mem_take h))
  obtain ⟨ys, hparts, hys⟩ := mapM_exists (List.range 10) fun k hk =>
    applySubframe_exact (hsample k) hL (hgain k) (hgain (k + 1)) (hsub k)
      (length_subframe (show 10 * 2 ^ L2 ≤ band.length by omega) (List.mem_range.mp hk))
  have heq : applyGains (2 ^ L2) L2 gains band =
      pure (((List.range 10).map ys).flatten ++ band.drop (10 * 2 ^ L2)) := by
    rw [applyGains, hparts, pure_bind]
  have hlens : ∀ k < 10, (ys k).length = 2 ^ L2 := fun k hk => by
    have := length_applySubframe (if k = 0 then sampleFirst else sampleRest) L2 (gains.getD k 0)
      (gains.getD (k + 1) 0) (subframe (2 ^ L2) k band)
    rw [(hys k (List.mem_range.mpr hk)).1, length_subframe (by omega) hk] at this
    exact this
  refine ⟨_, heq, ?_, ?_, ?_⟩
  · have := length_applyGains L2 gains (show 10 * 2 ^ L2 ≤ band.length by omega)
    rwa [heq] at this
  · intro k _ n hn
    rw [ramp_eq hL]
    have := (rampQ20_range hL (hgain k) (hgain (k + 1)) hn.le).1
    positivity
  · intro k hk n hn
    have hin : k * 2 ^ L2 + n < 10 * 2 ^ L2 := by
      calc k * 2 ^ L2 + n < (k + 1) * 2 ^ L2 := by rw [Nat.succ_mul]; omega
        _ ≤ 10 * 2 ^ L2 := Nat.mul_le_mul_right _ hk
    have hnear := (hys k (List.mem_range.mpr hk)).2 n hn
    rw [getD_subframe hn, Near] at hnear
    rw [List.getD_append _ _ _ _ (by rw [length_flatten_blocks 10 hlens]; exact hin),
      getD_flatten_blocks 0 hlens hk hn, floor_mul_ramp hL]
    omega

theorem subframeLength_eq {FS : Int} {L L2 : ℕ} (h : subframeLength FS = some (L, L2)) :
    L = 2 ^ L2 ∧ L2 ≤ 4 := by
  rw [subframeLength] at h
  split at h
  · cases h
    decide
  · split at h
    · cases h
      decide
    · cases h

/-- A frame of 16-bit samples through the digital stage under a mild table:
every operation of the gain computation and the application is exact, every
band is scaled by the ramp of the computed gains, and the state stays mild. -/
theorem processDigital_mild {s : DigitalAgc} (hs : MildState s) {FS : Int} {L L2 : ℕ}
    (hL : subframeLength FS = some (L, L2)) (low : Int) {bands : List (List Int)}
    (hx : ∀ b ∈ bands, ∀ x ∈ b, InI16 x) (hlen : ∀ b ∈ bands, b.length = 10 * L) :
    ∃ p d out, planGains (s.nearend L (bands.headD [])) L low (bands.headD []) = pure (some p) ∧
      processDigital s bands FS low = pure (.done d out) ∧ MildState d ∧
      List.Forall₂ (ScaledBy L p.gains) bands out := by
  obtain ⟨rfl, hL2⟩ := subframeLength_eq hL
  have hhead : ∀ x ∈ bands.headD [], InI16 x := by
    cases bands with
    | nil => simp
    | cons b _ => exact hx b List.mem_cons_self
  have hnear : MildState (s.nearend (2 ^ L2) (bands.headD [])) :=
    ⟨hs.table, hs.capacitors, hs.gain⟩
  obtain ⟨p, hp, hcap, hlen11, hgains⟩ := planGains_mild hnear (2 ^ L2) low hhead
  obtain ⟨o, happly, ho⟩ := mapM_exists bands fun b hb =>
    applyGains_exact hL2 hgains (hx b hb) (hlen b hb)
  refine ⟨p, (s.nearend (2 ^ L2) (bands.headD [])).commit p, bands.map o, hp, ?_,
    ⟨hs.table, hcap, ?_⟩, ?_⟩
  · rw [processDigital, hL]
    dsimp only
    rw [hp, pure_bind]
    dsimp only
    rw [happly, pure_bind]
  · rw [DigitalAgc.commit, List.getD_eq_getElem p.gains 0 (by omega)]
    exact hgains _ (List.getElem_mem _)
  · rw [List.forall₂_map_right_iff, List.forall₂_same]
    exact fun b hb => (ho b hb).2

end Samples
end AgcSpec
