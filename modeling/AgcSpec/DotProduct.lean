/-
# The unrolled dot product

`WebRtcSpl_DotProductWithScale` adds four products a turn while four are left,
and then one a turn. It is there twice, with the clamp written out
(`digital_agc`) and with `rtc::saturated_cast` (`common_audio`). Here it is the
function on its arrays: an accumulator of 64 bits, and with it the indices at
which the arrays have been read so far.

After the turns up to an index the accumulator is the sum of the products below
it, and the indices read are those below it, in order (`upTo`); one product
takes this from an index to the next (`accumulate_upTo`), so it does not
matter where the unrolled loop leaves off. Both functions return the clamped sum
(`dotProduct_exact`), as the function on lists does that the microphone side
calls (`dotProductWithScale_eq`).
-/
import AgcSpec.Spl
import AgcSpec.AudioUtil

namespace AgcSpec
namespace DotProduct

open FixedPoint

/-! ### The loops -/

/-- `sum`, and the indices at which the vectors have been read. -/
structure Accumulator where
  sum : Int
  reads : List ℕ
deriving DecidableEq

section Loops

variable (vector1 vector2 : List Sample) (length scaling : ℕ)

/-- `sum += (vector1[i] * vector2[i]) >> scaling`. -/
def accumulate (acc : Accumulator) (i : ℕ) : Chk Accumulator := do
  let a ← flag (i < vector1.length) (vector1.getD i 0)
  let b ← flag (i < vector2.length) (vector2.getD i 0)
  let product ← ck32 (a.val * b.val)
  let shifted ← flag (scaling < 32) (product / 2 ^ scaling)
  let sum ← ck64 (acc.sum + shifted)
  pure ⟨sum, acc.reads ++ [i]⟩

/-- `for (i = 0; i + 3 < length; i += 4)`, from `i` on, and where it leaves off. -/
def unrolledLoop (i : ℕ) (acc : Accumulator) : Chk (ℕ × Accumulator) :=
  if i + 3 < length then do
    let acc ← accumulate vector1 vector2 scaling acc (i + 0)
    let acc ← accumulate vector1 vector2 scaling acc (i + 1)
    let acc ← accumulate vector1 vector2 scaling acc (i + 2)
    let acc ← accumulate vector1 vector2 scaling acc (i + 3)
    unrolledLoop (i + 4) acc
  else pure (i, acc)
termination_by length - i

/-- `for (; i < length; i++)`. -/
def tailLoop (i : ℕ) (acc : Accumulator) : Chk Accumulator :=
  if i < length then do
    let acc ← accumulate vector1 vector2 scaling acc i
    tailLoop (i + 1) acc
  else pure acc
termination_by length - i

/-- Both loops. -/
def sumLoops : Chk Accumulator := do
  let (i, acc) ← unrolledLoop vector1 vector2 length scaling 0 ⟨0, []⟩
  tailLoop vector1 vector2 length scaling i acc

end Loops

/-- The clamp of `digital_agc`. -/
def clampW32 (sum : Int) : Int := if sum > 0x7FFFFFFF then 0x7FFFFFFF else if sum < -2 ^ 31
    then -2 ^ 31 else sum

/-- `rtc::internal::RangeCheckResult`; an integer is never `TYPE_INVALID`. -/
inductive RangeCheckResult where
  | valid | underflow | overflow

/-- `RangeCheck<int32_t>` of an `int64_t`. -/
def rangeCheck (value : Int) : RangeCheckResult :=
  if value ≤ 0x7FFFFFFF then (if value ≥ -2 ^ 31 then .valid else .underflow) else .overflow

/-- `rtc::saturated_cast<int32_t>` of an `int64_t`. -/
def saturatedCast (value : Int) : Int :=
  match rangeCheck value with
  | .valid => i32 value
  | .underflow => -2 ^ 31
  | .overflow => 0x7FFFFFFF

/-- `WebRtcSpl_DotProductWithScale` of `digital_agc/signal_processing_library.c`,
with the indices it reads. -/
def dotProductWithScaleUnrolled (vector1 vector2 : List Sample) (length scaling : ℕ) :
    Chk Accumulator := do
  let acc ← sumLoops vector1 vector2 length scaling
  pure ⟨clampW32 acc.sum, acc.reads⟩

/-- `WebRtcSpl_DotProductWithScale` of `common_audio/dot_product_with_scale.cc`. -/
def dotProductWithScaleSaturated (vector1 vector2 : List Sample) (length scaling : ℕ) :
    Chk Accumulator := do
  let acc ← sumLoops vector1 vector2 length scaling
  pure ⟨saturatedCast acc.sum, acc.reads⟩

/-! ### The sum -/

section Sum

variable (vector1 vector2 : List Sample) (scaling : ℕ)

/-- The product at `i`, shifted: rounded down. -/
def term (i : ℕ) : Int := (vector1.getD i 0).val * (vector2.getD i 0).val / 2 ^ scaling

/-- The accumulator after the products below `i`. -/
def upTo (i : ℕ) : Accumulator :=
  ⟨∑ k ∈ Finset.range i, term vector1 vector2 scaling k, List.range i⟩

theorem product_range (i : ℕ) : -2 ^ 30 ≤ (vector1.getD i 0).val * (vector2.getD i 0).val ∧
    (vector1.getD i 0).val * (vector2.getD i 0).val ≤ 2 ^ 30 := by
  obtain ⟨ha0, ha1⟩ := (vector1.getD i 0).2
  obtain ⟨hb0, hb1⟩ := (vector2.getD i 0).2
  exact mul_range (X := 2 ^ 15) (Y := 2 ^ 15) ⟨ha0, ha1.le⟩ ⟨hb0, hb1.le⟩

theorem term_range (i : ℕ) : |term vector1 vector2 scaling i| ≤ 2 ^ 30 := by
  obtain ⟨h0, h1⟩ := product_range vector1 vector2 i
  have hpos : (0 : Int) < 2 ^ scaling := by positivity
  have hone : (1 : Int) ≤ 2 ^ scaling := one_le_pow₀ (by norm_num)
  unfold term
  rw [abs_le]
  constructor
  · rw [Int.le_ediv_iff_mul_le hpos]
    exact (mul_le_mul_of_nonpos_left hone (by norm_num)).trans (by rwa [mul_one])
  · exact Int.ediv_le_of_le_mul hpos (h1.trans (le_mul_of_one_le_right (by norm_num) hone))

theorem upTo_range (i : ℕ) : |(upTo vector1 vector2 scaling i).sum| ≤ i * 2 ^ 30 :=
  calc |∑ k ∈ Finset.range i, term vector1 vector2 scaling k|
      ≤ ∑ k ∈ Finset.range i, |term vector1 vector2 scaling k| :=
        Finset.abs_sum_le_sum_abs _ _
    _ ≤ (Finset.range i).card • (2 ^ 30 : Int) := Finset.sum_le_card_nsmul _ _ _ fun k _ =>
      term_range vector1 vector2 scaling k
    _ = i * 2 ^ 30 := by rw [Finset.card_range, nsmul_eq_mul]

end Sum

section Exact

variable {vector1 vector2 : List Sample} {scaling : ℕ}

/-- One product takes the accumulator from an index to the next. -/
theorem accumulate_upTo (hlen : vector2.length = vector1.length) (hn : vector1.length < 2 ^ 31)
    (hs : scaling ≤ 31) {i : ℕ} (hi : i < vector1.length) :
    accumulate vector1 vector2 scaling (upTo vector1 vector2 scaling i) i =
      pure (upTo vector1 vector2 scaling (i + 1)) := by
  obtain ⟨h0, h1⟩ := product_range vector1 vector2 i
  have hsum := abs_le.mp (upTo_range vector1 vector2 scaling (i + 1))
  have hnext : (upTo vector1 vector2 scaling i).sum + term vector1 vector2 scaling i =
      (upTo vector1 vector2 scaling (i + 1)).sum := (Finset.sum_range_succ _ i).symm
  have hin : InI64 ((upTo vector1 vector2 scaling i).sum + term vector1 vector2 scaling i) := by
    rw [hnext]
    push_cast at hsum
    exact ⟨by omega, by omega⟩
  unfold accumulate
  rw [flag_eq hi, pure_bind, flag_eq (hlen ▸ hi), pure_bind, ck32_eq ⟨by omega, by omega⟩,
    pure_bind, flag_eq (by omega), pure_bind]
  change (ck64 ((upTo vector1 vector2 scaling i).sum + term vector1 vector2 scaling i) >>= _) = _
  rw [ck64_eq hin, pure_bind, hnext, upTo, upTo, List.range_succ]

/-- The unrolled loop leaves off at some index, with the products below it. -/
theorem unrolledLoop_upTo (hlen : vector2.length = vector1.length) (hn : vector1.length < 2 ^ 31)
    (hs : scaling ≤ 31) {i : ℕ} (hi : i ≤ vector1.length) : ∃ j ≤ vector1.length,
      unrolledLoop vector1 vector2 vector1.length scaling i (upTo vector1 vector2 scaling i) =
        pure (j, upTo vector1 vector2 scaling j) := by
  induction hk : vector1.length - i using Nat.strong_induction_on generalizing i with
  | _ k ih =>
    rw [unrolledLoop]
    by_cases hmore : i + 3 < vector1.length
    · obtain ⟨j, hj, hrest⟩ := ih (vector1.length - (i + 4)) (by omega) (i := i + 4)
        (by omega) rfl
      refine ⟨j, hj, ?_⟩
      rw [if_pos hmore, add_zero, accumulate_upTo hlen hn hs (by omega), pure_bind,
        accumulate_upTo hlen hn hs (by omega), pure_bind, accumulate_upTo hlen hn hs (by omega),
        pure_bind, accumulate_upTo hlen hn hs (by omega), pure_bind, hrest]
    · exact ⟨i, hi, if_neg hmore⟩

theorem tailLoop_upTo (hlen : vector2.length = vector1.length) (hn : vector1.length < 2 ^ 31)
    (hs : scaling ≤ 31) {i : ℕ} (hi : i ≤ vector1.length) :
    tailLoop vector1 vector2 vector1.length scaling i (upTo vector1 vector2 scaling i) =
      pure (upTo vector1 vector2 scaling vector1.length) := by
  induction hk : vector1.length - i generalizing i with
  | zero =>
    obtain rfl : i = vector1.length := by omega
    rw [tailLoop, if_neg (lt_irrefl _)]
  | succ k ih =>
    rw [tailLoop, if_pos (by omega), accumulate_upTo hlen hn hs (by omega), pure_bind,
      ih (by omega) (by omega)]

theorem sumLoops_eq (hlen : vector2.length = vector1.length) (hn : vector1.length < 2 ^ 31)
    (hs : scaling ≤ 31) :
    sumLoops vector1 vector2 vector1.length scaling =
      pure (upTo vector1 vector2 scaling vector1.length) := by
  obtain ⟨j, hj, hloop⟩ := unrolledLoop_upTo hlen hn hs (Nat.zero_le vector1.length)
  unfold sumLoops
  rw [show (⟨0, []⟩ : Accumulator) = upTo vector1 vector2 scaling 0 from rfl, hloop, pure_bind]
  exact tailLoop_upTo hlen hn hs hj

end Exact

/-! ### The clamp -/

theorem clampW32_eq (x : Int) : clampW32 x = max (-2 ^ 31) (min (2 ^ 31 - 1) x) := by
  unfold clampW32
  omega

theorem saturatedCast_eq (x : Int) : saturatedCast x = max (-2 ^ 31) (min (2 ^ 31 - 1) x) := by
  unfold saturatedCast rangeCheck
  by_cases hhi : x ≤ 0x7FFFFFFF
  · by_cases hlo : x ≥ -2 ^ 31
    · rw [if_pos hhi, if_pos hlo]
      dsimp only
      rw [i32_of ⟨hlo, by omega⟩]
      omega
    · rw [if_pos hhi, if_neg hlo]
      dsimp only
      omega
  · rw [if_neg hhi]
    dsimp only
    omega

/-- Both functions return the sum of the shifted products, clamped to 32 bits;
they have read the vectors at every index once, in order, and nothing has
overflowed. -/
theorem dotProduct_exact {vector1 vector2 : List Sample} (hlen : vector2.length = vector1.length)
    (hn : vector1.length < 2 ^ 31) {scaling : ℕ} (hs : scaling ≤ 31) :
    dotProductWithScaleUnrolled vector1 vector2 vector1.length scaling =
        pure ⟨max (-2 ^ 31) (min (2 ^ 31 - 1) (∑ i ∈ Finset.range vector1.length,
          (vector1.getD i 0).val * (vector2.getD i 0).val / 2 ^ scaling)),
            List.range vector1.length⟩ ∧
      dotProductWithScaleSaturated vector1 vector2 vector1.length scaling =
        dotProductWithScaleUnrolled vector1 vector2 vector1.length scaling := by
  have hsum := sumLoops_eq hlen hn hs
  have hunrolled : dotProductWithScaleUnrolled vector1 vector2 vector1.length scaling =
      pure ⟨max (-2 ^ 31) (min (2 ^ 31 - 1) (upTo vector1 vector2 scaling vector1.length).sum),
          List.range vector1.length⟩ := by
    rw [dotProductWithScaleUnrolled, hsum, pure_bind, clampW32_eq]
    rfl
  refine ⟨hunrolled, ?_⟩
  rw [hunrolled, dotProductWithScaleSaturated, hsum, pure_bind, saturatedCast_eq]
  rfl

/-- Five products, the first of them negative and odd. -/
theorem dotProduct_exact_five : dotProductWithScaleUnrolled ([-3, 1, 1, 1, 32767].map Sample.cast)
    ([1, 1, 1, 1, 1].map Sample.cast) 5 1 = pure ⟨16381, [0, 1, 2, 3, 4]⟩ :=
  (@dotProduct_exact ([-3, 1, 1, 1, 32767].map Sample.cast) ([1, 1, 1, 1, 1].map Sample.cast) rfl
    (by decide) 1 (by decide)).1.trans rfl

/-! ### The function on lists -/

theorem dotProductLoop_eq (scaling : ℕ) (sum : Int) (xs ys : List Int) :
    dotProductLoop scaling sum xs ys =
    sum + (List.zipWith (fun x y => x * y / 2 ^ scaling) xs ys).sum := by
  induction sum, xs, ys using dotProductLoop.induct scaling with
  | case1 sum a0 a1 a2 a3 as b0 b1 b2 b3 bs ih =>
    rw [dotProductLoop, ih]
    simp only [List.zipWith_cons_cons, List.sum_cons]
    ring
  | case2 sum a as b bs hshort ih =>
    rw [dotProductLoop, ih, List.zipWith_cons_cons, List.sum_cons, add_assoc]
    exact hshort
  | case3 xs sum ys _ hone =>
    cases xs with
    | nil => simp [dotProductLoop]
    | cons x xs =>
      cases ys with
      | nil => simp [dotProductLoop]
      | cons y ys => exact (hone x xs y ys rfl rfl).elim

theorem sum_zipWith (f : Sample → Sample → Int) : ∀ (xs ys : List Sample),
    ys.length = xs.length → (List.zipWith f xs ys).sum = ∑ i ∈ Finset.range xs.length,
      f (xs.getD i 0) (ys.getD i 0)
  | [], _, _ => by simp
  | x :: xs, y :: ys, h => by
    rw [List.zipWith_cons_cons, List.sum_cons, sum_zipWith f xs ys (Nat.succ.inj h),
      List.length_cons, Finset.sum_range_succ', add_comm]
    rfl

/-- The function of the microphone side returns the sum of the function on arrays. -/
theorem dotProductWithScale_eq {vector1 vector2 : List Sample}
    (hlen : vector2.length = vector1.length) (hn : vector1.length < 2 ^ 31) {scaling : ℕ}
    (hs : scaling ≤ 31) :
    dotProductWithScale (vector1.map Subtype.val) (vector2.map Subtype.val) scaling =
      (dotProductWithScaleUnrolled vector1 vector2 vector1.length scaling).val.sum := by
  have hlists : dotProductLoop scaling 0 (vector1.map Subtype.val) (vector2.map Subtype.val) =
      (upTo vector1 vector2 scaling vector1.length).sum := by
    rw [dotProductLoop_eq, zero_add, List.zipWith_map]
    exact sum_zipWith (fun x y => x.val * y.val / 2 ^ scaling) vector1 vector2 hlen
  rw [dotProductWithScale, hlists, dotProductWithScaleUnrolled, sumLoops_eq hlen hn hs]
  rfl

end DotProduct
end AgcSpec
