/-
# The sparse FIR filter

`SparseFIRFilter` of `common_audio/sparse_fir_filter.cc`, a filter most of whose
coefficients are zero: the others are `sparsity_` apart, the first of them at
`offset_`. `Filter` works on a block; the end of the one before is in `state_`.

The arithmetic is any addition and multiplication, with no law assumed, so that
what is proved is about floats as they are, every rounding included.

* `sparse_filter_exact`: whatever blocks the input comes in, sample `t` of the
  output is the sum of `x(t - j * sparsity_ - offset_) * c(j)`, added up from the
  first coefficient to the last, with zeros before the first sample.
-/
import AgcSpec.Lib.Sliding

namespace AgcSpec

open Streams Sliding

/-- `SparseFIRFilter`. The constructor checks that there is a coefficient and
that they are apart; the state has the samples from the last coefficient on. -/
structure SparseFIRFilter (K : Type) where
  sparsity_ : ℕ
  offset_ : ℕ
  nonzero_coeffs_ : List K
  state_ : List K
  coeffs_pos : 1 ≤ nonzero_coeffs_.length
  sparsity_pos : 1 ≤ sparsity_
  length_state : state_.length = sparsity_ * (nonzero_coeffs_.length - 1) + offset_

namespace SparseFIRFilter

variable {K : Type} [Zero K] [Add K] [Mul K]

/-! ### The source -/

/-- The constructor. -/
def new (nonzero_coeffs : List K) (sparsity offset : ℕ) (hc : 1 ≤ nonzero_coeffs.length)
    (hs : 1 ≤ sparsity) :
    SparseFIRFilter K where
  sparsity_ := sparsity
  offset_ := offset
  nonzero_coeffs_ := nonzero_coeffs
  state_ := List.replicate (sparsity * (nonzero_coeffs.length - 1) + offset) 0
  coeffs_pos := hc
  sparsity_pos := hs
  length_state := List.length_replicate

/-- The second loop over the coefficients, from `j` on: samples of the blocks
before. -/
def fromState (f : SparseFIRFilter K) (i : ℕ) : ℕ → List K → K → K
  | _, [], out => out
  | j, c :: cs, out =>
    f.fromState i (j + 1) cs
      (out + f.state_.getD (i + (f.nonzero_coeffs_.length - j - 1) * f.sparsity_) 0 * c)

/-- The first loop, over those that meet samples of this block, and then the
second. -/
def fromInput (f : SparseFIRFilter K) (inp : List K) (i : ℕ) : ℕ → List K → K → K
  | _, [], out => out
  | j, c :: cs, out =>
    if i ≥ j * f.sparsity_ + f.offset_ then
      f.fromInput inp i (j + 1) cs (out + inp.getD (i - j * f.sparsity_ - f.offset_) 0 * c)
    else f.fromState i j (c :: cs) out

/-- The state after a block: its end, or the end of the state and the block. -/
def nextState (f : SparseFIRFilter K) (inp : List K) : List K :=
  if f.state_.length > 0 then
    if inp.length ≥ f.state_.length then inp.drop (inp.length - f.state_.length)
    else f.state_.drop inp.length ++ inp
  else f.state_

omit [Zero K] [Add K] [Mul K] in
theorem nextState_eq (f : SparseFIRFilter K) (inp : List K) :
    f.nextState inp = (keep (⟨f.state_, f.length_state⟩ : Memory K _) inp).val := by
  unfold nextState keep
  dsimp only
  by_cases hpos : f.state_.length > 0
  · rw [if_pos hpos]
    by_cases hlong : inp.length ≥ f.state_.length
    · rw [if_pos hlong, List.drop_append, List.drop_eq_nil_of_le hlong, List.nil_append]
    · rw [if_neg hlong, List.drop_append_of_le_length (by omega)]
  · rw [if_neg hpos, List.eq_nil_of_length_eq_zero (Nat.eq_zero_of_not_pos hpos), List.nil_append,
      List.drop_length]

/-- `Filter`. -/
def filter : Stage (SparseFIRFilter K) K K := fun f inp =>
  ((List.range inp.length).map fun i => f.fromInput inp i 0 f.nonzero_coeffs_ 0,
    { f with
      state_ := f.nextState inp
      length_state := by rw [nextState_eq]; exact (keep _ inp).property })

/-! ### The filter as a sliding window -/

/-- The products of the coefficients from the `j`-th on with the samples they
meet, added to `out`; `x lag` is the sample `lag` before the current one. -/
def taps (x : ℕ → K) (sparsity offset : ℕ) : ℕ → List K → K → K
  | _, [], out => out
  | j, c :: cs, out => taps x sparsity offset (j + 1) cs (out + x (j * sparsity + offset) * c)

omit [Zero K] in
theorem taps_congr {x y : ℕ → K} {sparsity offset n : ℕ}
    (h : ∀ j < n, x (j * sparsity + offset) = y (j * sparsity + offset)) :
    ∀ (cs : List K) (j : ℕ) (out : K), j + cs.length = n →
      taps x sparsity offset j cs out = taps y sparsity offset j cs out
  | [], _, _, _ => rfl
  | c :: cs, j, out, hn => by
    rw [List.length_cons] at hn
    rw [taps, taps, h j (by omega)]
    exact taps_congr h cs (j + 1) _ (by omega)

section Sample

variable (f : SparseFIRFilter K) (inp : List K) (i : ℕ)

/-- The past of a filter, as the memory of a window. -/
def memory : Memory K (f.sparsity_ * (f.nonzero_coeffs_.length - 1) + f.offset_) :=
  ⟨f.state_, f.length_state⟩

/-- The sample `lag` before the current one, in its window. -/
def lagged (lag : ℕ) : K :=
  (window f.memory inp i).getD (f.sparsity_ * (f.nonzero_coeffs_.length - 1) + f.offset_ - lag) 0

omit [Zero K] [Add K] [Mul K] in
theorem lag_le {j : ℕ} (hj : j < f.nonzero_coeffs_.length) :
    j * f.sparsity_ + f.offset_ ≤ f.sparsity_ * (f.nonzero_coeffs_.length - 1) + f.offset_ := by
  have := Nat.mul_le_mul_left f.sparsity_ (show j ≤ f.nonzero_coeffs_.length - 1 by omega)
  rw [Nat.mul_comm j]
  omega

omit [Add K] [Mul K] in
/-- The sample that a coefficient meets is in the state, or in the block. -/
theorem lagged_eq {j : ℕ} (hj : j < f.nonzero_coeffs_.length) :
    f.lagged inp i (j * f.sparsity_ + f.offset_) =
      if j * f.sparsity_ + f.offset_ ≤ i then inp.getD (i - j * f.sparsity_ - f.offset_) 0
      else f.state_.getD (i + (f.nonzero_coeffs_.length - j - 1) * f.sparsity_) 0 := by
  have hle := f.lag_le hj
  have hlen := f.length_state
  have hdist : f.sparsity_ * (f.nonzero_coeffs_.length - 1) =
      j * f.sparsity_ + (f.nonzero_coeffs_.length - j - 1) * f.sparsity_ := by
    rw [← Nat.add_mul, Nat.mul_comm]
    congr 1
    omega
  unfold lagged
  rw [window_getD _ _ _ hle]
  change (f.state_ ++ inp).getD _ 0 = _
  by_cases h : j * f.sparsity_ + f.offset_ ≤ i
  · rw [if_pos h, List.getD_append_right _ _ _ _ (by omega)]
    congr 1
    omega
  · rw [if_neg h, List.getD_append _ _ _ _ (by omega)]
    congr 1
    omega

theorem fromState_eq : ∀ (cs : List K) (j : ℕ) (out : K),
    j + cs.length = f.nonzero_coeffs_.length → i < j * f.sparsity_ + f.offset_ →
    f.fromState i j cs out = taps (f.lagged inp i) f.sparsity_ f.offset_ j cs out
  | [], _, _, _, _ => rfl
  | c :: cs, j, out, hn, hold => by
    rw [List.length_cons] at hn
    rw [fromState, taps, lagged_eq f inp i (by omega), if_neg (by omega)]
    exact fromState_eq cs (j + 1) _ (by omega) (by rw [Nat.add_mul]; omega)

theorem fromInput_eq : ∀ (cs : List K) (j : ℕ) (out : K),
    j + cs.length = f.nonzero_coeffs_.length →
      f.fromInput inp i j cs out = taps (f.lagged inp i) f.sparsity_ f.offset_ j cs out
  | [], _, _, _ => rfl
  | c :: cs, j, out, hn => by
    have hj : j < f.nonzero_coeffs_.length := by
      rw [List.length_cons] at hn
      omega
    by_cases h : i ≥ j * f.sparsity_ + f.offset_
    · rw [fromInput, if_pos h, taps, lagged_eq f inp i hj, if_pos h]
      exact fromInput_eq cs (j + 1) _ (by rw [List.length_cons] at hn; omega)
    · rw [fromInput, if_neg h]
      exact fromState_eq f inp i (c :: cs) j out hn (by omega)

end Sample

/-- What a filter makes of a window. -/
def respond (f : SparseFIRFilter K) (w : List K) : K :=
  taps (fun lag => w.getD (f.sparsity_ * (f.nonzero_coeffs_.length - 1) + f.offset_ - lag) 0)
    f.sparsity_ f.offset_ 0
    f.nonzero_coeffs_ 0

theorem filter_outputs (f : SparseFIRFilter K) (inp : List K) :
    (filter f inp).1 = (slide _ f.respond f.memory inp).1 :=
  List.map_congr_left fun i _ => fromInput_eq f inp i f.nonzero_coeffs_ 0 0 (Nat.zero_add _)

theorem filter_memory (f : SparseFIRFilter K) (inp : List K) :
    (filter f inp).2.memory = (slide _ f.respond f.memory inp).2 := Subtype.ext (f.nextState_eq inp)

omit [Zero K] [Add K] [Mul K] in
/-- Filters with the same coefficients and the same past. -/
theorem eq_of_memory {f g : SparseFIRFilter K} (hs : g.sparsity_ = f.sparsity_)
    (ho : g.offset_ = f.offset_)
    (hc : g.nonzero_coeffs_ = f.nonzero_coeffs_) (hm : g.state_ = f.state_) : g = f := by
  cases f
  cases g
  subst hs ho hc hm
  rfl

theorem chunks_filter : Chunks 1 (filter (K := K)) := by
  intro f xs ys hx hy
  have hcut := chunks_slide f.respond f.memory xs ys hx hy
  -- the second filter slides over the memory that the first one left
  have hmem := filter_memory f xs
  have hout : (filter (filter f xs).2 ys).1 =
      (slide _ f.respond (slide _ f.respond f.memory xs).2 ys).1 :=
    (filter_outputs _ ys).trans (congrArg (fun m => (slide _ f.respond m ys).1) hmem)
  have hstate : (filter (filter f xs).2 ys).2.memory =
      (slide _ f.respond (slide _ f.respond f.memory xs).2 ys).2 :=
    (filter_memory _ ys).trans (congrArg (fun m => (slide _ f.respond m ys).2) hmem)
  have hwhole : (filter f (xs ++ ys)).2.memory =
      (slide _ f.respond (slide _ f.respond f.memory xs).2 ys).2 :=
    (filter_memory f (xs ++ ys)).trans (by rw [hcut])
  refine Prod.ext ?_ (eq_of_memory rfl rfl rfl (congrArg Subtype.val (hwhole.trans hstate.symm)))
  rw [filter_outputs, hcut, filter_outputs f xs, hout]

theorem filter_new_getElem? (nonzero_coeffs : List K) (sparsity offset : ℕ)
    (hc : 1 ≤ nonzero_coeffs.length) (hs : 1 ≤ sparsity) {inp : List K} {t : ℕ}
    (ht : t < inp.length) :
    (filter (new nonzero_coeffs sparsity offset hc hs) inp).1[t]? =
      some (taps (delayed 0 inp t) sparsity offset 0 nonzero_coeffs 0) := by
  rw [filter_outputs, slide_getElem? _ _ ht]
  refine congrArg some (taps_congr (fun j hj => ?_) nonzero_coeffs 0 0 (Nat.zero_add _))
  exact window_start 0 inp t (lag_le (new nonzero_coeffs sparsity offset hc hs) hj)

/-! ### Blocks -/

/-- `Filter` on one block after the other. -/
def filterAll (f : SparseFIRFilter K) : List (List K) → List (List K) × SparseFIRFilter K
  | [] => ([], f)
  | b :: bs =>
    let r := filterAll (filter f b).2 bs
    ((filter f b).1 :: r.1, r.2)

theorem filterAll_flatten (bs : List (List K)) : ∀ f : SparseFIRFilter K,
    (filterAll f bs).1.flatten = (filter f bs.flatten).1 := by
  induction bs with
  | nil => exact fun _ => rfl
  | cons b bs ih =>
    intro f
    have hcut := chunks_filter f b bs.flatten (one_dvd _) (one_dvd _)
    rw [filterAll, List.flatten_cons, List.flatten_cons, hcut, ih]

/-- Whatever blocks the input of a new filter comes in, sample `t` of its output
is made of the samples `j * sparsity + offset` before it, in the order of the
coefficients, with zeros before the first. -/
theorem sparse_filter_exact (nonzero_coeffs : List K) (sparsity offset : ℕ)
    (hc : 1 ≤ nonzero_coeffs.length) (hs : 1 ≤ sparsity) (bs : List (List K)) {t : ℕ}
    (ht : t < bs.flatten.length) :
    (filterAll (new nonzero_coeffs sparsity offset hc hs) bs).1.flatten[t]? =
      some (taps (delayed 0 bs.flatten t) sparsity offset 0 nonzero_coeffs 0) := by
  rw [filterAll_flatten]
  exact filter_new_getElem? nonzero_coeffs sparsity offset hc hs ht

/-- The coefficients 1 and 10, two apart, one sample late, on three blocks. -/
theorem sparse_filter_exact_three_blocks :
    (filterAll (new [(1 : ℤ), 10] 2 1 (by decide) (by decide)) [[1, 2, 3], [],
      [4, 5]]).1.flatten[4]? =
      some (4 * 1 + 2 * 10) :=
  @sparse_filter_exact ℤ _ _ _ [1, 10] 2 1 (by decide) (by decide) [[1, 2, 3], [], [4, 5]] 4
    (by decide)

end SparseFIRFilter

end AgcSpec
