/-
# The sinc resampler

`SincResampler` of `common_audio/resampler/sinc_resampler.cc` asks a callback for
blocks of `request_frames_` input frames and hands out any number of output
frames. Each is a convolution of 32 input frames around a position that advances
by the ratio of the rates. The input is kept in one buffer of five regions: when
the position passes the block, the last 32 frames are copied to the front and
the callback fills in after them. The first load goes in 16 frames earlier than
all later ones.

Positions are exact rationals and samples elements of a field, so rounding is
left out. The conversions of positions and counts to `int` are taken as exact:
a position stays below the block size plus one step, and a count is at most the
block size over the ratio. The kernel of a ratio, which `InitializeKernel` and `SetRatio` fill in
from sines and cosines, is a parameter.

* `resample_exact`: over any sequence of `Resample` and `SetRatio`, each output
  frame is the convolution of the whole input, 16 zeros in front, at the sum of
  the ratios of the frames before it. Neither the regions of the buffer nor the
  sizes of the calls can be seen.
-/
import Mathlib

namespace AgcSpec

/-- `kKernelSize` and `kKernelOffsetCount`. -/
def kKernelSize : ℕ := 32
def kKernelOffsetCount : ℕ := 32

/-- `SincResampler`. The five regions follow from `second_load`, the argument of
the last `UpdateRegions`; the constructor checks that a block is longer than a
kernel. -/
structure SincResampler (K : Type) where
  io_sample_rate_ratio_ : ℚ
  request_frames_ : ℕ
  kernel_storage_ : ℕ → K
  virtual_source_idx_ : ℚ
  buffer_primed_ : Bool
  input_buffer_ : List K
  second_load : Bool
  ratio_pos : 0 < io_sample_rate_ratio_
  block_large : kKernelSize < request_frames_ - kKernelSize / 2

/-- `SincResamplerCallback`: `Run` delivers as many frames as it is asked for. It
has a state of its own and may end the program. -/
structure SincResamplerCallback (σ K : Type) where
  Run : σ → ℕ → Option (List K × σ)
  length_run : ∀ {s n r}, Run s n = some r → r.1.length = n

namespace SincResampler

variable {σ K : Type} [Field K]

/-! ### The source -/

/-- `r0_`, where the callback writes, `r3_` and `block_size_`, the distance of
`r2_` and `r4_`. -/
def r0 (R : SincResampler K) : ℕ := if R.second_load then kKernelSize else kKernelSize / 2
def r3 (R : SincResampler K) : ℕ := R.r0 + R.request_frames_ - kKernelSize
def blockSize (R : SincResampler K) : ℕ :=
  R.r0 + R.request_frames_ - kKernelSize / 2 - kKernelSize / 2

/-- `Flush`. -/
def flush (R : SincResampler K) : SincResampler K :=
  { R with
    virtual_source_idx_ := 0
    buffer_primed_ := false
    input_buffer_ := List.replicate (R.request_frames_ + kKernelSize) 0
    second_load := false }

/-- The constructor. -/
def new (kernel : ℚ → ℕ → K) (io_sample_rate_ratio : ℚ) (request_frames : ℕ)
    (hr : 0 < io_sample_rate_ratio)
    (hb : kKernelSize < request_frames - kKernelSize / 2) : SincResampler K :=
  flush
    { io_sample_rate_ratio_ := io_sample_rate_ratio
      request_frames_ := request_frames
      kernel_storage_ := kernel io_sample_rate_ratio
      virtual_source_idx_ := 0
      buffer_primed_ := false
      input_buffer_ := []
      second_load := false
      ratio_pos := hr
      block_large := hb }

/-- The epsilon of a `double`. -/
def epsilon : ℚ := 1 / 2 ^ 52

/-- `SetRatio`. -/
def setRatio (kernel : ℚ → ℕ → K) (R : SincResampler K) (io_sample_rate_ratio : ℚ)
    (hr : 0 < io_sample_rate_ratio) : SincResampler K :=
  if |R.io_sample_rate_ratio_ - io_sample_rate_ratio| < epsilon then R
  else
    { R with
      io_sample_rate_ratio_ := io_sample_rate_ratio
      kernel_storage_ := kernel io_sample_rate_ratio
      ratio_pos := hr }

/-- `ChunkSize`. -/
def chunkSize (R : SincResampler K) : ℕ := ⌊(R.blockSize : ℚ) / R.io_sample_rate_ratio_⌋₊

/-- `Convolve_C`. -/
def convolve (input k1 k2 : ℕ → K) (kernel_interpolation_factor : ℚ) : K :=
  let sums := (List.range kKernelSize).foldl
    (fun s i => (s.1 + input i * k1 i, s.2 + input i * k2 i)) ((0, 0) : K × K)
  ((1 - kernel_interpolation_factor : ℚ) : K) * sums.1 +
    (kernel_interpolation_factor : K) * sums.2

/-- The body of the inner loop up to the convolution, at position `idx` of `input`. -/
def frameAt (kernel input : ℕ → K) (idx : ℚ) : K :=
  let source_idx := ⌊idx⌋₊
  let virtual_offset_idx := (idx - source_idx) * kKernelOffsetCount
  let offset_idx := ⌊virtual_offset_idx⌋₊
  convolve (fun i => input (source_idx + i)) (fun i => kernel (offset_idx * kKernelSize + i))
    (fun i => kernel (offset_idx * kKernelSize + kKernelSize + i)) (virtual_offset_idx - offset_idx)

def frame (R : SincResampler K) : K :=
  frameAt R.kernel_storage_ (fun b => R.input_buffer_.getD b 0) R.virtual_source_idx_

/-- The virtual index after `m` frames. -/
def advance (R : SincResampler K) (m : ℕ) : SincResampler K :=
  { R with virtual_source_idx_ := R.virtual_source_idx_ + m * R.io_sample_rate_ratio_ }

/-- The start of the inner loop's counter, which runs down to zero. -/
def count (R : SincResampler K) : ℕ :=
  ⌈((R.blockSize : ℚ) - R.virtual_source_idx_) / R.io_sample_rate_ratio_⌉.toNat

/-- The inner loop from counter `i`: the frames, those that remain, and the
resampler. It returns when none remain. -/
def forLoop : ℕ → ℕ → SincResampler K → List K × ℕ × SincResampler K
  | 0, remaining_frames, R => ([], remaining_frames, R)
  | _ + 1, 0, R => ([], 0, R)
  | i + 1, remaining_frames + 1, R =>
    if remaining_frames = 0 then ([R.frame], 0, R.advance 1)
    else
      let rest := forLoop i remaining_frames (R.advance 1)
      (R.frame :: rest.1, rest.2)

/-- Steps 3 and 4: the index wraps, the last input frames go to the start, and
the regions are those of a second load from then on. -/
def wrap (R : SincResampler K) : SincResampler K :=
  { R with
    virtual_source_idx_ := R.virtual_source_idx_ - R.blockSize
    input_buffer_ := (R.input_buffer_.drop R.r3).take kKernelSize ++
      R.input_buffer_.drop kKernelSize
    second_load := if R.r0 = kKernelSize / 2 then true else R.second_load }

/-- `Run` has written `frames` to `r0_`. -/
def load (R : SincResampler K) (frames : List K) : SincResampler K :=
  { R with
    input_buffer_ := R.input_buffer_.take R.r0 ++ frames ++
      R.input_buffer_.drop (R.r0 + R.request_frames_) }

/-- The closed form of the inner loop. -/
theorem forLoop_eq : ∀ (i n : ℕ) (R : SincResampler K),
    forLoop i n R = ((List.range (min i n)).map fun j => (R.advance j).frame, n - i,
      R.advance (min i n))
  | 0, n, R => by simp [forLoop, advance]
  | i + 1, 0, R => by simp [forLoop, advance]
  | i + 1, n + 1, R => by
    have hadv : ∀ j, (R.advance 1).advance j = R.advance (j + 1) := by
      intro j
      simp only [advance, Nat.cast_add, Nat.cast_one]
      congr 1
      ring
    have hzero : R.advance 0 = R := by simp [advance]
    unfold forLoop
    by_cases hn : n = 0
    · simp [hn, hzero]
    · rw [if_neg hn, forLoop_eq i n]
      simp only [hadv, Nat.succ_min_succ, List.range_succ_eq_map, List.map_cons,
        List.map_map, hzero, Nat.add_sub_add_right]
      rfl

omit [Field K] in
theorem blockSize_pos (R : SincResampler K) : 1 ≤ R.blockSize := by
  have := R.block_large
  unfold blockSize
  simp only [kKernelSize] at this ⊢
  omega

omit [Field K] in
/-- The counter starts at zero only where the index has passed the block. -/
theorem blockSize_le_of_count {R : SincResampler K} (h : R.count = 0) :
    (R.blockSize : ℚ) ≤ R.virtual_source_idx_ := by
  rw [count, Int.toNat_eq_zero, Int.ceil_le, Int.cast_zero, div_le_iff₀ R.ratio_pos, zero_mul]
    at h
  linarith

omit [Field K] in
/-- What makes the outer loop end: a turn hands out a frame, or the index is
smaller by a block. -/
theorem turn_decreases {R : SincResampler K} {n : ℕ} (hn : n ≠ 0) (frames : List K) :
    Prod.Lex (· < ·) (· < ·)
      (n - R.count, ⌊((R.advance (min R.count n)).wrap.load frames).virtual_source_idx_⌋₊)
      (n, ⌊R.virtual_source_idx_⌋₊) := by
  by_cases hc : R.count = 0
  · have hv : R.blockSize ≤ ⌊R.virtual_source_idx_⌋₊ :=
      Nat.le_floor (blockSize_le_of_count hc)
    have hb := R.blockSize_pos
    simp only [hc, Nat.zero_min, Nat.sub_zero]
    apply Prod.Lex.right
    simp only [load, wrap, blockSize, r0, advance, Nat.cast_zero, zero_mul, add_zero]
    rw [Nat.floor_sub_natCast]
    unfold blockSize r0 at hv hb
    omega
  · apply Prod.Lex.left
    omega

/-- The outer loop. -/
def whileLoop (cb : SincResamplerCallback σ K) (R : SincResampler K) (s : σ)
    (remaining_frames : ℕ) : Option (List K × SincResampler K × σ) :=
  if _hn : remaining_frames = 0 then some ([], R, s)
  else
    let r := forLoop R.count remaining_frames R
    if r.2.1 = 0 then some (r.1, r.2.2, s)
    else
      match cb.Run s R.request_frames_ with
      | none => none
      | some (frames, s') =>
        (whileLoop cb (r.2.2.wrap.load frames) s' r.2.1).map fun rest => (r.1 ++ rest.1, rest.2)
termination_by (remaining_frames, ⌊R.virtual_source_idx_⌋₊)
decreasing_by
  rw [forLoop_eq]
  exact turn_decreases _hn _

/-- `Resample`: the first call of all primes the buffer. -/
def resample (cb : SincResamplerCallback σ K) (R : SincResampler K) (s : σ) (frames : ℕ) :
    Option (List K × SincResampler K × σ) :=
  if R.buffer_primed_ = false ∧ frames ≠ 0 then
    match cb.Run s R.request_frames_ with
    | none => none
    | some (primer, s') => whileLoop cb { R.load primer with buffer_primed_ := true } s' frames
  else whileLoop cb R s frames

/-! ### The two ways through a turn -/

variable (cb : SincResamplerCallback σ K)

theorem whileLoop_within {R : SincResampler K} {n : ℕ} (s : σ) (h : n ≤ R.count) :
    R.whileLoop cb s n = some ((List.range n).map fun j => (R.advance j).frame,
      R.advance n, s) := by
  rw [whileLoop]
  by_cases hn : n = 0
  · simp [hn, advance]
  · rw [dif_neg hn, forLoop_eq, Nat.min_eq_right h, Nat.sub_eq_zero_of_le h]
    rfl

/-- Any other call uses the block up, asks for one more and goes on. -/
theorem whileLoop_refill {R : SincResampler K} {n : ℕ} {s s' : σ} {frames : List K}
    (h : R.count < n) (hrun : cb.Run s R.request_frames_ = some (frames, s')) :
    R.whileLoop cb s n =
      (((R.advance R.count).wrap.load frames).whileLoop cb s' (n - R.count)).map fun rest =>
        (((List.range R.count).map fun j => (R.advance j).frame) ++ rest.1, rest.2) := by
  rw [whileLoop, dif_neg (by omega), forLoop_eq, Nat.min_eq_left h.le]
  dsimp only
  rw [if_neg (by omega), hrun]

/-! ### Where the buffer stands in the input -/

/-- The input with half a kernel of zeros in front. -/
def padded (x : ℕ → K) (i : ℕ) : K :=
  if i < kKernelSize / 2 then 0 else x (i - kKernelSize / 2)

/-- The output frame at position `p` of the padded input: two convolutions with
neighbouring kernels, interpolated. -/
def interpolation (kernel x : ℕ → K) (p : ℚ) : K :=
  let offset := (p - ⌊p⌋₊) * kKernelOffsetCount
  let weight := offset - ⌊offset⌋₊
  ((1 - weight : ℚ) : K) *
      ∑ i ∈ Finset.range kKernelSize, padded x (⌊p⌋₊ + i) *
        kernel (⌊offset⌋₊ * kKernelSize + i) +
    (weight : K) *
      ∑ i ∈ Finset.range kKernelSize, padded x (⌊p⌋₊ + i) *
        kernel ((⌊offset⌋₊ + 1) * kKernelSize + i)

theorem convolve_eq (input k1 k2 : ℕ → K) (w : ℚ) :
    convolve input k1 k2 w =
      ((1 - w : ℚ) : K) * ∑ i ∈ Finset.range kKernelSize, input i * k1 i +
        (w : K) * ∑ i ∈ Finset.range kKernelSize, input i * k2 i := by
  have sums : ∀ n, (List.range n).foldl (fun s i => (s.1 + input i * k1 i, s.2 + input i * k2 i))
    ((0, 0) : K × K) =
      (∑ i ∈ Finset.range n, input i * k1 i, ∑ i ∈ Finset.range n, input i * k2 i) := by
    intro n
    induction n with
    | zero => rfl
    | succ n ih =>
      rw [List.range_succ, List.foldl_append, ih, Finset.sum_range_succ, Finset.sum_range_succ]; rfl
  rw [convolve, sums]

/-- The buffer of a primed resampler after `s` input frames: from its start to
the end of what was loaded last it is the padded input from `base` on, and the
virtual index is the position `p`, counted from there. -/
structure Tracks (x : ℕ → K) (R : SincResampler K) (s : ℕ) (p : ℚ) (base : ℕ) : Prop where
  primed : R.buffer_primed_ = true
  size : R.input_buffer_.length = R.request_frames_ + kKernelSize
  held : ∀ b < R.r0 + R.request_frames_, R.input_buffer_.getD b 0 = padded x (base + b)
  reach : base + (R.r0 + R.request_frames_) = s + kKernelSize / 2
  nonneg : 0 ≤ R.virtual_source_idx_
  position : R.virtual_source_idx_ + base = p

omit [Field K] in
theorem blockSize_add (R : SincResampler K) :
    R.blockSize + kKernelSize = R.r0 + R.request_frames_ := by
  have := R.block_large
  unfold blockSize
  simp only [kKernelSize] at this ⊢
  omega

omit [Field K] in
theorem r0_le (R : SincResampler K) : R.r0 ≤ kKernelSize := by
  unfold r0
  split <;> simp [kKernelSize]

omit [Field K] in
theorem wrap_r0 (R : SincResampler K) : R.wrap.r0 = kKernelSize := by
  cases h : R.second_load <;> simp [wrap, r0, h, kKernelSize]

variable {cb} {x : ℕ → K} {R : SincResampler K} {s base : ℕ} {p : ℚ}

namespace Tracks

/-- How many frames are left in the block, in terms of the input alone. -/
theorem count_eq (h : Tracks x R s p base) :
    R.count = ⌈((s : ℚ) - kKernelSize / 2 - p) / R.io_sample_rate_ratio_⌉.toNat := by
  have hb : (R.blockSize : ℚ) + kKernelSize = R.r0 + R.request_frames_ := by
    exact_mod_cast R.blockSize_add
  have hr : (base : ℚ) + (R.r0 + R.request_frames_) = s + (kKernelSize / 2 : ℕ) := by
    exact_mod_cast h.reach
  have hp := h.position
  rw [count]
  congr 3
  simp only [kKernelSize, Nat.cast_ofNat] at hb hr ⊢
  linarith

theorem advance (h : Tracks x R s p base) (m : ℕ) :
    Tracks x (R.advance m) s (p + m * R.io_sample_rate_ratio_) base where
  primed := h.primed
  size := h.size
  held := h.held
  reach := h.reach
  nonneg := add_nonneg h.nonneg (mul_nonneg m.cast_nonneg R.ratio_pos.le)
  position := by
    rw [← h.position, SincResampler.advance]
    ring

/-- A frame before the end of the block is the one at its position of the input. -/
theorem frame (h : Tracks x R s p base) (hv : R.virtual_source_idx_ < R.blockSize) :
    R.frame = interpolation R.kernel_storage_ x p := by
  have hfloor : ⌊p⌋₊ = ⌊R.virtual_source_idx_⌋₊ + base := by
    rw [← h.position, Nat.floor_add_natCast h.nonneg]
  have hrem : p - ⌊p⌋₊ = R.virtual_source_idx_ - ⌊R.virtual_source_idx_⌋₊ := by
    rw [hfloor, ← h.position, Nat.cast_add]
    ring
  have hidx : ⌊R.virtual_source_idx_⌋₊ < R.blockSize := (Nat.floor_lt h.nonneg).mpr hv
  have hinput : ∀ i ∈ Finset.range kKernelSize,
      R.input_buffer_.getD (⌊R.virtual_source_idx_⌋₊ + i) 0 = padded x (⌊p⌋₊ + i) := by
    intro i hi
    have hi := Finset.mem_range.mp hi
    have hb := R.blockSize_add
    rw [h.held _ (by omega), hfloor]
    congr 1
    omega
  rw [SincResampler.frame, frameAt, convolve_eq, interpolation, hrem, Nat.succ_mul]
  congr 2 <;> exact Finset.sum_congr rfl fun i hi => by rw [hinput i hi]

theorem frames (h : Tracks x R s p base) {n : ℕ} (hn : n ≤ R.count) :
    ((List.range n).map fun j => (R.advance j).frame) =
      (List.range n).map fun j : ℕ => interpolation R.kernel_storage_ x
        (p + j * R.io_sample_rate_ratio_) := by
  apply List.map_congr_left
  intro j hj
  have hj : j < R.count := by
    have := List.mem_range.mp hj
    omega
  apply (h.advance j).frame
  rw [count, Int.lt_toNat, Int.lt_ceil, lt_div_iff₀ R.ratio_pos, Int.cast_natCast] at hj
  show R.virtual_source_idx_ + j * R.io_sample_rate_ratio_ < (R.blockSize : ℚ)
  linarith

omit [Field K] in
/-- The block is used up after as many frames as the counter starts from. -/
theorem used_up (R : SincResampler K) :
    (R.blockSize : ℚ) ≤ (R.advance R.count).virtual_source_idx_ := by
  have hc : ((R.blockSize : ℚ) - R.virtual_source_idx_) / R.io_sample_rate_ratio_ ≤
      R.count := by
    calc ((R.blockSize : ℚ) - R.virtual_source_idx_) / R.io_sample_rate_ratio_
        ≤ (⌈((R.blockSize : ℚ) - R.virtual_source_idx_) / R.io_sample_rate_ratio_⌉ : ℤ) :=
          Int.le_ceil _
      _ ≤ ((R.count : ℤ) : ℚ) := Int.cast_le.mpr (Int.self_le_toNat _)
      _ = R.count := Int.cast_natCast _
  rw [div_le_iff₀ R.ratio_pos] at hc
  show (R.blockSize : ℚ) ≤ R.virtual_source_idx_ + R.count * R.io_sample_rate_ratio_
  linarith

/-- Once the block is used up, the wrap and the next block leave the buffer at
the place where the block ended. -/
theorem refill (h : Tracks x R s p base) (hv : (R.blockSize : ℚ) ≤ R.virtual_source_idx_) :
    Tracks x (R.wrap.load ((List.range R.request_frames_).map fun i => x (s + i)))
      (s + R.request_frames_) p
      (base + R.blockSize) := by
  have hadd := R.blockSize_add
  have hr3 : R.r3 = R.blockSize := by
    rw [r3]
    omega
  have hr0 := R.wrap_r0
  have hsize := h.size
  have hreach := h.reach
  have hle := R.r0_le
  have hcopied : ((R.input_buffer_.drop R.r3).take kKernelSize).length = kKernelSize := by
    rw [List.length_take, List.length_drop]
    omega
  have hbuffer : (R.wrap.load ((List.range R.request_frames_).map fun i =>
    x (s + i))).input_buffer_ =
      (R.input_buffer_.drop R.r3).take kKernelSize ++ (List.range R.request_frames_).map fun i =>
        x (s + i) := by
    have hrest : R.wrap.input_buffer_.drop (kKernelSize + R.request_frames_) = [] := by
      apply List.drop_eq_nil_of_le
      simp only [wrap, List.length_append, List.length_drop, hcopied]
      omega
    have hkept : R.wrap.input_buffer_.take kKernelSize =
        (R.input_buffer_.drop R.r3).take kKernelSize := by
      rw [wrap, List.take_append_of_le_length hcopied.ge, List.take_of_length_le hcopied.le]
    show R.wrap.input_buffer_.take R.wrap.r0 ++ _ ++
      R.wrap.input_buffer_.drop (R.wrap.r0 + R.request_frames_) = _
    rw [hr0, hkept, hrest, List.append_nil]
  have hr0' : (R.wrap.load ((List.range R.request_frames_).map fun i => x (s + i))).r0 =
    kKernelSize := hr0
  constructor
  case primed => exact h.primed
  case size =>
    rw [hbuffer, List.length_append, hcopied, List.length_map, List.length_range, Nat.add_comm]
    rfl
  case reach =>
    rw [hr0']
    show base + R.blockSize + (kKernelSize + R.request_frames_) =
      s + R.request_frames_ + kKernelSize / 2
    omega
  case nonneg => exact sub_nonneg.mpr hv
  case position =>
    rw [← h.position]
    show R.virtual_source_idx_ - R.blockSize + ((base + R.blockSize : ℕ) : ℚ) = _
    rw [Nat.cast_add]
    ring
  case held =>
    intro b hb
    rw [hr0'] at hb
    change b < kKernelSize + R.request_frames_ at hb
    rw [hbuffer]
    by_cases hk : b < kKernelSize
    · -- a frame that was copied from the end of the block
      rw [List.getD_append _ _ _ _ (by omega), List.getD_eq_getElem?_getD,
        List.getElem?_take_of_lt hk, List.getElem?_drop, ← List.getD_eq_getElem?_getD,
        h.held _ (by omega), hr3, Nat.add_assoc]
    · -- a frame of the new block
      rw [List.getD_append_right _ _ _ _ (by omega), hcopied, List.getD_eq_getElem?_getD,
        List.getElem?_map, List.getElem?_range (by omega), Option.map_some,
        Option.getD_some, padded, if_neg (by omega)]
      congr 1
      omega

theorem turn (h : Tracks x R s p base) :
    Tracks x ((R.advance R.count).wrap.load ((List.range R.request_frames_).map fun i => x (s + i)))
      (s + R.request_frames_) (p + R.count * R.io_sample_rate_ratio_) (base + R.blockSize) :=
  (h.advance R.count).refill (used_up R)

end Tracks

/-! ### Runs -/

/-- A callback that reads the input `x` from frame `s` on. -/
def ofInput (x : ℕ → K) : SincResamplerCallback ℕ K where
  Run s n := some ((List.range n).map fun i => x (s + i), s + n)
  length_run h := by
    cases h
    simp

theorem positions_split {β : Type} (f : ℚ → β) (p ratio : ℚ) {m n : ℕ} (h : m ≤ n) :
    ((List.range n).map fun j : ℕ => f (p + j * ratio)) =
      ((List.range m).map fun j : ℕ => f (p + j * ratio)) ++
        (List.range (n - m)).map fun j : ℕ => f (p + m * ratio + j * ratio) := by
  obtain ⟨k, rfl⟩ := Nat.exists_eq_add_of_le h
  rw [List.range_add, List.map_append, List.map_map, Nat.add_sub_cancel_left]
  congr 1
  apply List.map_congr_left
  intro j _
  simp only [Function.comp_apply, Nat.cast_add]
  congr 1
  ring

theorem position_split (p ratio : ℚ) {m n : ℕ} (h : m ≤ n) :
    p + n * ratio = p + m * ratio + (n - m : ℕ) * ratio := by
  rw [Nat.cast_sub h]
  ring

/-- The outer loop hands out the frames at the positions that follow, whatever it
has to ask for. -/
theorem whileLoop_ofInput {R : SincResampler K} {s base : ℕ} {p : ℚ} (h : Tracks x R s p base)
    (n : ℕ) :
    ∃ R' s' base', R.whileLoop (ofInput x) s n =
        some ((List.range n).map fun j : ℕ =>
          interpolation R.kernel_storage_ x (p + j * R.io_sample_rate_ratio_), R', s') ∧
      Tracks x R' s' (p + n * R.io_sample_rate_ratio_) base' ∧
      R'.kernel_storage_ = R.kernel_storage_ ∧
      R'.io_sample_rate_ratio_ = R.io_sample_rate_ratio_ := by
  by_cases hn : n ≤ R.count
  · refine ⟨R.advance n, s, base, ?_, h.advance n, rfl, rfl⟩
    rw [whileLoop_within _ _ hn, h.frames hn]
  · have hn := Nat.lt_of_not_le hn
    obtain ⟨R', s', base', hrun, hR, hk, hratio⟩ := whileLoop_ofInput h.turn (n - R.count)
    refine ⟨R', s', base', ?_, ?_, hk, hratio⟩
    · rw [whileLoop_refill (ofInput x) hn rfl, hrun, Option.map_some, h.frames le_rfl,
        positions_split (interpolation R.kernel_storage_ x) p _ hn.le]
      rfl
    · rw [position_split p _ hn.le]
      exact hR
termination_by (n, ⌊R.virtual_source_idx_⌋₊)
decreasing_by
  have hmin : min R.count n = R.count := Nat.min_eq_left hn.le
  have := @turn_decreases _ R n (by omega) ((List.range R.request_frames_).map fun i => x (s + i))
  rw [hmin] at this
  exact this

/-- What `Flush` leaves. -/
structure Flushed (R : SincResampler K) : Prop where
  idx : R.virtual_source_idx_ = 0
  unprimed : R.buffer_primed_ = false
  zeros : R.input_buffer_ = List.replicate (R.request_frames_ + kKernelSize) 0
  first_load : R.second_load = false

theorem flushed_flush (R : SincResampler K) : Flushed R.flush := ⟨rfl, rfl, rfl, rfl⟩

/-- A resampler after `s` input frames, at position `p`: nothing has been read,
or the buffer stands in the input. -/
inductive Follows (x : ℕ → K) (R : SincResampler K) : ℕ → ℚ → Prop
  | fresh (h : Flushed R) : Follows x R 0 0
  | primed {s : ℕ} {p : ℚ} {base : ℕ} (h : Tracks x R s p base) : Follows x R s p

theorem tracks_primer (h : Flushed R) :
    Tracks x { R.load ((List.range R.request_frames_).map x) with buffer_primed_ := true }
      R.request_frames_ 0 0 := by
  have hr0 : R.r0 = kKernelSize / 2 := by simp [r0, h.first_load]
  have hbuffer : (R.load ((List.range R.request_frames_).map x)).input_buffer_ =
      List.replicate (kKernelSize / 2) 0 ++ (List.range R.request_frames_).map x ++
        List.replicate (kKernelSize / 2) 0 := by
    simp only [load, hr0, h.zeros, List.take_replicate, List.drop_replicate, kKernelSize]
    congr 2
    · omega
  constructor
  case primed => rfl
  case size =>
    show (R.load _).input_buffer_.length = R.request_frames_ + kKernelSize
    rw [hbuffer]
    simp only [List.length_append, List.length_replicate, List.length_map, List.length_range,
      kKernelSize]
    omega
  case reach =>
    show 0 + (R.r0 + R.request_frames_) = _
    omega
  case nonneg => exact h.idx.ge
  case position =>
    show R.virtual_source_idx_ + ((0 : ℕ) : ℚ) = 0
    rw [h.idx, Nat.cast_zero, add_zero]
  case held =>
    intro b hb
    change b < R.r0 + R.request_frames_ at hb
    show (R.load _).input_buffer_.getD b 0 = _
    rw [hbuffer, Nat.zero_add, padded]
    by_cases hk : b < kKernelSize / 2
    · rw [if_pos hk, List.append_assoc, List.getD_append _ _ _ _ (by rwa [List.length_replicate]),
        List.getD_replicate _ hk]
    · have hlength : (List.replicate (kKernelSize / 2) 0 ++
        (List.range R.request_frames_).map x).length =
          R.r0 + R.request_frames_ := by
        rw [List.length_append, List.length_replicate, List.length_map, List.length_range, hr0]
      rw [if_neg hk, List.getD_append _ _ _ _ (hlength ▸ hb),
        List.getD_append_right _ _ _ _ (by rw [List.length_replicate]; omega),
        List.length_replicate, List.getD_eq_getElem?_getD, List.getElem?_map,
        List.getElem?_range (by omega)]
      rfl

theorem resample_ofInput (h : Follows x R s p) (n : ℕ) :
    ∃ R' s', R.resample (ofInput x) s n =
        some ((List.range n).map fun j : ℕ =>
          interpolation R.kernel_storage_ x (p + j * R.io_sample_rate_ratio_), R', s') ∧
      Follows x R' s' (p + n * R.io_sample_rate_ratio_) ∧
      R'.kernel_storage_ = R.kernel_storage_ ∧
      R'.io_sample_rate_ratio_ = R.io_sample_rate_ratio_ := by
  cases h with
  | primed h =>
    rw [resample, if_neg (by simp [h.primed])]
    obtain ⟨R', s', base', hrun, hR, hkept⟩ := whileLoop_ofInput h n
    exact ⟨R', s', hrun, .primed hR, hkept⟩
  | fresh h =>
    by_cases hn : n = 0
    · -- a call for nothing does not prime the buffer
      refine ⟨R, 0, ?_, ?_, rfl, rfl⟩
      · rw [hn, resample, if_neg (by simp), whileLoop, dif_pos rfl]
        rfl
      · rw [hn, Nat.cast_zero, zero_mul, add_zero]
        exact .fresh h
    · rw [resample, if_pos ⟨h.unprimed, hn⟩]
      obtain ⟨R', s', base', hrun, hR, hkept⟩ := whileLoop_ofInput (tracks_primer (x := x) h) n
      refine ⟨R', s', ?_, .primed hR, hkept⟩
      simp only [ofInput, Nat.zero_add]
      exact hrun

/-- A call of the owner. -/
inductive Call
  | resample (frames : ℕ)
  | setRatio (io_sample_rate_ratio : ℚ) (hr : 0 < io_sample_rate_ratio)

/-- One call: the frames it hands out, and the resampler and callback after it. -/
def Call.run (kernel : ℚ → ℕ → K) (cb : SincResamplerCallback σ K) (R : SincResampler K)
    (s : σ) :
    Call → Option (List K × SincResampler K × σ)
  | .resample n => R.resample cb s n
  | .setRatio r hr => some ([], R.setRatio kernel r hr, s)

/-- The frames of a sequence of calls, one after the other. -/
def outputs (kernel : ℚ → ℕ → K) (cb : SincResamplerCallback σ K) :
    SincResampler K → σ → List Call → Option (List K)
  | _, _, [] => some []
  | R, s, call :: calls =>
    match call.run kernel cb R s with
    | none => none
    | some (frames, R', s') => (outputs kernel cb R' s' calls).map (frames ++ ·)

/-- The ratio and the position of each frame of a call that starts with `ratio`
at `p`, and the two after it. -/
def Call.schedule (ratio p : ℚ) : Call → List (ℚ × ℚ) × ℚ × ℚ
  | .resample n => ((List.range n).map fun j : ℕ => (ratio, p + j * ratio), ratio, p + n * ratio)
  | .setRatio r _ => ([], if |ratio - r| < epsilon then ratio else r, p)

/-- The same for a sequence of calls. -/
def schedule : ℚ → ℚ → List Call → List (ℚ × ℚ)
  | _, _, [] => []
  | ratio, p, call :: calls =>
    let r := call.schedule ratio p
    r.1 ++ schedule r.2.1 r.2.2 calls

theorem run_ofInput {kernel : ℚ → ℕ → K} (h : Follows x R s p)
    (hk : R.kernel_storage_ = kernel R.io_sample_rate_ratio_) (call : Call) :
    ∃ R' s', call.run kernel (ofInput x) R s =
        some ((call.schedule R.io_sample_rate_ratio_ p).1.map fun q =>
          interpolation (kernel q.1) x q.2, R', s') ∧
      Follows x R' s' (call.schedule R.io_sample_rate_ratio_ p).2.2 ∧
      R'.kernel_storage_ = kernel R'.io_sample_rate_ratio_ ∧
      R'.io_sample_rate_ratio_ = (call.schedule R.io_sample_rate_ratio_ p).2.1 := by
  cases call with
  | resample n =>
    obtain ⟨R', s', hrun, hR, hk', hratio⟩ := resample_ofInput h n
    refine ⟨R', s', ?_, hR, by rw [hk', hratio, hk], hratio⟩
    rw [Call.run, hrun, Call.schedule, List.map_map, hk]
    rfl
  | setRatio r hr =>
    refine ⟨R.setRatio kernel r hr, s, rfl, ?_⟩
    rw [setRatio, Call.schedule]
    split
    · exact ⟨h, hk, rfl⟩
    · -- neither the buffer nor the virtual index changes
      refine ⟨?_, rfl, rfl⟩
      cases h with
      | fresh h => exact .fresh ⟨h.idx, h.unprimed, h.zeros, h.first_load⟩
      | primed h => exact .primed ⟨h.primed, h.size, h.held, h.reach, h.nonneg, h.position⟩

theorem outputs_ofInput (kernel : ℚ → ℕ → K) (x : ℕ → K) :
    ∀ (calls : List Call) (R : SincResampler K) (s : ℕ)
    (p : ℚ), Follows x R s p → R.kernel_storage_ = kernel R.io_sample_rate_ratio_ →
    outputs kernel (ofInput x) R s calls =
      some ((schedule R.io_sample_rate_ratio_ p calls).map fun q =>
        interpolation (kernel q.1) x q.2)
  | [], _, _, _, _, _ => rfl
  | call :: calls, R, s, p, h, hk => by
    obtain ⟨R', s', hrun, hR, hk', hratio⟩ := run_ofInput h hk call
    have ih := outputs_ofInput kernel x calls R' s' _ hR hk'
    rw [outputs, hrun]
    dsimp only
    rw [ih, schedule, hratio, Option.map_some, List.map_append]

/-- However the output is asked for, and with the ratio changed at any time, it
is the interpolated input at the positions that the ratios add up to. -/
theorem resample_exact (kernel : ℚ → ℕ → K) (x : ℕ → K) (ratio : ℚ)
    (request_frames : ℕ) (hr : 0 < ratio) (hb : kKernelSize < request_frames - kKernelSize / 2)
    (calls : List Call) :
    outputs kernel (ofInput x) (new kernel ratio request_frames hr hb) 0 calls =
      some ((schedule ratio 0 calls).map fun q => interpolation (kernel q.1) x q.2) :=
  outputs_ofInput kernel x calls _ 0 0 (.fresh (flushed_flush _)) rfl

theorem resample_exact_halved :
    outputs (fun _ i => (i : ℚ)) (ofInput fun i => (i : ℚ))
      (new (fun _ i => (i : ℚ)) 2 80 two_pos (by decide)) 0 [.resample 100, .resample 0,
        .setRatio (1 / 2) (by norm_num), .resample 7] =
      some ((schedule 2 0 [.resample 100, .resample 0, .setRatio (1 / 2) (by norm_num),
        .resample 7]).map fun q =>
        interpolation (fun i => (i : ℚ)) (fun i => (i : ℚ)) q.2) :=
  resample_exact _ _ 2 80 two_pos (by decide) _

end SincResampler

end AgcSpec
