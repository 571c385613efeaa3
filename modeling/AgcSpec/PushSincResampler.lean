/-
# The push resampler

`PushSincResampler` of `common_audio/resampler/push_sinc_resampler.cc` is the sinc
resampler for callers that have one block at a time, which is how `AudioBuffer`
uses it. It is its own callback: `Run` hands over the block of the call, and ends
the program when a call asks for a second one. The first call runs the resampler
once on a dummy block and drops what comes out.

As in `SincResampler` the positions are exact rationals and the samples elements
of a field. The source adds up its positions in `double`, and nothing is said
here about what their rounding does over a long stream.

* `push_one_block`: in exact arithmetic, with two destination frames or more,
  every `Resample` asks for one block, so that the check in `Run` holds for ever,
  and the output is the interpolated input behind a delay of at least half a
  kernel and less than a frame of the output more. With one destination frame the
  dummy pass asks for no frame, and the first call primes the buffer with the
  dummy block instead of its own.
-/
import AgcSpec.SincResampler

namespace AgcSpec

open SincResampler

/-! ### The source -/

/-- The part of a `PushSincResampler` that its `Run` works on. -/
structure PushSource (K : Type) where
  source_ptr_ : List K
  first_pass_ : Bool
  source_available_ : ℕ

/-- `PushSincResampler`. -/
structure PushSincResampler (K : Type) where
  resampler_ : SincResampler K
  destination_frames_ : ℕ
  source : PushSource K

namespace PushSincResampler

variable {K : Type} [Field K]

/-- The constructor. -/
def new (kernel : ℚ → ℕ → K) (source_frames destination_frames : ℕ)
    (hd : 0 < destination_frames) (hb : kKernelSize < source_frames - kKernelSize / 2) :
    PushSincResampler K where
  resampler_ := SincResampler.new kernel (source_frames / destination_frames) source_frames
    (div_pos (Nat.cast_pos.mpr (by omega)) (Nat.cast_pos.mpr hd)) hb
  destination_frames_ := destination_frames
  source := { source_ptr_ := [], first_pass_ := true, source_available_ := 0 }

/-- `Run`. The check at its start ends the program where it fails. -/
def run : SincResamplerCallback (PushSource K) K where
  Run P frames :=
    if P.source_available_ = frames then
      if P.first_pass_ then some (List.replicate frames 0, { P with first_pass_ := false })
      else
        some ((List.range frames).map fun i => P.source_ptr_.getD i 0,
          { P with source_available_ := P.source_available_ - frames })
    else none
  length_run h := by
    split at h
    · split at h <;> cases h <;> simp
    · cases h

/-- `Resample`. -/
def resample (P : PushSincResampler K) (source : List K) (destination_capacity : ℕ) :
    Option (List K × PushSincResampler K) :=
  if source.length = P.resampler_.request_frames_ ∧ P.destination_frames_ ≤ destination_capacity
    then
    let S : PushSource K :=
      { P.source with source_ptr_ := source, source_available_ := source.length }
    match
      if P.source.first_pass_ then P.resampler_.resample run S P.resampler_.chunkSize
      else some ([], P.resampler_, S) with
    | none => none
    | some (_, R, S) =>
      match R.resample run S P.destination_frames_ with
      | none => none
      | some (destination, R', S') =>
        some (destination, { P with resampler_ := R', source := { S' with source_ptr_ := [] } })
  else none

/-- The output of a sequence of calls. -/
def resampleAll (destination_capacity : ℕ) (P : PushSincResampler K) :
    List (List K) → Option (List (List K))
  | [] => some []
  | source :: sources =>
    match P.resample source destination_capacity with
    | none => none
    | some (destination, P') =>
      (resampleAll destination_capacity P' sources).map (destination :: ·)

/-- A call that the block covers only in part, with a ratio by which a block is
`n` frames: it asks for one block. -/
theorem whileLoop_one_block {x : ℕ → K} {R : SincResampler K} {s n base : ℕ} {p : ℚ}
    (h : Tracks x R s p base) {S : PushSource K} (hpass : S.first_pass_ = false)
    (havail : S.source_available_ = R.request_frames_)
    (hsource : ∀ i < R.request_frames_, S.source_ptr_.getD i 0 = x (s + i))
    (hn : n * R.io_sample_rate_ratio_ = R.request_frames_) (hp : p ≤ (s : ℚ) - kKernelSize / 2)
    (hcount : R.count < n) :
    ∃ R' base', R.whileLoop run S n =
        some ((List.range n).map fun j : ℕ =>
          interpolation R.kernel_storage_ x (p + j * R.io_sample_rate_ratio_), R',
          { S with source_available_ := 0 }) ∧
      Tracks x R' (s + R.request_frames_) (p + n * R.io_sample_rate_ratio_) base' ∧
      R'.kernel_storage_ = R.kernel_storage_ ∧
      R'.io_sample_rate_ratio_ = R.io_sample_rate_ratio_ ∧
      R'.request_frames_ = R.request_frames_ := by
  set block := (List.range R.request_frames_).map fun i => x (s + i) with hblock
  have hrun : run.Run S R.request_frames_ = some (block, { S with source_available_ := 0 }) := by
    have hread : ((List.range R.request_frames_).map fun i => S.source_ptr_.getD i 0) = block :=
      List.map_congr_left fun i hi => hsource i (List.mem_range.mp hi)
    simp only [run, havail, hpass, hread, if_true, Bool.false_eq_true, if_false, Nat.sub_self]
  have hnext := h.turn
  rw [← hblock] at hnext
  -- the next block has the frames that this one lacks
  have hrest : n - R.count ≤ ((R.advance R.count).wrap.load block).count := by
    have hr := R.ratio_pos
    have ha : 0 ≤ ((s : ℚ) - kKernelSize / 2 - p) / R.io_sample_rate_ratio_ :=
      div_nonneg (by linarith) hr.le
    have hshift : ((s + R.request_frames_ : ℕ) -
      (kKernelSize : ℚ) / 2 - (p + R.count * R.io_sample_rate_ratio_)) /
        R.io_sample_rate_ratio_ = ((s : ℚ) - kKernelSize / 2 - p) / R.io_sample_rate_ratio_ +
          (n - R.count : ℕ) := by
      rw [Nat.cast_sub hcount.le, Nat.cast_add, ← hn]
      field_simp
      ring
    rw [hnext.count_eq]
    show n - R.count ≤ ⌈(_ : ℚ) / R.io_sample_rate_ratio_⌉.toNat
    rw [hshift, Int.ceil_add_natCast]
    have := Int.ceil_nonneg ha
    omega
  refine ⟨((R.advance R.count).wrap.load block).advance (n - R.count), base + R.blockSize, ?_, ?_,
    rfl, rfl, rfl⟩
  · rw [whileLoop_refill run hcount hrun, whileLoop_within _ _ hrest, Option.map_some,
      h.frames le_rfl, hnext.frames hrest, positions_split (interpolation R.kernel_storage_ x) p
        _ hcount.le]
    rfl
  · rw [position_split p _ hcount.le]
    exact hnext.advance (n - R.count)

/-! The first call makes the dummy output as long as the dummy input allows. From
then on a call starts with less than a frame left in the buffer and ends so. -/

section

variable {n d : ℕ}

/-- The frames of the first pass. -/
def primed (n d : ℕ) : ℕ := ⌊((n : ℚ) - kKernelSize / 2) / (n / d)⌋₊

/-- The input of the resampler: the dummy block, then the sources. -/
def afterDummy (n : ℕ) (xs : List K) (i : ℕ) : K := if i < n then 0 else xs.getD (i - n) 0

theorem primed_le (hd : 2 ≤ d) (hb : kKernelSize < n - kKernelSize / 2) :
    (primed n d : ℚ) * (n / d) ≤ n - kKernelSize / 2 ∧
      (n : ℚ) - kKernelSize / 2 < (primed n d + 1) * (n / d) ∧
      primed n d ≠ 0 := by
  have hn : (49 : ℚ) ≤ n := by
    simp only [kKernelSize] at hb
    exact_mod_cast (by omega : 49 ≤ n)
  have hd' : (2 : ℚ) ≤ d := by exact_mod_cast hd
  have hr : (0 : ℚ) < n / d := by positivity
  have hk : (0 : ℚ) ≤ (n - kKernelSize / 2) / (n / d) := by
    apply div_nonneg _ hr.le
    simp only [kKernelSize, Nat.cast_ofNat]
    linarith
  refine ⟨(le_div_iff₀ hr).mp (Nat.floor_le hk), (div_lt_iff₀ hr).mp (Nat.lt_floor_add_one _),
    ?_⟩
  rw [primed, ← Nat.pos_iff_ne_zero, Nat.floor_pos, le_div_iff₀ hr, one_mul,
    div_le_iff₀ (by linarith)]
  simp only [kKernelSize, Nat.cast_ofNat]
  nlinarith

/-- The resampler after the first pass and `j` calls. -/
structure Placed (kernel : ℚ → ℕ → K) (n d : ℕ) (x : ℕ → K) (R : SincResampler K)
    (j : ℕ) : Prop where
  request : R.request_frames_ = n
  ratio : R.io_sample_rate_ratio_ = n / d
  kernel : R.kernel_storage_ = kernel (n / d)
  place : ∃ base, Tracks x R ((j + 1) * n) ((primed n d + j * d : ℕ) * (n / d)) base

/-- The output of call `j`. -/
def output (kernel : ℚ → ℕ → K) (n d : ℕ) (x : ℕ → K) (j : ℕ) : List K :=
  (List.range d).map fun i : ℕ => interpolation (kernel (n / d)) x
    ((primed n d + j * d + i : ℕ) * (n / d))

variable {kernel : ℚ → ℕ → K} {x : ℕ → K} {R : SincResampler K}
    {S : PushSource K} {j : ℕ}

/-- The second pass of a call, which is the only one after the first. -/
theorem Placed.resample (h : Placed kernel n d x R j) (hd : 2 ≤ d)
    (hb : kKernelSize < n - kKernelSize / 2) (hpass : S.first_pass_ = false)
    (havail : S.source_available_ = n)
    (hsource : ∀ i < n, S.source_ptr_.getD i 0 = x ((j + 1) * n + i)) :
    ∃ R', R.resample run S d =
      some (output kernel n d x j, R', { S with source_available_ := 0 }) ∧
      Placed kernel n d x R' (j + 1) := by
  obtain ⟨hrequest, hratio, hkernel, base, htracks⟩ := h
  obtain ⟨hle, hlt, -⟩ := primed_le hd hb
  have hd' : (0 : ℚ) < d := by exact_mod_cast (by omega : 0 < d)
  have hblock : (d : ℚ) * (n / d) = n := by field_simp
  have hr : (0 : ℚ) < n / d := hratio ▸ R.ratio_pos
  have hplace : (((j + 1) * n : ℕ) : ℚ) - kKernelSize / 2 -
    ((primed n d + j * d : ℕ) : ℚ) * (n / d) =
      n - kKernelSize / 2 - primed n d * (n / d) := by
    push_cast
    linear_combination (-(j : ℚ)) * hblock
  have hcount : R.count < d := by
    have : R.count ≤ 1 := by
      rw [htracks.count_eq, hplace, hratio, Int.toNat_le, Int.ceil_le, div_le_iff₀ hr]
      push_cast
      linarith
    omega
  obtain ⟨R', base', hrun, hR, hk, hio, hreq⟩ :=
    whileLoop_one_block htracks hpass (havail.trans hrequest.symm) (by rw [hrequest]; exact hsource)
      (by rw [hratio, hrequest, hblock]) (by linarith) hcount
  refine ⟨R', ?_, ⟨hreq.trans hrequest, hio.trans hratio, hk.trans hkernel, base', ?_⟩⟩
  · rw [SincResampler.resample, if_neg (by simp [htracks.primed]), hrun, output, hkernel, hratio]
    congr 3
    funext i
    congr 1
    push_cast
    ring
  · rw [hrequest, hratio] at hR
    convert hR using 1
    · ring
    · push_cast
      ring

theorem placed_first (hflushed : Flushed R) (hd : 2 ≤ d) (hb : kKernelSize < n - kKernelSize / 2)
    (hrequest : R.request_frames_ = n) (hratio : R.io_sample_rate_ratio_ = n / d)
    (hkernel : R.kernel_storage_ = kernel (n / d)) (hdummy : ∀ i < n, x i = 0)
    (hpass : S.first_pass_ = true) (havail : S.source_available_ = n) :
    ∃ out R', R.resample run S R.chunkSize = some (out, R', { S with first_pass_ := false }) ∧
      Placed kernel n d x R' 0 := by
  obtain ⟨hle, -, hpos⟩ := primed_le hd hb
  have hchunk : R.chunkSize = primed n d := by
    have hsize : R.blockSize + kKernelSize / 2 = n := by
      have := R.blockSize_add
      rw [r0, hflushed.first_load, hrequest] at this
      simp only [kKernelSize, Bool.false_eq_true, if_false] at this ⊢
      omega
    have hsize : (R.blockSize : ℚ) = n - kKernelSize / 2 := by
      rw [← hsize]
      simp only [kKernelSize]
      push_cast
      ring
    rw [chunkSize, primed, hratio, hsize]
  have hzeros : (List.replicate n 0 : List K) = (List.range n).map x := by
    symm
    rw [List.eq_replicate_iff]
    refine ⟨by simp, fun b hb => ?_⟩
    obtain ⟨i, hi, rfl⟩ := List.mem_map.mp hb
    exact hdummy i (List.mem_range.mp hi)
  have hprimer := tracks_primer (x := x) hflushed
  set R1 : SincResampler K :=
    { R.load ((List.range R.request_frames_).map x) with buffer_primed_ := true } with hR1
  have hcount : primed n d ≤ R1.count := by
    have ha : ((primed n d : ℤ) : ℚ) ≤ ((n : ℚ) - kKernelSize / 2 - 0) / (n / d) := by
      rw [sub_zero, Int.cast_natCast, le_div_iff₀ (hratio ▸ R.ratio_pos)]
      exact hle
    rw [hprimer.count_eq, hrequest]
    show primed n d ≤ ⌈(_ : ℚ) / R.io_sample_rate_ratio_⌉.toNat
    rw [hratio]
    have := Int.cast_le.mp (ha.trans (Int.le_ceil _))
    omega
  refine ⟨(List.range (primed n d)).map fun j => (R1.advance j).frame, R1.advance (primed n d),
    ?_, ⟨hrequest, hratio, hkernel, 0, ?_⟩⟩
  · rw [SincResampler.resample, if_pos ⟨hflushed.unprimed, by rw [hchunk]; exact hpos⟩]
    simp only [run, havail, hrequest, hpass, if_true, hzeros]
    rw [hrequest] at hR1
    rw [← hR1, hchunk, whileLoop_within _ _ hcount]
  · have hplace := hprimer.advance (primed n d)
    rw [hrequest, show R1.io_sample_rate_ratio_ = n / d from hratio, zero_add] at hplace
    simpa using hplace

/-- A push resampler after `j` calls. -/
inductive Ready (kernel : ℚ → ℕ → K) (n d : ℕ) (x : ℕ → K) (P : PushSincResampler K) :
    ℕ → Prop
  | first (hpass : P.source.first_pass_ = true) (hflushed : Flushed P.resampler_)
      (hrequest : P.resampler_.request_frames_ = n)
        (hratio : P.resampler_.io_sample_rate_ratio_ = n / d)
      (hkernel : P.resampler_.kernel_storage_ = kernel (n / d)) : Ready kernel n d x P 0
  | later {j : ℕ} (hpass : P.source.first_pass_ = false)
    (h : Placed kernel n d x P.resampler_ j) :
      Ready kernel n d x P j

theorem Ready.request {P : PushSincResampler K} (h : Ready kernel n d x P j) :
    P.resampler_.request_frames_ = n := by
  cases h with
  | first _ _ hrequest => exact hrequest
  | later _ h => exact h.request

theorem Ready.resample {P : PushSincResampler K} (h : Ready kernel n d x P j) (hd : 2 ≤ d)
    (hb : kKernelSize < n - kKernelSize / 2) (hdest : P.destination_frames_ = d)
    (hdummy : ∀ i < n, x i = 0) {source : List K} (hlength : source.length = n)
    (hsource : ∀ i < n, source.getD i 0 = x ((j + 1) * n + i)) {capacity : ℕ}
    (hcapacity : d ≤ capacity) :
    ∃ P', P.resample source capacity = some (output kernel n d x j, P') ∧
      Ready kernel n d x P' (j + 1) ∧
      P'.destination_frames_ = d := by
  set S : PushSource K :=
    { P.source with source_ptr_ := source, source_available_ := source.length } with hS
  -- after the pass that only the first call makes
  have hfirst : ∃ out R,
    (if P.source.first_pass_ then P.resampler_.resample run S P.resampler_.chunkSize
      else some ([], P.resampler_, S)) = some (out, R, { S with first_pass_ := false }) ∧
      Placed kernel n d x R j := by
    cases h with
    | first hpass hflushed hrequest hratio hkernel =>
      rw [if_pos hpass]
      exact placed_first hflushed hd hb hrequest hratio hkernel hdummy hpass hlength
    | later hpass h =>
      refine ⟨[], P.resampler_, ?_, h⟩
      rw [if_neg (by simp [hpass])]
      simp only [hS, hpass]
  obtain ⟨out, R, hpass, hR⟩ := hfirst
  obtain ⟨R', hrun, hR'⟩ :=
    hR.resample (S := { S with first_pass_ := false }) hd hb rfl hlength hsource
  refine ⟨{ P with
    resampler_ := R'
    source := { source_ptr_ := [], first_pass_ := false, source_available_ := 0 } }, ?_,
    .later rfl hR', hdest⟩
  rw [PushSincResampler.resample,
    if_pos ⟨hlength.trans h.request.symm, hdest.trans_le hcapacity⟩]
  simp only [← hS, hpass, hdest, hrun]

theorem Ready.resampleAll (hd : 2 ≤ d) (hb : kKernelSize < n - kKernelSize / 2)
    (hdummy : ∀ i < n, x i = 0) {capacity : ℕ} (hcapacity : d ≤ capacity) :
    ∀ (sources : List (List K)) (j : ℕ) (P : PushSincResampler K), Ready kernel n d x P j →
    P.destination_frames_ = d →
    (∀ source ∈ sources, source.length = n) →
    (∀ i, sources.flatten.getD i 0 = x ((j + 1) * n + i)) →
    P.resampleAll capacity sources = some ((List.range sources.length).map fun m =>
      output kernel n d x (j + m))
  | [], _, _, _, _, _, _ => rfl
  | source :: sources, j, P, hP, hdest, hlength, hx => by
    have hl : source.length = n := hlength source (by simp)
    have hsource : ∀ i < n, source.getD i 0 = x ((j + 1) * n + i) := by
      intro i hi
      rw [← hx i, List.flatten_cons, List.getD_append _ _ _ _ (by omega)]
    have hrest : ∀ i, sources.flatten.getD i 0 = x ((j + 1 + 1) * n + i) := by
      intro i
      have := hx (n + i)
      rw [List.flatten_cons, List.getD_append_right _ _ _ _ (by omega), hl, Nat.add_sub_cancel_left]
        at this
      rw [this]
      congr 1
      ring
    obtain ⟨P', hcall, hP', hdest'⟩ := hP.resample hd hb hdest hdummy hl hsource hcapacity
    have ih := Ready.resampleAll hd hb hdummy hcapacity sources (j + 1) P' hP' hdest'
      (fun b hb => hlength b (by simp [hb])) hrest
    simp only [PushSincResampler.resampleAll, hcall, ih, Option.map_some, List.length_cons,
      List.range_succ_eq_map, List.map_cons, List.map_map, Function.comp_def, Nat.add_zero,
      Nat.succ_eq_add_one, Nat.add_assoc, Nat.add_comm 1]

end

/-- In exact arithmetic every call asks for the block it was given and for no
other, and the output is the interpolated input behind a delay of half a kernel,
rounded up to a frame of the output. -/
theorem push_one_block (kernel : ℚ → ℕ → K) (n d : ℕ) (hd : 2 ≤ d)
    (hb : kKernelSize < n - kKernelSize / 2) :
    ∃ delay : ℚ, kKernelSize / 2 ≤ delay ∧ delay < kKernelSize / 2 + (n : ℚ) / d ∧
      ∀ (capacity : ℕ) (sources : List (List K)), d ≤ capacity →
        (∀ source ∈ sources, source.length = n) →
          (new kernel n d (two_pos.trans_le hd) hb).resampleAll capacity sources =
          some ((List.range sources.length).map fun m => (List.range d).map fun i : ℕ =>
            interpolation (kernel (n / d)) (afterDummy n sources.flatten)
              (n + (m * d + i : ℕ) * ((n : ℚ) / d) - delay)) := by
  obtain ⟨hle, hlt, -⟩ := primed_le hd hb
  refine ⟨n - primed n d * (n / d), by linarith, by linarith, ?_⟩
  intro capacity sources hcapacity hlength
  have hnew : Ready kernel n d (afterDummy n sources.flatten)
      (new kernel n d (two_pos.trans_le hd) hb) 0 :=
    .first rfl (flushed_flush _) rfl rfl rfl
  have hdummy : ∀ i < n, afterDummy n sources.flatten i = 0 := fun i hi => if_pos hi
  rw [hnew.resampleAll hd hb hdummy hcapacity sources 0 _ rfl hlength]
  · have hposition : ∀ m i : ℕ, ((primed n d + (0 + m) * d + i : ℕ) : ℚ) * (n / d) =
        n + (m * d + i : ℕ) * ((n : ℚ) / d) - (n - primed n d * (n / d)) := by
      intro m i
      push_cast
      ring
    simp only [output, hposition]
  · intro i
    simp [afterDummy]

theorem push_one_block_halved :
    ∃ delay : ℚ, kKernelSize / 2 ≤ delay ∧
      delay < kKernelSize / 2 + ((80 : ℕ) : ℚ) / (40 : ℕ) ∧
    (new (fun _ i => (i : ℚ)) 80 40 (by decide) (by decide)).resampleAll 40
      [List.replicate 80 1, List.replicate 80 2] =
      some ((List.range 2).map fun m => (List.range 40).map fun i : ℕ =>
        interpolation (fun i => (i : ℚ))
          (afterDummy 80 [List.replicate 80 1, List.replicate 80 2].flatten)
          (((80 : ℕ) : ℚ) + (m * 40 + i : ℕ) *
            (((80 : ℕ) : ℚ) / (40 : ℕ)) - delay)) := by
  obtain ⟨delay, hmin, hmax, hcalls⟩ :=
    push_one_block (fun _ i => (i : ℚ)) 80 40 (by decide) (by decide)
  exact ⟨delay, hmin, hmax, hcalls 40 [List.replicate 80 1, List.replicate 80 2] le_rfl
    (by simp)⟩

end PushSincResampler
end AgcSpec
