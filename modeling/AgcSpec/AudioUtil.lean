/-
# Samples and mixing

`common_audio/audio_util.h`: interleaved samples to channels, and channels to
one, for `int16_t`. A sample carries its range, so what is read from a buffer
of samples needs no hypothesis. The sum of `DownmixToMono` is a 32-bit one;
for up to 65536 channels it is exact, and the result is the average of the
channels, rounded towards zero (`downmixToMono_eq`).
-/
import AgcSpec.Lib.Checked

namespace AgcSpec

open FixedPoint

/-- An `int16_t`. -/
abbrev Sample : Type := {x : Int // InI16 x}

namespace Sample

instance : Zero Sample := ⟨⟨0, by decide⟩⟩

/-- A conversion to `int16_t`. -/
def cast (x : Int) : Sample := ⟨i16 x, inI16_i16 x⟩

/-- `WebRtcSpl_SatW32ToW16`. -/
def sat (x : Int) : Sample := ⟨sat16 x, inI16_sat16 x⟩

end Sample

/-- `Deinterleave`, channel `i`. -/
def deinterleave (interleaved : List Sample) (samples_per_channel num_channels i : ℕ) :
    List Sample :=
  (List.range samples_per_channel).map fun j => interleaved.getD (i + j * num_channels) 0

/-- The sum and the division of a downmix, of the samples of one frame. -/
def mixFrame (frame : List Sample) : Chk Sample := do
  let value ← frame.tail.foldlM (fun (value : Int) (x : Sample) => ck32 (value + x.val))
    (frame.headD 0 : Sample).val
  let q ← flag (0 < frame.length) (value.tdiv frame.length)
  pure (Sample.cast q)

/-- `DownmixToMono<int16_t, int32_t>`. -/
def downmixToMono (input_channels : ℕ → List Sample) (num_frames num_channels : ℕ) :
    Chk (List Sample) :=
  (List.range num_frames).mapM fun i => mixFrame ((List.range num_channels).map fun j =>
    (input_channels j).getD i 0)

/-- `DownmixInterleavedToMono<int16_t>`. -/
def downmixInterleavedToMono (interleaved : List Sample) (num_frames num_channels : ℕ) :
    Chk (List Sample) :=
  (List.range num_frames).mapM fun i =>
    mixFrame ((interleaved.drop (i * num_channels)).take num_channels)

/-- `Interleave`: channel `i` goes to every `num_channels`-th place from `i` on. -/
def interleave (deinterleaved : ℕ → List Sample) (samples_per_channel num_channels : ℕ)
    (interleaved : List Sample) : List Sample :=
  (List.range num_channels).foldl (fun out i =>
    ((List.range samples_per_channel).foldl (fun (s : List Sample × ℕ) j =>
      (s.1.set s.2 ((deinterleaved i).getD j 0), s.2 + num_channels)) (out, i)).1) interleaved

/-- `interleaved[interleaved_idx++] = v`. -/
def writeNext (s : List Sample × Int) (v : Sample) : Chk (List Sample × Int) := do
  let out ← flag (0 ≤ s.2 ∧ s.2 < s.1.length) (s.1.set s.2.toNat v)
  let interleaved_idx ← ck32 (s.2 + 1)
  pure (out, interleaved_idx)

/-- `UpmixMonoToInterleaved`. Its index is an `int`. -/
def upmixMonoToInterleaved (mono : List Sample) (num_frames num_channels : ℕ)
    (interleaved : List Sample) : Chk (List Sample) := do
  let r ← (List.range num_frames).foldlM (fun s i =>
    (List.range num_channels).foldlM (fun s _ => writeNext s (mono.getD i 0)) s) (interleaved, 0)
  pure r.1

/-- `DownmixInterleavedToMonoImpl<int16_t, int32_t>`, from a pointer on to the end. -/
def downmixInterleavedToMonoImpl (num_channels : ℕ) : List Sample → Chk (List Sample)
  | [] => pure []
  | x :: interleaved => do
    let value ← (interleaved.take (num_channels - 1)).foldlM (fun (value : Int) (y : Sample) =>
      ck32 (value + y.val)) x.val
    let q ← flag (0 < num_channels) (value.tdiv num_channels)
    let out ← downmixInterleavedToMonoImpl num_channels (interleaved.drop (num_channels - 1))
    pure (Sample.cast q :: out)
termination_by interleaved => interleaved.length
decreasing_by simp

/-- The average of samples, rounded towards zero. -/
def mean (frame : List Sample) : Int := (frame.map Subtype.val).sum.tdiv frame.length

theorem sum_range : ∀ frame : List Sample,
    -2 ^ 15 * (frame.length : Int) ≤ (frame.map Subtype.val).sum ∧
      (frame.map Subtype.val).sum ≤ (2 ^ 15 - 1) * (frame.length : Int)
  | [] => by simp
  | x :: frame => by
    obtain ⟨h1, h2⟩ := sum_range frame
    obtain ⟨hx1, hx2⟩ := x.2
    simp only [List.map_cons, List.sum_cons, List.length_cons]
    push_cast
    constructor <;> linarith

theorem sum_loop : ∀ (done rest : List Sample), done.length + rest.length ≤ 65536 →
    rest.foldlM (fun (value : Int) (x : Sample) => ck32 (value + x.val))
      (done.map Subtype.val).sum = (pure ((done ++ rest).map Subtype.val).sum : Chk Int)
  | done, [], _ => by rw [List.append_nil]; rfl
  | done, x :: rest, hlen => by
    have hsum : (done.map Subtype.val).sum + x.1 = ((done ++ [x]).map Subtype.val).sum := by simp
    have hfits : InI32 (((done ++ [x]).map Subtype.val).sum) := by
      obtain ⟨h1, h2⟩ := sum_range (done ++ [x])
      simp only [List.length_append, List.length_cons, List.length_nil] at h1 h2 hlen
      unfold InI32
      omega
    rw [List.foldlM_cons, hsum, ck32_eq hfits, pure_bind,
      sum_loop (done ++ [x]) rest (by simp at hlen ⊢; omega), List.append_assoc,
      List.singleton_append]

theorem mean_range (frame : List Sample) (hpos : 0 < frame.length) : InI16 (mean frame) := by
  obtain ⟨h1, h2⟩ := sum_range frame
  have hn : (0 : Int) < frame.length := by exact_mod_cast hpos
  rw [mean, tdiv_eq]
  split
  · rename_i h0
    have hlt := Int.ediv_lt_of_lt_mul hn (show (frame.map Subtype.val).sum <
      2 ^ 15 * frame.length by linarith)
    have := Int.ediv_nonneg h0 hn.le
    exact ⟨by omega, hlt⟩
  · have hle := Int.ediv_le_of_le_mul hn (show -(frame.map Subtype.val).sum ≤
      2 ^ 15 * frame.length by linarith)
    have := Int.ediv_nonneg (show 0 ≤ -(frame.map Subtype.val).sum by omega) hn.le
    constructor <;> omega

theorem mixFrame_eq {frame : List Sample} (hpos : 0 < frame.length)
    (hlen : frame.length ≤ 65536) :
    mixFrame frame = pure ⟨mean frame, mean_range frame hpos⟩ := by
  cases frame with
  | nil => cases hpos
  | cons x rest =>
    have hsum := sum_loop [x] rest (by simpa [add_comm] using hlen)
    simp only [List.map_cons, List.map_nil, List.sum_cons, List.sum_nil, add_zero] at hsum
    rw [mixFrame, List.tail_cons, List.headD_cons, hsum, pure_bind, flag_eq hpos, pure_bind,
      Sample.cast]
    congr
    exact i16_of (mean_range (x :: rest) hpos)

theorem length_downmixToMono (input_channels : ℕ → List Sample)
    (num_frames num_channels : ℕ) :
    (downmixToMono input_channels num_frames num_channels).val.length = num_frames := by
  rw [downmixToMono, val_mapM, List.length_map, List.length_range]

/-- A downmix is exact, and gives the average of the channels. -/
theorem downmixToMono_eq (input_channels : ℕ → List Sample) (num_frames : ℕ)
    {num_channels : ℕ} (hpos : 0 < num_channels) (hmax : num_channels ≤ 65536) :
    ∃ out : List Sample, downmixToMono input_channels num_frames num_channels = pure out ∧
      out.map Subtype.val =
        (List.range num_frames).map fun i =>
          mean ((List.range num_channels).map fun j => (input_channels j).getD i 0) := by
  have hlen : ∀ i, ((List.range num_channels).map fun j => (input_channels j).getD i 0).length =
      num_channels :=
    fun i => by simp
  have hmix := mapM_eq_pure (List.range num_frames) fun i _ =>
    mixFrame_eq (by rw [hlen i]; exact hpos) (by rw [hlen i]; exact hmax)
  exact ⟨_, hmix, List.map_map⟩

end AgcSpec
