/-
# Writing a WAV file

`WavWriter` of `common_audio/wav_file.cc`. The constructor writes a blank
header, `Close` the real one over it. Where the source stores through an
uninitialised pointer, on purpose, to stop the program, the model has no
result. The file takes every byte it is given.

The constructor checks the parameters without a sample. The check that
`WriteWavHeader` makes in the end also depends on the number of samples; if it
fails, `Close` writes the 44 bytes of its buffer as they were on the stack.

* `close_valid_iff`: the closed file is one that `ReadWavHeader` accepts, with
  the samples that were written, exactly if their number is a multiple of the
  number of channels and the payload fits the 32-bit sizes of the header.
-/
import AgcSpec.WavReader

namespace AgcSpec
namespace Wav

open FixedPoint Bytes

/-! ### `WavWriter` -/

/-- The format and the sample width of the files that are written. -/
def kWavFormat : WavFormat := .kWavFormatPcm
def kBytesPerSample : ℕ := 2

/-- `WavWriter`, with the contents of its file. -/
structure WavWriter where
  sample_rate_ : Int
  num_channels_ : ℕ
  num_samples_ : ℕ
  file_handle_ : List UInt8

namespace WavWriter

/-- The constructor. -/
def new (sample_rate : Int) (num_channels : ℕ) : Option WavWriter :=
  if ¬ checkWavParameters num_channels sample_rate kWavFormat kBytesPerSample 0 then none
  else some ⟨sample_rate, num_channels, 0, List.replicate kWavHeaderSize 0⟩

/-- The bytes of 16-bit samples. -/
def sampleBytes (samples : List Int) : List UInt8 :=
  samples.flatMap fun x => toLE 2 (x % 2 ^ 16).toNat

/-- `WriteSamples`; the number of samples is a `size_t`. -/
def writeSamples (w : WavWriter) (samples : List Int) : Option WavWriter :=
  let num_samples := (w.num_samples_ + samples.length) % 2 ^ 64
  if num_samples < samples.length then none
  else some { w with
    num_samples_ := num_samples, file_handle_ := w.file_handle_ ++ sampleBytes samples }

/-- A sequence of calls of `WriteSamples`. -/
def writeAll (w : WavWriter) : List (List Int) → Option WavWriter
  | [] => some w
  | s :: ss => (w.writeSamples s).bind fun w => w.writeAll ss

/-- The header that `Close` writes; `buf` is its buffer as it was on the stack. -/
def closeHeader (w : WavWriter) (buf : List UInt8) : List UInt8 :=
  writeWavHeader buf w.num_channels_ w.sample_rate_ kWavFormat kBytesPerSample w.num_samples_

/-- `Close`: the contents of the closed file. -/
def close (w : WavWriter) (buf : List UInt8) : List UInt8 :=
  w.closeHeader buf ++ w.file_handle_.drop kWavHeaderSize

end WavWriter

/-- The number of samples in a sequence of calls. -/
def total (ss : List (List Int)) : ℕ := (ss.map List.length).sum

theorem total_cons (s : List Int) (ss : List (List Int)) :
    total (s :: ss) = s.length + total ss := by
  simp [total]

/-- As long as the number of samples stays in the range of a `size_t`, the
calls return, with every sample in the file. -/
theorem writeAll_eq (ss : List (List Int)) (w : WavWriter)
    (h : w.num_samples_ + total ss < 2 ^ 64) :
    w.writeAll ss = some { w with
      num_samples_ := w.num_samples_ + total ss
      file_handle_ := w.file_handle_ ++ WavWriter.sampleBytes ss.flatten } := by
  induction ss generalizing w with
  | nil => simp [WavWriter.writeAll, total, WavWriter.sampleBytes]
  | cons s ss ih =>
    rw [total_cons] at h ⊢
    have hw : w.writeSamples s = some { w with
        num_samples_ := w.num_samples_ + s.length
        file_handle_ := w.file_handle_ ++ WavWriter.sampleBytes s } := by
      unfold WavWriter.writeSamples
      dsimp only
      rw [Nat.mod_eq_of_lt (by omega), if_neg (by omega)]
    rw [WavWriter.writeAll, hw, Option.bind_some, ih _ (by dsimp only; omega)]
    simp [WavWriter.sampleBytes, Nat.add_assoc]

theorem writeAll_format {ss : List (List Int)} {w w' : WavWriter} (h : w.writeAll ss = some w') :
    w'.sample_rate_ = w.sample_rate_ ∧ w'.num_channels_ = w.num_channels_ := by
  induction ss generalizing w with
  | nil =>
    cases h
    exact ⟨rfl, rfl⟩
  | cons s ss ih =>
    rw [WavWriter.writeAll, Option.bind_eq_some_iff] at h
    obtain ⟨v, hv, h⟩ := h
    unfold WavWriter.writeSamples at hv
    dsimp only at hv
    split at hv
    · cases hv
    · cases hv
      obtain ⟨hrate, hch⟩ := ih h
      exact ⟨hrate, hch⟩

/-! ### Closed files -/

/-- The header of a closed file, where the check accepts its parameters. -/
theorem read_close {w : WavWriter} (hint : InI32 w.sample_rate_)
    (h : Accepted w.num_channels_ w.sample_rate_ kWavFormat kBytesPerSample w.num_samples_)
    {buf : List UInt8} (hbuf : buf.length = kWavHeaderSize) :
    readWavHeader (w.close buf) =
      ⟨true, some w.num_channels_, some w.sample_rate_, some kWavFormat, some kBytesPerSample,
        some w.num_samples_,
        w.file_handle_.drop kWavHeaderSize⟩ := by
  unfold WavWriter.close WavWriter.closeHeader writeWavHeader
  rw [if_neg (not_not.mpr (checkWavParameters_iff.mpr h)), List.drop_eq_nil_of_le hbuf.le,
    List.append_nil, readWavHeader_bytes (fits_headerOf _ _ _ _ _) rfl]
  exact parseHeader_headerOf h hint le_rfl kFmtSubchunkSize _

/-- Where it does not, the buffer itself is the header; a buffer of zeros is
not accepted. -/
theorem read_close_zeros {w : WavWriter}
    (h : ¬ Accepted w.num_channels_ w.sample_rate_ kWavFormat kBytesPerSample w.num_samples_) :
    (readWavHeader (w.close (List.replicate kWavHeaderSize 0))).ok = false := by
  unfold WavWriter.close WavWriter.closeHeader writeWavHeader
  rw [if_pos (fun hc => h (checkWavParameters_iff.mp hc))]
  unfold readWavHeader
  rw [show List.replicate kWavHeaderSize (0 : UInt8) ++ w.file_handle_.drop kWavHeaderSize =
    List.replicate (kWavHeaderSize - kChunkHeaderSize) 0 ++
      (List.replicate kChunkHeaderSize 0 ++ w.file_handle_.drop kWavHeaderSize) from rfl,
    readBytes_append List.length_replicate]
  rfl

/-- The constructor, the calls of `WriteSamples` and `Close` leave a file with
a header that is accepted, for the samples that were written. Nothing is known
of the buffer on the stack. -/
def ClosesValid (sample_rate : Int) (num_channels : ℕ) (ss : List (List Int)) : Prop :=
  ∃ w w', WavWriter.new sample_rate num_channels = some w ∧ w.writeAll ss = some w' ∧
    ∀ buf : List UInt8, buf.length = kWavHeaderSize →
      (readWavHeader (w'.close buf)).ok = true ∧
        (readWavHeader (w'.close buf)).num_samples = some (total ss)

/-- The parameters of the constructor are accepted with any number of whole
frames that the sizes in the header can express. -/
theorem accepted_total_iff {sample_rate : Int} {num_channels n : ℕ}
    (h : Accepted num_channels sample_rate kWavFormat kBytesPerSample 0) :
    Accepted num_channels sample_rate kWavFormat kBytesPerSample n ↔
      n % num_channels = 0 ∧ 2 * n ≤ 2 ^ 32 - 37 :=
  ⟨fun h => ⟨h.frames, h.payload⟩, fun hn => { h with payload := hn.2, frames := hn.1 }⟩

/-- For every format that the constructor accepts, the closed file is valid
exactly if the samples are whole frames and their bytes, with the rest of the
header, are a 32-bit size. -/
theorem close_valid_iff {sample_rate : Int} {num_channels : ℕ} (hint : InI32 sample_rate)
    (hnew : (WavWriter.new sample_rate num_channels).isSome = true) (ss : List (List Int)) :
    ClosesValid sample_rate num_channels ss ↔ total ss % num_channels = 0 ∧
      2 * total ss ≤ 2 ^ 32 - 37 := by
  have hcheck : checkWavParameters num_channels sample_rate kWavFormat kBytesPerSample 0 =
      true := by
    unfold WavWriter.new at hnew
    split at hnew
    · cases hnew
    · rename_i h
      exact not_not.mp h
  have hopen : WavWriter.new sample_rate num_channels =
      some ⟨sample_rate, num_channels, 0, List.replicate kWavHeaderSize 0⟩ := by
    rw [WavWriter.new, if_neg (not_not.mpr hcheck)]
  rw [← accepted_total_iff (checkWavParameters_iff.mp hcheck)]
  constructor
  · rintro ⟨w, w', hw, hw', hall⟩
    rw [hopen] at hw
    cases hw
    obtain ⟨hrate, hch⟩ := writeAll_format hw'
    dsimp only at hrate hch
    obtain ⟨hok, hread⟩ := hall (List.replicate kWavHeaderSize 0) List.length_replicate
    by_cases hacc : Accepted w'.num_channels_ w'.sample_rate_ kWavFormat kBytesPerSample
      w'.num_samples_
    · -- the number in the header is the one that was checked
      rw [read_close (hrate ▸ hint) hacc List.length_replicate] at hread
      rw [← Option.some.inj hread, ← hrate, ← hch]
      exact hacc
    · rw [read_close_zeros hacc] at hok
      cases hok
  · intro hacc
    have hle := hacc.payload
    unfold kBytesPerSample at hle
    refine ⟨_, _, hopen, writeAll_eq ss _ (by dsimp only; omega), ?_⟩
    intro buf hbuf
    rw [read_close hint (by simpa using hacc) hbuf]
    exact ⟨rfl, by simp⟩

/-- Two calls with three samples each, in a file with two channels. -/
theorem close_valid_stereo : ClosesValid 48000 2 [[1, 2, 3], [4, 5, 6]] :=
  (close_valid_iff (by decide) (by decide) _).mpr ⟨by decide, by decide⟩

/-- One sample in a file with two channels: the header is whatever was on the
stack. -/
theorem close_half_frame :
    (WavWriter.new 48000 2).isSome = true ∧ ¬ ClosesValid 48000 2 [[1]] := by
  refine ⟨by decide, ?_⟩
  rintro ⟨w, w', hw, hw', hall⟩
  cases hw
  cases hw'
  exact absurd (hall (List.replicate kWavHeaderSize 0) List.length_replicate).1 (by decide)

end Wav
end AgcSpec
