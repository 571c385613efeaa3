/-
# Reading the audio of a WAV file

`WavReader` of `common_audio/wav_file.cc`. The constructor takes the number of
samples from what `ReadWavHeader` has assigned, whatever it returned, and a
read takes two bytes for a sample, whatever the width in the header: the
checks of both are commented out in the source.

* `reads_payload_iff`: when the samples of an accepted file are read, what is
  delivered is a part of the payload, for every sequence of requests, exactly
  if a sample has two bytes or there is nothing behind the payload to read.
* `quiet_iff`: on which files, rejected ones in particular, it delivers nothing
  and does not rely on a number that was never assigned.
-/
import AgcSpec.WavHeader

namespace AgcSpec
namespace Wav

open FixedPoint Bytes

/-! ### Where the header is -/

/-- The stream holds the header `h`, with a `fmt ` chunk of 16 bytes or with
the zero extension, and goes on with `rest`. -/
inductive HeaderAt : List UInt8 → WavHeader → List UInt8 → Prop
  | plain {b d rest : List UInt8} (hb : b.length = kWavHeaderSize - kChunkHeaderSize)
    (hd : d.length = kChunkHeaderSize) (hs : fieldAt b 16 4 = kFmtSubchunkSize) :
      HeaderAt (b ++ (d ++ rest)) (.ofBytes b d) rest
  | extended {b e d rest : List UInt8} (hb : b.length = kWavHeaderSize - kChunkHeaderSize)
      (hd : d.length = kChunkHeaderSize) (hs : fieldAt b 16 4 = kFmtSubchunkSize + 2)
        (he : e.length = 2)
      (h0 : ofLE e = 0) : HeaderAt (b ++ (e ++ (d ++ rest))) (.ofBytes b d) rest

theorem readData_append {b d : List UInt8} (hd : d.length = kChunkHeaderSize) (rest : List UInt8) :
    readData b (d ++ rest) = parseHeader (.ofBytes b d) rest := by
  unfold readData
  rw [readBytes_append hd]
  dsimp only
  rw [if_neg (not_not.mpr hd)]

theorem HeaderAt.read {bs rest : List UInt8} {h : WavHeader} (hat : HeaderAt bs h rest) :
    readWavHeader bs = parseHeader h rest := by
  cases hat with
  | plain hb hd hs =>
    unfold readWavHeader
    rw [readBytes_append hb]
    dsimp only
    rw [if_neg (not_not.mpr hb), hs, if_neg (not_not.mpr rfl), readData_append hd]
  | extended hb hd hs he h0 =>
    unfold readWavHeader
    rw [readBytes_append hb]
    dsimp only
    rw [if_neg (not_not.mpr hb), hs, if_pos (by decide), if_neg (not_not.mpr rfl),
      readBytes_append he]
    dsimp only
    rw [if_neg (not_not.mpr he), if_neg (not_not.mpr h0), readData_append hd]

/-- The data chunk is read, or the stream ends too early. -/
theorem readData_cases (b bs : List UInt8) :
    (∃ d rest, d.length = kChunkHeaderSize ∧ bs = d ++ rest) ∨ ∃ rest,
      readData b bs = .fail rest := by
  rcases readBytes_cases kChunkHeaderSize bs with hd | hd
  · exact .inl hd
  · unfold readData
    dsimp only
    rw [if_pos hd]
    exact .inr ⟨_, rfl⟩

/-- The header is there, or the reader gives up before it has assigned
anything. -/
theorem readWavHeader_cases (bs : List UInt8) :
    (∃ h rest, HeaderAt bs h rest) ∨ ∃ rest, readWavHeader bs = .fail rest := by
  unfold readWavHeader
  dsimp only
  rcases readBytes_cases (kWavHeaderSize - kChunkHeaderSize) bs with ⟨b, t, hb, rfl⟩ | hb
  swap
  · rw [if_pos hb]
    exact .inr ⟨_, rfl⟩
  rw [readBytes_append hb]
  dsimp only
  rw [if_neg (not_not.mpr hb)]
  by_cases h16 : fieldAt b 16 4 = kFmtSubchunkSize
  · rw [if_neg (not_not.mpr h16)]
    rcases readData_cases b t with ⟨d, rest, hd, rfl⟩ | hfail
    · exact .inl ⟨_, _, .plain hb hd h16⟩
    · exact .inr hfail
  rw [if_pos h16]
  by_cases h18 : fieldAt b 16 4 = kFmtSubchunkSize + 2
  swap
  · rw [if_pos (Ne.symm h18)]
    exact .inr ⟨_, rfl⟩
  rw [if_neg (not_not.mpr h18.symm)]
  rcases readBytes_cases 2 t with ⟨e, t', he, rfl⟩ | he
  swap
  · rw [if_pos he]
    exact .inr ⟨_, rfl⟩
  rw [readBytes_append he]
  dsimp only
  rw [if_neg (not_not.mpr he)]
  by_cases h0 : ofLE e = 0
  · rw [if_neg (not_not.mpr h0)]
    rcases readData_cases b t' with ⟨d, rest, hd, rfl⟩ | hfail
    · exact .inl ⟨_, _, .extended hb hd h18 he h0⟩
    · exact .inr hfail
  · rw [if_pos h0]
    exact .inr ⟨_, rfl⟩

/-! ### `WavReader` -/

/-- `WavReader`. The file is the list of the bytes behind its position. -/
structure WavReader where
  sample_rate_ : Int
  num_channels_ : ℕ
  num_samples_ : ℕ
  num_samples_remaining_ : ℕ
  file_handle_ : List UInt8

/-- The constructor on a file with the bytes `bs`. A member that
`ReadWavHeader` does not assign has what was in memory. -/
def WavReader.new (mem : WavReader) (bs : List UInt8) : WavReader :=
  let r := readWavHeader bs
  let num_samples := r.num_samples.getD mem.num_samples_
  ⟨r.sample_rate.getD mem.sample_rate_, r.num_channels.getD mem.num_channels_, num_samples,
    num_samples, r.rest⟩

/-- `ReadSamples`: the reader after it, the number it returns and the bytes of
that many samples. `fread` takes what there is; a half sample at the end of
the file does not count. -/
def WavReader.readSamples (r : WavReader) (num_samples : ℕ) : WavReader × ℕ × List UInt8 :=
  let num_samples := min num_samples r.num_samples_remaining_
  let b := readBytes (2 * num_samples) r.file_handle_
  let read := b.1.length / 2
  ({ r with num_samples_remaining_ := r.num_samples_remaining_ - read, file_handle_ := b.2 }, read,
    b.1.take (2 * read))

/-- The reader after a sequence of requests. -/
def WavReader.after (r : WavReader) : List ℕ → WavReader
  | [] => r
  | n :: ns => (r.readSamples n).1.after ns

/-- The bytes that a sequence of requests delivers. -/
def WavReader.delivered (r : WavReader) : List ℕ → List UInt8
  | [] => []
  | n :: ns => (r.readSamples n).2.2 ++ (r.readSamples n).1.delivered ns

/-- A read takes samples off the front of the file. Only at the end of the
file it takes more than it delivers, half a sample. -/
theorem readSamples_spec (r : WavReader) (n : ℕ) :
    ∃ k, k = min (min n r.num_samples_remaining_) (r.file_handle_.length / 2) ∧
      (r.readSamples n).2.1 = k ∧ (r.readSamples n).2.2 = r.file_handle_.take (2 * k) ∧
      (r.readSamples n).1.num_samples_remaining_ = r.num_samples_remaining_ - k ∧
      ((r.readSamples n).1.file_handle_ = r.file_handle_.drop (2 * k) ∨
        ((r.readSamples n).1.file_handle_ = [] ∧ r.file_handle_.length < 2 * k + 2)) := by
  unfold WavReader.readSamples readBytes
  dsimp only
  generalize min n r.num_samples_remaining_ = m
  have hread : (r.file_handle_.take (2 * m)).length / 2 = min m (r.file_handle_.length / 2) := by
    rw [List.length_take]
    omega
  rw [hread]
  refine ⟨_, rfl, rfl, ?_, rfl, ?_⟩
  · rw [List.take_take]
    congr 1
    omega
  · rcases Nat.lt_or_ge (r.file_handle_.length / 2) m with h | h
    · exact .inr ⟨List.drop_eq_nil_of_le (by omega), by omega⟩
    · exact .inl (by rw [min_eq_left h])

/-- What a sequence of requests delivers is the front of the file, in order
and without a gap. -/
theorem delivered_spec (ns : List ℕ) (r : WavReader) :
    ∃ k, k ≤ r.num_samples_remaining_ ∧ k ≤ r.file_handle_.length / 2 ∧
      r.delivered ns = r.file_handle_.take (2 * k) ∧
      (r.after ns).num_samples_remaining_ = r.num_samples_remaining_ - k ∧
      (r.after ns).file_handle_.length / 2 = r.file_handle_.length / 2 - k := by
  induction ns generalizing r with
  | nil => exact ⟨0, by omega, by omega, rfl, rfl, rfl⟩
  | cons n ns ih =>
    obtain ⟨k, hk, -, hs, hrem, hfile⟩ := readSamples_spec r n
    obtain ⟨k', h1, h2, h3, h4, h5⟩ := ih (r.readSamples n).1
    rw [hrem] at h1 h4
    rcases hfile with hfile | ⟨hfile, hend⟩
    · -- the next read goes on where this one has stopped
      rw [hfile, List.length_drop] at h2 h5
      rw [hfile] at h3
      refine ⟨k + k', by omega, by omega, ?_, ?_, ?_⟩
      · rw [WavReader.delivered, hs, h3, ← List.take_add, mul_add]
      · rw [WavReader.after, h4]
        omega
      · rw [WavReader.after, h5]
        omega
    · rw [hfile, List.length_nil] at h2 h5
      obtain rfl : k' = 0 := by omega
      refine ⟨k, by omega, by omega, ?_, ?_, ?_⟩
      · rw [WavReader.delivered, hs, h3, hfile]
        simp
      · rw [WavReader.after, h4]
        omega
      · rw [WavReader.after, h5]
        omega

/-! ### Opening a file -/

/-- The bytes of a sample, as `ReadWavHeader` takes them from the header. -/
def WavHeader.bytesPerSample (h : WavHeader) : ℕ := h.fmt.BitsPerSample / 8

theorem parseHeader_rest (h : WavHeader) (rest : List UInt8) :
    (parseHeader h rest).rest = rest := by
  unfold parseHeader
  dsimp only
  split <;> rfl

theorem parseHeader_num_samples (h : WavHeader) (rest : List UInt8) :
    (parseHeader h rest).num_samples = if h.bytesPerSample = 0 then none
      else some (h.data.Size / h.bytesPerSample) := by
  unfold parseHeader WavHeader.bytesPerSample
  dsimp only
  split <;> rfl

/-- An accepted header has samples of one byte or of two. -/
theorem parseHeader_width {h : WavHeader} {rest : List UInt8}
    (hok : (parseHeader h rest).ok = true) : h.bytesPerSample = 1 ∨ h.bytesPerSample = 2 := by
  unfold parseHeader at hok
  dsimp only at hok
  split at hok
  · cases hok
  · unfold headerSane at hok
    dsimp only at hok
    -- only the last exit can be taken
    repeat
      split at hok
      · cases hok
    exact (checkWavParameters_iff.mp hok).width

/-- The reader on a file whose header is there and has a sample width. -/
theorem new_spec {bs rest : List UInt8} {h : WavHeader} (hat : HeaderAt bs h rest)
    (hw : h.bytesPerSample ≠ 0) (mem : WavReader) :
    (WavReader.new mem bs).num_samples_remaining_ = h.data.Size / h.bytesPerSample ∧
      (WavReader.new mem bs).file_handle_ = rest := by
  unfold WavReader.new
  rw [hat.read]
  dsimp only
  rw [parseHeader_num_samples, if_neg hw, parseHeader_rest]
  exact ⟨rfl, rfl⟩

/-! ### The payload -/

/-- The audio of a file: the data chunk, or as much of it as there is. -/
def payload (h : WavHeader) (rest : List UInt8) : List UInt8 := rest.take h.data.Size

/-- However the requests are made, what is delivered is a part of the payload
from its front on, and once less than a sample is left a read returns 0. -/
def ReadsPayload (bs audio : List UInt8) : Prop :=
  ∀ (mem : WavReader) (ns : List ℕ),
    (WavReader.new mem bs).delivered ns <+: audio ∧
    (audio.length < ((WavReader.new mem bs).delivered ns).length + 2 →
      ∀ n, (((WavReader.new mem bs).after ns).readSamples n).2.1 = 0)

/-- A reader with `N` samples to go that deliver no more than the payload. -/
theorem readsPayload_of {bs rest : List UInt8} {h : WavHeader} (hat : HeaderAt bs h rest)
    (hw : h.bytesPerSample ≠ 0)
    (hle : ∀ k, k ≤ h.data.Size / h.bytesPerSample → k ≤ rest.length / 2 →
      2 * k ≤ h.data.Size)
    (hend : ∀ k, k ≤ h.data.Size / h.bytesPerSample → k ≤ rest.length / 2 →
      min h.data.Size rest.length < 2 * k + 2 →
      h.data.Size / h.bytesPerSample ≤ k ∨ rest.length / 2 ≤ k) :
    ReadsPayload bs (payload h rest) := by
  intro mem ns
  obtain ⟨hrem, hfile⟩ := new_spec hat hw mem
  obtain ⟨k, h1, h2, h3, h4, h5⟩ := delivered_spec ns (WavReader.new mem bs)
  rw [hrem] at h1 h4
  rw [hfile] at h2 h3 h5
  rw [h3, payload]
  constructor
  · exact List.take_prefix_take_left (hle k h1 h2)
  · intro hlen n
    rw [List.length_take, List.length_take] at hlen
    obtain ⟨m, hm, hret, -⟩ := readSamples_spec ((WavReader.new mem bs).after ns) n
    rw [hret, hm]
    have := hend k h1 h2 (by omega)
    omega

/-- Every file whose header is accepted has the header at its start, and what
is delivered is a part of the payload if and only if a sample has two bytes,
or the payload is empty, or behind the header there are no two bytes more than
the payload has. -/
theorem reads_payload_iff {bs : List UInt8} (hok : (readWavHeader bs).ok = true) :
    (∃ h rest, HeaderAt bs h rest) ∧
    ∀ h rest, HeaderAt bs h rest →
      (ReadsPayload bs (payload h rest) ↔
        h.bytesPerSample = 2 ∨ h.data.Size = 0 ∨ 2 * (rest.length / 2) ≤ h.data.Size) := by
  constructor
  · rcases readWavHeader_cases bs with hat | ⟨rest, hfail⟩
    · exact hat
    · rw [hfail] at hok
      cases hok
  intro h rest hat
  rw [hat.read] at hok
  have hw := parseHeader_width hok
  constructor
  · intro hread
    by_contra hcond
    obtain ⟨h2, h0, hlong⟩ : h.bytesPerSample ≠ 2 ∧ h.data.Size ≠ 0 ∧
      h.data.Size < 2 * (rest.length / 2) := by omega
    have h1 : h.bytesPerSample = 1 := by omega
    -- one request for as many samples as the payload has bytes
    have hpre := (hread ⟨0, 0, 0, 0, []⟩ [h.data.Size]).1.length_le
    obtain ⟨hrem, hfile⟩ := new_spec hat (by omega) ⟨0, 0, 0, 0, []⟩
    obtain ⟨k, hk, -, hs, -⟩ :=
      readSamples_spec (WavReader.new ⟨0, 0, 0, 0, []⟩ bs) h.data.Size
    rw [hrem, hfile, h1, Nat.div_one] at hk
    rw [WavReader.delivered, WavReader.delivered, hs, hfile, List.append_nil, payload,
      List.length_take, List.length_take] at hpre
    omega
  · intro hcond
    refine readsPayload_of hat (by omega) (fun k hN hL => ?_) (fun k hN hL hlen => ?_)
    · rcases hw with h1 | h2
      · rw [h1, Nat.div_one] at hN
        omega
      · rw [h2] at hN
        omega
    · rcases hw with h1 | h2
      · rw [h1, Nat.div_one]
        omega
      · rw [h2]
        omega

theorem parseHeader_bytes_per_sample (h : WavHeader) (rest : List UInt8) :
    (parseHeader h rest).bytes_per_sample = some h.bytesPerSample := by
  unfold parseHeader WavHeader.bytesPerSample
  dsimp only
  split <;> rfl

/-- A file of one 16-bit sample with two bytes of something else behind it. -/
theorem reads_payload_sixteen_bit :
    (readWavHeader ((headerOf 1 8000 .kWavFormatPcm 2 1).bytes ++ [1, 0, 99, 99])).ok = true ∧
    ∃ h rest, HeaderAt ((headerOf 1 8000 .kWavFormatPcm 2 1).bytes ++ [1, 0, 99, 99]) h rest ∧
    ReadsPayload ((headerOf 1 8000 .kWavFormatPcm 2 1).bytes ++ [1, 0, 99, 99])
      (payload h rest) := by
  have hok : (readWavHeader ((headerOf 1 8000 .kWavFormatPcm 2 1).bytes ++ [1, 0, 99, 99])).ok =
      true := by
    decide +kernel
  obtain ⟨⟨h, rest, hat⟩, hiff⟩ := reads_payload_iff hok
  refine ⟨hok, h, rest, hat, (hiff h rest hat).mpr (.inl ?_)⟩
  have hw := parseHeader_bytes_per_sample h rest
  rw [← hat.read] at hw
  have h2 : (readWavHeader ((headerOf 1 8000 .kWavFormatPcm 2 1).bytes ++
      [1, 0, 99, 99])).bytes_per_sample = some 2 := by
    decide +kernel
  exact Option.some.inj (hw.symm.trans h2)

/-- A file of two 8-bit samples with two bytes of something else behind them:
a request for two samples delivers all four bytes. -/
theorem reads_metadata :
    (readWavHeader ((headerOf 1 8000 .kWavFormatPcm 1 2).bytes ++ [10, 20, 77, 78])).ok = true ∧
    (headerOf 1 8000 .kWavFormatPcm 1 2).data.Size = 2 ∧
    (WavReader.new ⟨0, 0, 0, 0, []⟩ ((headerOf 1 8000 .kWavFormatPcm 1 2).bytes ++
      [10, 20, 77, 78])).delivered [2] = [10, 20, 77, 78] ∧
    ¬ [10, 20, 77, 78] <+: payload (headerOf 1 8000 .kWavFormatPcm 1 2) [10, 20, 77, 78] := by
  decide +kernel

/-! ### A rejected header -/

/-- The reader does not use a number of samples that was never assigned, and
no request delivers a sample. -/
def Quiet (bs : List UInt8) : Prop :=
  (readWavHeader bs).num_samples ≠ none ∧ ∀ (mem : WavReader) (ns : List ℕ),
    (WavReader.new mem bs).delivered ns = []

/-- A reader is quiet if and only if it has no sample to go or the file no
two bytes. -/
theorem delivered_eq_nil_iff (r : WavReader) :
    (∀ ns, r.delivered ns = []) ↔ r.num_samples_remaining_ = 0 ∨
      r.file_handle_.length < 2 := by
  constructor
  · intro hq
    obtain ⟨k, hk, -, hs, -⟩ := readSamples_spec r 1
    have h1 : r.delivered [1] = r.file_handle_.take (2 * k) := by
      rw [WavReader.delivered, WavReader.delivered, hs, List.append_nil]
    have hlen := congrArg List.length (h1.symm.trans (hq [1]))
    rw [List.length_take, List.length_nil] at hlen
    omega
  · intro h ns
    obtain ⟨k, h1, h2, h3, -⟩ := delivered_spec ns r
    obtain rfl : k = 0 := by omega
    simpa using h3

/-- On a file, accepted or rejected, the reader is quiet if and only if the
header is there, with samples of a byte or more, and the data chunk has not
one sample or the file not two bytes behind the header. -/
theorem quiet_iff (bs : List UInt8) :
    Quiet bs ↔ ∃ h rest, HeaderAt bs h rest ∧ 8 ≤ h.fmt.BitsPerSample ∧
      (h.data.Size < h.bytesPerSample ∨ rest.length < 2) := by
  constructor
  · rintro ⟨hassigned, hquiet⟩
    rcases readWavHeader_cases bs with ⟨h, rest, hat⟩ | ⟨rest, hfail⟩
    swap
    · rw [hfail] at hassigned
      exact absurd rfl hassigned
    rw [hat.read, parseHeader_num_samples] at hassigned
    have hw : h.bytesPerSample ≠ 0 := fun h0 => hassigned (if_pos h0)
    obtain ⟨hrem, hfile⟩ := new_spec hat hw ⟨0, 0, 0, 0, []⟩
    have hq := (delivered_eq_nil_iff _).mp (hquiet ⟨0, 0, 0, 0, []⟩)
    rw [hrem, hfile, Nat.div_eq_zero_iff] at hq
    have hbits : h.bytesPerSample = h.fmt.BitsPerSample / 8 := rfl
    exact ⟨h, rest, hat, by omega, by omega⟩
  · rintro ⟨h, rest, hat, hbits, hshort⟩
    have hbytes : h.bytesPerSample = h.fmt.BitsPerSample / 8 := rfl
    have hw : h.bytesPerSample ≠ 0 := by omega
    constructor
    · rw [hat.read, parseHeader_num_samples, if_neg hw]
      exact Option.some_ne_none _
    · intro mem
      obtain ⟨hrem, hfile⟩ := new_spec hat hw mem
      rw [delivered_eq_nil_iff, hrem, hfile, Nat.div_eq_zero_iff]
      omega

/-- A file with the wrong form type, and one with a `fmt ` chunk of 20 bytes in
memory that held the number 1: both are rejected, and both deliver a sample. -/
theorem rejected_delivers :
    ((readWavHeader ({ headerOf 1 8000 .kWavFormatPcm 2 1 with Format := 0 }.bytes ++ [5, 6])).ok =
      false ∧ (WavReader.new ⟨0, 0, 0, 0, []⟩
        ({ headerOf 1 8000 .kWavFormatPcm 2 1 with Format := 0 }.bytes ++ [5, 6])).delivered [1] =
          [5, 6]) ∧
    ((readWavHeader (((headerOf 1 8000 .kWavFormatPcm 2 1).withSizes 38 20).bytes ++ [5, 6])).ok =
      false ∧ (readWavHeader (((headerOf 1 8000 .kWavFormatPcm 2 1).withSizes 38 20).bytes ++
        [5, 6])).num_samples = none ∧
      (WavReader.new ⟨0, 0, 1, 0, []⟩
        (((headerOf 1 8000 .kWavFormatPcm 2 1).withSizes 38 20).bytes ++ [5, 6])).delivered [1] =
          [100, 97]) := by
  decide +kernel

end Wav
end AgcSpec
