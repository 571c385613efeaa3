/-
# The header of a WAV file

`CheckWavParameters`, `WriteWavHeader` and `ReadWavHeader` of
`common_audio/wav_header.cc`, on a little-endian host: the structures of the
source are blocks of bytes without padding. `size_t` has 64 bits and `int` 32.

The reader has more than ten ways out. What it assigned before is part of its
result (`HeaderRead`), and so is the place in the stream it has come to.

* `header_round_trip`: whatever parameters the check accepts are read back
  from the header written for them, also when the `fmt ` chunk is rewritten
  with the two-byte extension that the reader allows.
-/
import AgcSpec.Lib.Bytes
import AgcSpec.Lib.Checked

namespace AgcSpec
namespace Wav

open FixedPoint Bytes

/-! ### Parameters -/

/-- `WavFormat`. A code that is none of the three is kept as it was read. -/
inductive WavFormat where
  | kWavFormatPcm
  | kWavFormatALaw
  | kWavFormatMuLaw
  | other (code : ℕ)
deriving DecidableEq, Repr

/-- The value of a format. -/
def WavFormat.code : WavFormat → ℕ
  | .kWavFormatPcm => 1
  | .kWavFormatALaw => 6
  | .kWavFormatMuLaw => 7
  | .other c => c

/-- The conversion of a number to the enumeration. -/
def WavFormat.ofCode (c : ℕ) : WavFormat :=
  if c = 1 then .kWavFormatPcm else if c = 6 then .kWavFormatALaw else if c = 7
    then .kWavFormatMuLaw else .other c

/-- `kWavHeaderSize`, and the sizes of the structures. -/
def kWavHeaderSize : ℕ := 44
def kChunkHeaderSize : ℕ := 8
def kFmtSubchunkSize : ℕ := 16

/-- The widths of a sample that a format has. -/
def formatAllows : WavFormat → ℕ → Bool
  | .kWavFormatPcm, bytes_per_sample => bytes_per_sample = 1 || bytes_per_sample = 2
  | .kWavFormatALaw, bytes_per_sample => bytes_per_sample = 1
  | .kWavFormatMuLaw, bytes_per_sample => bytes_per_sample = 1
  | .other _, _ => false

/-- `CheckWavParameters`. -/
def checkWavParameters (num_channels : ℕ) (sample_rate : Int) (format : WavFormat)
    (bytes_per_sample num_samples : ℕ) : Bool :=
  if num_channels = 0 ∨ sample_rate ≤ 0 ∨ bytes_per_sample = 0 then false
  else if sample_rate.toNat > 2 ^ 32 - 1 then false
  else if num_channels > 2 ^ 16 - 1 then false
  else if bytes_per_sample * 8 % 2 ^ 64 > 2 ^ 16 - 1 then false
  else if sample_rate.toNat * num_channels * bytes_per_sample % 2 ^ 64 > 2 ^ 32 - 1 then false
  else if ¬ formatAllows format bytes_per_sample then false
  else if num_samples > (2 ^ 32 - 1 - (kWavHeaderSize - kChunkHeaderSize)) / bytes_per_sample
    then false
  else if num_samples % num_channels ≠ 0 then false
  else true

/-- What the check accepts. -/
structure Accepted (num_channels : ℕ) (sample_rate : Int) (format : WavFormat)
    (bytes_per_sample num_samples : ℕ) : Prop where
  channels : 0 < num_channels ∧ num_channels < 2 ^ 16
  rate : 0 < sample_rate ∧ sample_rate < 2 ^ 32
  width : bytes_per_sample = 1 ∨ bytes_per_sample = 2
  byteRate : sample_rate.toNat * num_channels * bytes_per_sample < 2 ^ 32
  format : formatAllows format bytes_per_sample = true
  payload : bytes_per_sample * num_samples ≤ 2 ^ 32 - 37
  frames : num_samples % num_channels = 0

theorem width_of_formatAllows {format : WavFormat} {bytes_per_sample : ℕ}
    (h : formatAllows format bytes_per_sample = true) :
    bytes_per_sample = 1 ∨ bytes_per_sample = 2 := by
  cases format with
  | kWavFormatPcm => simpa [formatAllows] using h
  | kWavFormatALaw => exact .inl (by simpa [formatAllows] using h)
  | kWavFormatMuLaw => exact .inl (by simpa [formatAllows] using h)
  | other c => cases h

theorem checkWavParameters_iff {num_channels : ℕ} {sample_rate : Int} {format : WavFormat}
    {bytes_per_sample num_samples : ℕ} :
    checkWavParameters num_channels sample_rate format bytes_per_sample num_samples = true ↔
      Accepted num_channels sample_rate format bytes_per_sample num_samples := by
  by_cases hfmt : formatAllows format bytes_per_sample = true
  swap
  · constructor
    · intro h
      unfold checkWavParameters at h
      simp [hfmt] at h
    · intro h
      exact absurd h.format hfmt
  have hwidth := width_of_formatAllows hfmt
  -- the two products are exact once the earlier checks have passed
  have hprod : num_channels < 2 ^ 16 → sample_rate.toNat < 2 ^ 32 →
      sample_rate.toNat * num_channels * bytes_per_sample < 2 ^ 64 := by
    intro hc hs
    calc sample_rate.toNat * num_channels * bytes_per_sample
        ≤ 2 ^ 32 * 2 ^ 16 * 2 := Nat.mul_le_mul (Nat.mul_le_mul hs.le hc.le) (by omega)
      _ < 2 ^ 64 := by norm_num
  unfold checkWavParameters kWavHeaderSize kChunkHeaderSize
  constructor
  · intro h
    split at h
    · cases h
    rename_i h0
    split at h
    · cases h
    rename_i hrate
    split at h
    · cases h
    rename_i hch
    split at h
    · cases h
    split at h
    · cases h
    rename_i hbyte
    rw [Nat.mod_eq_of_lt (hprod (by omega) (by omega))] at hbyte
    split at h
    · cases h
    rename_i hmax
    split at h
    · cases h
    rename_i hmod
    refine ⟨⟨by omega, by omega⟩, ⟨by omega, by omega⟩, hwidth, by omega, hfmt, ?_,
      not_not.mp hmod⟩
    rcases hwidth with rfl | rfl <;> omega
  · intro h
    obtain ⟨⟨hc0, hc1⟩, ⟨hr0, hr1⟩, -, hb, -, hp, hf⟩ := h
    rw [if_neg (by omega), if_neg (by omega), if_neg (by omega), if_neg (by omega),
      Nat.mod_eq_of_lt (hb.trans (by norm_num)), if_neg (by omega), if_neg (not_not.mpr hfmt)]
    rw [if_neg (by rcases hwidth with rfl | rfl <;> omega), if_neg (not_not.mpr hf)]

/-! ### The structures and their bytes -/

/-- `ChunkHeader`. -/
structure ChunkHeader where
  ID : ℕ
  Size : ℕ
deriving DecidableEq, Repr

/-- `FmtSubchunk`. -/
structure FmtSubchunk where
  header : ChunkHeader
  AudioFormat : ℕ
  NumChannels : ℕ
  SampleRate : ℕ
  ByteRate : ℕ
  BlockAlign : ℕ
  BitsPerSample : ℕ
deriving DecidableEq, Repr

/-- `WavHeader`. -/
structure WavHeader where
  riff : ChunkHeader
  Format : ℕ
  fmt : FmtSubchunk
  data : ChunkHeader
deriving DecidableEq, Repr

/-- The chunks before the data, 36 bytes. -/
def WavHeader.riffFmtBytes (h : WavHeader) : List UInt8 :=
  toLE 4 h.riff.ID ++ toLE 4 h.riff.Size ++ toLE 4 h.Format ++
    (toLE 4 h.fmt.header.ID ++ toLE 4 h.fmt.header.Size ++ toLE 2 h.fmt.AudioFormat ++
      toLE 2 h.fmt.NumChannels ++ toLE 4 h.fmt.SampleRate ++ toLE 4 h.fmt.ByteRate ++
        toLE 2 h.fmt.BlockAlign ++ toLE 2 h.fmt.BitsPerSample)

/-- The header of the data chunk, 8 bytes. -/
def WavHeader.dataBytes (h : WavHeader) : List UInt8 := toLE 4 h.data.ID ++ toLE 4 h.data.Size

/-- The header as `memcpy` sees it. -/
def WavHeader.bytes (h : WavHeader) : List UInt8 := h.riffFmtBytes ++ h.dataBytes

/-- The header in the two blocks of bytes it is read as. -/
def WavHeader.ofBytes (b d : List UInt8) : WavHeader :=
  ⟨⟨fieldAt b 0 4, fieldAt b 4 4⟩, fieldAt b 8 4,
    ⟨⟨fieldAt b 12 4, fieldAt b 16 4⟩, fieldAt b 20 2, fieldAt b 22 2, fieldAt b 24 4,
      fieldAt b 28 4, fieldAt b 32 2, fieldAt b 34 2⟩,
    ⟨fieldAt d 0 4, fieldAt d 4 4⟩⟩

/-- The fields are numbers of their widths. -/
structure WavHeader.Fits (h : WavHeader) : Prop where
  riff : h.riff.ID < 256 ^ 4 ∧ h.riff.Size < 256 ^ 4 ∧ h.Format < 256 ^ 4
  fmt : h.fmt.header.ID < 256 ^ 4 ∧ h.fmt.header.Size < 256 ^ 4
  format : h.fmt.AudioFormat < 256 ^ 2 ∧ h.fmt.NumChannels < 256 ^ 2
  rates : h.fmt.SampleRate < 256 ^ 4 ∧ h.fmt.ByteRate < 256 ^ 4
  widths : h.fmt.BlockAlign < 256 ^ 2 ∧ h.fmt.BitsPerSample < 256 ^ 2
  data : h.data.ID < 256 ^ 4 ∧ h.data.Size < 256 ^ 4

theorem WavHeader.length_riffFmtBytes (h : WavHeader) :
    h.riffFmtBytes.length = kWavHeaderSize - kChunkHeaderSize := by
  simp [WavHeader.riffFmtBytes, kWavHeaderSize, kChunkHeaderSize]

theorem WavHeader.length_dataBytes (h : WavHeader) : h.dataBytes.length = kChunkHeaderSize := by
  simp [WavHeader.dataBytes, kChunkHeaderSize]

theorem WavHeader.ofBytes_bytes {h : WavHeader} (hf : h.Fits) :
    WavHeader.ofBytes h.riffFmtBytes h.dataBytes = h := by
  obtain ⟨⟨h1, h2, h3⟩, ⟨h4, h5⟩, ⟨h6, h7⟩, ⟨h8, h9⟩, ⟨h10, h11⟩,
    ⟨h12, h13⟩⟩ := hf
  simp only [WavHeader.ofBytes, WavHeader.riffFmtBytes, WavHeader.dataBytes, List.append_assoc,
    fieldAt_here, fieldAt_toLE, fieldAt_skip, Nat.reduceLeDiff, Nat.reduceSub, Nat.mod_eq_of_lt h1,
    Nat.mod_eq_of_lt h2, Nat.mod_eq_of_lt h3, Nat.mod_eq_of_lt h4, Nat.mod_eq_of_lt h5,
    Nat.mod_eq_of_lt h6, Nat.mod_eq_of_lt h7, Nat.mod_eq_of_lt h8, Nat.mod_eq_of_lt h9,
    Nat.mod_eq_of_lt h10, Nat.mod_eq_of_lt h11, Nat.mod_eq_of_lt h12, Nat.mod_eq_of_lt h13]

/-! ### `WriteWavHeader` -/

/-- `WriteFourCC`. -/
def writeFourCC (a b c d : Char) : ℕ :=
  a.toNat ||| b.toNat <<< 8 ||| c.toNat <<< 16 ||| d.toNat <<< 24

/-- `ReadFourCC`: the four characters in memory. -/
def readFourCC (x : ℕ) : List Char := (toLE 4 x).map fun b => Char.ofNat b.toNat

/-- `RiffChunkSize`. -/
def riffChunkSize (bytes_in_payload : ℕ) : ℕ :=
  (bytes_in_payload + kWavHeaderSize - kChunkHeaderSize) % 2 ^ 32

/-- `ByteRate`. The rate is converted to `size_t`. -/
def byteRate (num_channels : ℕ) (sample_rate : Int) (bytes_per_sample : ℕ) : ℕ :=
  (num_channels * sample_rate * bytes_per_sample % 2 ^ 32).toNat

/-- `BlockAlign`. -/
def blockAlign (num_channels bytes_per_sample : ℕ) : ℕ :=
  num_channels * bytes_per_sample % 2 ^ 16

/-- The header that `WriteWavHeader` fills in. -/
def headerOf (num_channels : ℕ) (sample_rate : Int) (format : WavFormat)
    (bytes_per_sample num_samples : ℕ) : WavHeader :=
  let bytes_in_payload := bytes_per_sample * num_samples
  ⟨⟨writeFourCC 'R' 'I' 'F' 'F', riffChunkSize bytes_in_payload⟩, writeFourCC 'W' 'A' 'V' 'E',
    ⟨⟨writeFourCC 'f' 'm' 't' ' ', kFmtSubchunkSize⟩, format.code % 2 ^ 16,
      num_channels % 2 ^ 16, (sample_rate % 2 ^ 32).toNat,
      byteRate num_channels sample_rate bytes_per_sample, blockAlign num_channels bytes_per_sample,
      8 * bytes_per_sample % 2 ^ 16⟩,
    ⟨writeFourCC 'd' 'a' 't' 'a', bytes_in_payload % 2 ^ 32⟩⟩

/-- `WriteWavHeader`: the contents of `buf` after it. Parameters that are not
accepted leave the buffer as it was. -/
def writeWavHeader (buf : List UInt8) (num_channels : ℕ) (sample_rate : Int) (format : WavFormat)
    (bytes_per_sample num_samples : ℕ) : List UInt8 :=
  if ¬ checkWavParameters num_channels sample_rate format bytes_per_sample num_samples then buf
  else (headerOf num_channels sample_rate format bytes_per_sample num_samples).bytes ++
    buf.drop kWavHeaderSize

/-! ### `ReadWavHeader` -/

/-- What `ReadWavHeader` leaves: its result, the output parameters it has
assigned, and the rest of the stream. -/
structure HeaderRead where
  ok : Bool
  num_channels : Option ℕ
  sample_rate : Option Int
  format : Option WavFormat
  bytes_per_sample : Option ℕ
  num_samples : Option ℕ
  rest : List UInt8
deriving DecidableEq, Repr

/-- The result false before anything is assigned. -/
def HeaderRead.fail (rest : List UInt8) : HeaderRead :=
  ⟨false, none, none, none, none, none, rest⟩

/-- The sanity check of the remaining fields, on the parsed ones. -/
def headerSane (h : WavHeader) (num_channels : ℕ) (sample_rate : Int) (format : WavFormat)
    (bytes_per_sample num_samples : ℕ) : Bool :=
  if readFourCC h.riff.ID ≠ ['R', 'I', 'F', 'F'] then false
  else if readFourCC h.Format ≠ ['W', 'A', 'V', 'E'] then false
  else if readFourCC h.fmt.header.ID ≠ ['f', 'm', 't', ' '] then false
  else if readFourCC h.data.ID ≠ ['d', 'a', 't', 'a'] then false
  else if h.riff.Size < riffChunkSize h.data.Size then false
  else if h.fmt.ByteRate ≠ byteRate num_channels sample_rate bytes_per_sample then false
  else if h.fmt.BlockAlign ≠ blockAlign num_channels bytes_per_sample then false
  else checkWavParameters num_channels sample_rate format bytes_per_sample num_samples

/-- `ReadWavHeader` once the header is in memory. -/
def parseHeader (h : WavHeader) (rest : List UInt8) : HeaderRead :=
  let format := WavFormat.ofCode h.fmt.AudioFormat
  let num_channels := h.fmt.NumChannels
  let sample_rate := i32 h.fmt.SampleRate
  let bytes_per_sample := h.fmt.BitsPerSample / 8
  if bytes_per_sample = 0 then
    ⟨false, some num_channels, some sample_rate, some format, some bytes_per_sample, none, rest⟩
  else
    let num_samples := h.data.Size / bytes_per_sample
    ⟨headerSane h num_channels sample_rate format bytes_per_sample num_samples,
      some num_channels, some sample_rate, some format, some bytes_per_sample,
      some num_samples, rest⟩

/-- The header of the data chunk is read behind the block `b`. -/
def readData (b bs : List UInt8) : HeaderRead :=
  let d := readBytes kChunkHeaderSize bs
  if d.1.length ≠ kChunkHeaderSize then .fail d.2 else parseHeader (.ofBytes b d.1) d.2

/-- `ReadWavHeader`. There is an optional two-byte extension field permitted,
which must be zero. -/
def readWavHeader (bs : List UInt8) : HeaderRead :=
  let b := readBytes (kWavHeaderSize - kChunkHeaderSize) bs
  if b.1.length ≠ kWavHeaderSize - kChunkHeaderSize then .fail b.2
  else
    let fmt_size := fieldAt b.1 16 4
    if fmt_size ≠ kFmtSubchunkSize then
      if kFmtSubchunkSize + 2 ≠ fmt_size then .fail b.2
      else
        let e := readBytes 2 b.2
        if e.1.length ≠ 2 then .fail e.2 else if ofLE e.1 ≠ 0 then .fail e.2
        else readData b.1 e.2
    else readData b.1 b.2

/-! ### The round trip -/

theorem fieldAt_fmtSize {h : WavHeader} (hf : h.Fits) :
    fieldAt h.riffFmtBytes 16 4 = h.fmt.header.Size :=
  congrArg (fun h : WavHeader => h.fmt.header.Size) (WavHeader.ofBytes_bytes hf)

theorem readData_bytes {h : WavHeader} (hf : h.Fits) (rest : List UInt8) :
    readData h.riffFmtBytes (h.dataBytes ++ rest) = parseHeader h rest := by
  unfold readData
  rw [readBytes_append h.length_dataBytes]
  dsimp only
  rw [if_neg (not_not.mpr h.length_dataBytes), WavHeader.ofBytes_bytes hf]

theorem readWavHeader_bytes {h : WavHeader} (hf : h.Fits)
    (hs : h.fmt.header.Size = kFmtSubchunkSize)
    (rest : List UInt8) : readWavHeader (h.bytes ++ rest) = parseHeader h rest := by
  unfold readWavHeader
  rw [WavHeader.bytes, List.append_assoc, readBytes_append h.length_riffFmtBytes]
  dsimp only
  rw [if_neg (not_not.mpr h.length_riffFmtBytes), fieldAt_fmtSize hf, if_neg (not_not.mpr hs),
    readData_bytes hf]

/-- A header with a `fmt ` chunk of 18 bytes, the last two zero. -/
theorem readWavHeader_extended {h : WavHeader} (hf : h.Fits)
    (hs : h.fmt.header.Size = kFmtSubchunkSize + 2) (rest : List UInt8) :
    readWavHeader (h.riffFmtBytes ++ (toLE 2 0 ++ (h.dataBytes ++ rest))) = parseHeader h rest := by
  unfold readWavHeader
  rw [readBytes_append h.length_riffFmtBytes]
  dsimp only
  rw [if_neg (not_not.mpr h.length_riffFmtBytes), fieldAt_fmtSize hf, hs, if_pos (by decide),
    if_neg (by simp), readBytes_append (length_toLE 2 0)]
  dsimp only
  rw [if_neg (by simp), if_neg (by decide), readData_bytes hf]

/-- A header with other sizes of the RIFF and the `fmt ` chunk. -/
def WavHeader.withSizes (h : WavHeader) (riff fmt : ℕ) : WavHeader :=
  { h with
    riff := { h.riff with Size := riff }
    fmt := { h.fmt with header := { h.fmt.header with Size := fmt } } }

theorem WavHeader.Fits.withSizes {h : WavHeader} (hf : h.Fits) {riff fmt : ℕ}
    (hr : riff < 256 ^ 4) (hs : fmt < 256 ^ 4) : (h.withSizes riff fmt).Fits :=
  ⟨⟨hf.riff.1, hr, hf.riff.2.2⟩, ⟨hf.fmt.1, hs⟩, hf.format, hf.rates,
    hf.widths, hf.data⟩

section Written

variable {num_channels : ℕ} {sample_rate : Int} {format : WavFormat}
    {bytes_per_sample num_samples : ℕ}

theorem ofCode_code {format : WavFormat} {bytes_per_sample : ℕ}
    (h : formatAllows format bytes_per_sample = true) :
    WavFormat.ofCode format.code = format ∧ format.code < 2 ^ 16 := by
  cases format with
  | kWavFormatPcm => exact ⟨rfl, by decide⟩
  | kWavFormatALaw => exact ⟨rfl, by decide⟩
  | kWavFormatMuLaw => exact ⟨rfl, by decide⟩
  | other c => cases h

theorem fits_headerOf (num_channels : ℕ) (sample_rate : Int) (format : WavFormat)
    (bytes_per_sample num_samples : ℕ) :
    (headerOf num_channels sample_rate format bytes_per_sample num_samples).Fits := by
  have h32 : ∀ n : ℕ, n % 2 ^ 32 < 256 ^ 4 := fun n => Nat.mod_lt n (by norm_num)
  have h16 : ∀ n : ℕ, n % 2 ^ 16 < 256 ^ 2 := fun n => Nat.mod_lt n (by norm_num)
  have hint : ∀ x : Int, (x % 2 ^ 32).toNat < 256 ^ 4 := fun x => by omega
  exact ⟨⟨(by decide : writeFourCC 'R' 'I' 'F' 'F' < 256 ^ 4), h32 _,
    (by decide : writeFourCC 'W' 'A' 'V' 'E' < 256 ^ 4)⟩,
    ⟨(by decide : writeFourCC 'f' 'm' 't' ' ' < 256 ^ 4),
      (by decide : kFmtSubchunkSize < 256 ^ 4)⟩, ⟨h16 _, h16 _⟩,
    ⟨hint _, hint _⟩, ⟨h16 _, h16 _⟩,
    ⟨(by decide : writeFourCC 'd' 'a' 't' 'a' < 256 ^ 4), h32 _⟩⟩

/-- The written header is parsed to the parameters it was written for. Neither
a larger RIFF size nor another size of the `fmt ` chunk matters. -/
theorem parseHeader_headerOf
    (h : Accepted num_channels sample_rate format bytes_per_sample num_samples)
    (hint : InI32 sample_rate) {riff : ℕ}
    (hriff : riffChunkSize (bytes_per_sample * num_samples) ≤ riff) (fmt : ℕ)
    (rest : List UInt8) :
    parseHeader ((headerOf num_channels sample_rate format bytes_per_sample num_samples).withSizes
      riff fmt) rest =
      ⟨true, some num_channels, some sample_rate, some format, some bytes_per_sample,
        some num_samples, rest⟩ := by
  obtain ⟨hcode, hcode16⟩ := ofCode_code h.format
  obtain ⟨hi0, hi1⟩ := hint
  have hw := h.width
  have hp := h.payload
  have hc := h.channels
  have hr := h.rate
  -- the fields as they are read back
  have e1 : format.code % 2 ^ 16 = format.code := Nat.mod_eq_of_lt hcode16
  have e2 : num_channels % 2 ^ 16 = num_channels := Nat.mod_eq_of_lt hc.2
  have e3 : i32 ((sample_rate % 2 ^ 32).toNat : Int) = sample_rate := by
    rw [Int.toNat_of_nonneg (by omega), Int.emod_eq_of_lt hr.1.le hr.2, i32_of ⟨hi0, hi1⟩]
  have e4 : 8 * bytes_per_sample % 2 ^ 16 / 8 = bytes_per_sample := by omega
  have e5 : bytes_per_sample * num_samples % 2 ^ 32 = bytes_per_sample * num_samples :=
    Nat.mod_eq_of_lt (by omega)
  have e6 : bytes_per_sample * num_samples / bytes_per_sample = num_samples :=
    Nat.mul_div_cancel_left _ (by omega)
  unfold parseHeader WavHeader.withSizes headerOf
  dsimp only
  rw [e1, e2, e3, e4, e5, e6, hcode, if_neg (by omega)]
  unfold headerSane
  dsimp only
  rw [if_neg (by decide), if_neg (by decide), if_neg (by decide), if_neg (by decide),
    if_neg (by omega), if_neg (not_not.mpr rfl), if_neg (not_not.mpr rfl),
    checkWavParameters_iff.mpr h]

end Written

theorem take_writeWavHeader {num_channels : ℕ} {sample_rate : Int} {format : WavFormat}
    {bytes_per_sample num_samples : ℕ}
    (h : checkWavParameters num_channels sample_rate format bytes_per_sample num_samples = true)
    (buf : List UInt8) :
    (writeWavHeader buf num_channels sample_rate format bytes_per_sample num_samples).take
      kWavHeaderSize =
      (headerOf num_channels sample_rate format bytes_per_sample num_samples).bytes := by
  rw [writeWavHeader, if_neg (not_not.mpr h)]
  apply List.take_left'
  rw [WavHeader.bytes, List.length_append, WavHeader.length_riffFmtBytes,
    WavHeader.length_dataBytes]
  rfl

/-- The first 44 bytes of a file, with the RIFF size `riff` and the `fmt `
chunk rewritten with the size 18 and a zero extension. -/
def withExtension (riff : ℕ) (b : List UInt8) : List UInt8 :=
  b.take 4 ++ toLE 4 riff ++ (b.drop 8).take 8 ++ toLE 4 (kFmtSubchunkSize + 2) ++
    (b.drop 20).take 16 ++ toLE 2 0 ++ (b.drop 36).take 8

theorem withExtension_bytes (riff : ℕ) (h : WavHeader) :
    withExtension riff h.bytes =
      (h.withSizes riff (kFmtSubchunkSize + 2)).riffFmtBytes ++ (toLE 2 0 ++ h.dataBytes) := by
  simp [withExtension, WavHeader.bytes, WavHeader.riffFmtBytes, WavHeader.dataBytes,
    WavHeader.withSizes, List.take_append, List.drop_append, take_toLE, drop_toLE]

/-- The parameters that the check accepts are what is read back from a stream
that starts with the header written for them, and from one that starts with
the extended header, with this RIFF size or a larger one. -/
theorem header_round_trip {num_channels : ℕ} {sample_rate : Int} {format : WavFormat}
    {bytes_per_sample num_samples : ℕ} (hint : InI32 sample_rate)
    (h : checkWavParameters num_channels sample_rate format bytes_per_sample num_samples = true)
    (buf rest : List UInt8) :
    let written := (writeWavHeader buf num_channels sample_rate format bytes_per_sample
      num_samples).take kWavHeaderSize
    let expected : HeaderRead :=
      ⟨true, some num_channels, some sample_rate, some format, some bytes_per_sample,
        some num_samples, rest⟩
    readWavHeader (written ++ rest) = expected ∧
      ∀ riff, riffChunkSize (bytes_per_sample * num_samples) ≤ riff → riff < 2 ^ 32 →
        readWavHeader (withExtension riff written ++ rest) = expected := by
  intro written expected
  have hacc := checkWavParameters_iff.mp h
  have hf := fits_headerOf num_channels sample_rate format bytes_per_sample num_samples
  have hwritten : written =
      (headerOf num_channels sample_rate format bytes_per_sample num_samples).bytes :=
    take_writeWavHeader h buf
  rw [hwritten]
  constructor
  · rw [readWavHeader_bytes hf rfl]
    exact parseHeader_headerOf hacc hint le_rfl kFmtSubchunkSize rest
  · intro riff hle hlt
    have hf' := hf.withSizes hlt (by decide : kFmtSubchunkSize + 2 < 256 ^ 4)
    have hext := readWavHeader_extended hf' rfl rest
    rw [parseHeader_headerOf hacc hint hle (kFmtSubchunkSize + 2) rest] at hext
    rw [withExtension_bytes, List.append_assoc, List.append_assoc]
    exact hext

/-- Two samples of a stereo file, and the largest payload a mono file can
have. -/
theorem header_round_trip_limits :
    (checkWavParameters 2 48000 .kWavFormatPcm 2 2 = true ∧
      readWavHeader ((writeWavHeader [] 2 48000 .kWavFormatPcm 2 2).take 44 ++ [1, 0, 2, 0]) =
        ⟨true, some 2, some 48000, some .kWavFormatPcm, some 2, some 2, [1, 0, 2, 0]⟩) ∧
    (checkWavParameters 1 8000 .kWavFormatMuLaw 1 4294967259 = true ∧
      readWavHeader ((writeWavHeader [] 1 8000 .kWavFormatMuLaw 1 4294967259).take 44 ++ []) =
        ⟨true, some 1, some 8000, some .kWavFormatMuLaw, some 1, some 4294967259, []⟩) :=
  ⟨⟨by decide, (header_round_trip (by decide) (by decide) [] [1, 0, 2, 0]).1⟩,
    ⟨by decide, (header_round_trip (by decide) (by decide) [] []).1⟩⟩

end Wav
end AgcSpec
