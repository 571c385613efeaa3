/-
# The program

`main` of `spec/agc_spec.cc`: it reads a WAV file in blocks of 160 samples, runs
`ProcessStream` on each block and writes what comes out to another WAV file. The
loop ends at the first block that is not whole; its samples are dropped. An
error of `ProcessStream` ends the program at once, with the header of the output
still blank.

The check of the arguments and the text on the console are left out, and the two
names stand for two files that can be opened. The input is the list of the bytes
of the one, the output those of the other when the program has ended. What the
program finds in memory that it has not written is a parameter: the members of
the reader, the two instances, and the buffer of 44 bytes that `Close` has on
the stack.

* `program_output`: for every file of 16-bit samples that `ReadWavHeader`
  accepts, the program returns 0, and its output is a file that `ReadWavHeader`
  accepts, at 8 kHz with one channel. Its samples are those that `ProcessStream`
  makes of the whole blocks of the input, one after the other.
-/
import AgcSpec.Shipped
import AgcSpec.WavWriter

namespace AgcSpec
namespace Program

open FixedPoint Bytes Wav

/-! ### The source -/

/-- `kNumSamples`. -/
def kNumSamples : ℕ := 160

/-- The bytes of an array of `int16_t`, as samples. -/
def samplesOf : List UInt8 → List Int
  | a :: b :: rest => i16 (ofLE [a, b]) :: samplesOf rest
  | _ => []

/-- What the program leaves: the value it returns and its output file. -/
structure Exit where
  code : Int
  file : List UInt8
deriving DecidableEq

theorem remaining_readSamples {r : WavReader} (h : (r.readSamples kNumSamples).2.1 = kNumSamples) :
    (r.readSamples kNumSamples).1.num_samples_remaining_ < r.num_samples_remaining_ := by
  obtain ⟨k, hk, hret, -, hrem, -⟩ := readSamples_spec r kNumSamples
  rw [hrem]
  unfold kNumSamples at *
  omega

/-- The `while` loop, and what follows it. -/
def loop (buf : List UInt8) (apm : AudioProcessingImpl) (r : WavReader) (out_wav : WavWriter) :
    Option Exit :=
  if _h : (r.readSamples kNumSamples).2.1 = kNumSamples then
    match (processStream apm (samplesOf (r.readSamples kNumSamples).2.2)).val with
    | none => none
    | some s =>
      if s.error ≠ kNoError then some ⟨-1, out_wav.file_handle_⟩
      else
        match out_wav.writeSamples s.data with
        | none => none
        | some w => loop buf s.apm (r.readSamples kNumSamples).1 w
  else some ⟨0, out_wav.close buf⟩
termination_by r.num_samples_remaining_
decreasing_by exact remaining_readSamples _h

/-- What the program finds in memory. The buffer of `Close` has the size of the
header. -/
structure Memory where
  instance0 : LegacyAgc
  instance1 : LegacyAgc
  num_proc_channels : Int
  sample_rate_hz : Int
  reader : WavReader
  header : List UInt8
  length_header : header.length = kWavHeaderSize

/-- The object after `Create` and `Enable(true)`. -/
def Memory.apm (mem : Memory) : AudioProcessingImpl :=
  Shipped.shipped mem.instance0 mem.instance1 mem.num_proc_channels mem.sample_rate_hz

/-- `main`, on an input file; `none` if it does not return. -/
def main (mem : Memory) (input : List UInt8) : Option Exit :=
  (WavWriter.new 8000 1).bind fun w => loop mem.header mem.apm (WavReader.new mem.reader input) w

/-! ### Samples stay samples -/

theorem inI16_sampleFirst (gain32 x : Int) : InI16 (sampleFirst gain32 x).val := by
  simp only [sampleFirst, Chk.val_bind]
  split
  · decide
  split
  · decide
  · exact inI16_i16 _

theorem inI16_sampleRest (gain32 x : Int) : InI16 (sampleRest gain32 x).val := inI16_sat16 _

theorem inI16_applyRamp {sample : Int → Int → Chk Int} (h : ∀ g x, InI16 (sample g x).val)
    (delta : Int) :
    ∀ (gain32 : Int) (xs : List Int), ∀ y ∈ (applyRamp sample delta gain32 xs).val, InI16 y
  | _, [] => by simp [applyRamp]
  | gain32, x :: xs => by
    intro y hy
    simp only [applyRamp, Chk.val_bind, Chk.val_pure, List.mem_cons] at hy
    rcases hy with rfl | hy
    · exact h gain32 x
    · exact inI16_applyRamp h delta _ xs y hy

theorem inI16_applyGains (L L2 : ℕ) (gains : List Int) {band : List Int}
    (hx : ∀ x ∈ band, InI16 x) : ∀ y ∈ (applyGains L L2 gains band).val, InI16 y := by
  intro y hy
  simp only [applyGains, Chk.val_bind, Chk.val_pure, val_mapM, List.mem_append, List.mem_flatten,
    List.mem_map] at hy
  rcases hy with ⟨part, ⟨k, -, rfl⟩, hy⟩ | hy
  · simp only [applySubframe, Chk.val_bind] at hy
    refine inI16_applyRamp ?_ _ _ _ y hy
    intro g x
    split
    · exact inI16_sampleFirst g x
    · exact inI16_sampleRest g x
  · exact hx y (List.mem_of_mem_drop hy)

/-- The bands of a frame are samples. -/
abbrev Bands (bands : List (List Int)) : Prop := ∀ b ∈ bands, ∀ x ∈ b, InI16 x

theorem bands_singleton {audio : List Int} (h : ∀ x ∈ audio, InI16 x) : Bands [audio] := by
  simpa [Bands] using h

theorem Bands.head {bands : List (List Int)} (h : Bands bands) : ∀ x ∈ bands.headD [],
    InI16 x := by
  cases bands with
  | nil => simp
  | cons b bs => exact h b List.mem_cons_self

theorem bands_processDigital {s d : DigitalAgc} {bands out : List (List Int)} {FS low : Int}
    (hx : Bands bands) (h : (processDigital s bands FS low).val = .done d out) : Bands out := by
  rw [processDigital] at h
  split at h
  · cases h
  rw [Chk.val_bind] at h
  split at h
  · cases h
  rw [Chk.val_bind, val_mapM] at h
  cases h
  intro b hb
  obtain ⟨band, hband, rfl⟩ := List.mem_map.mp hb
  exact inI16_applyGains _ _ _ (hx band hband)

theorem bands_process {s : LegacyAgc} {bands : List (List Int)} {level echo : Int}
    {r : ProcessResult} (hx : Bands bands)
    (h : (process s bands bands level echo).val = some r) : Bands r.out := by
  rcases process_cases h with ⟨-, rfl⟩ | ⟨-, d, o, hd, hr⟩
  · exact hx
  have ho := bands_processDigital hx hd
  rcases hr with ⟨-, -, rfl⟩ | ⟨a, -, -, rfl⟩ | ⟨-, rfl⟩ <;> exact ho

theorem bands_micGain {s : LegacyAgc} {bands bands' : List (List Int)} {idx : Int}
    (hx : Bands bands) (h : (micGain s bands).val = some (idx, bands')) : Bands bands' := by
  unfold micGain at h
  split at h
  swap
  · cases h
    exact hx
  split at h
  · cases h
  rw [Chk.val_bind] at h
  split at h
  · cases h
  rw [Chk.val_bind] at h
  cases h
  intro b hb x hxb
  obtain ⟨band, -, rfl⟩ := List.mem_map.mp hb
  obtain ⟨y, -, rfl⟩ := List.mem_map.mp hxb
  exact inI16_sat16 _

theorem bands_addMic {s : LegacyAgc} {bands : List (List Int)} (hx : Bands bands) :
    Bands (addMic s bands).val.bands := by
  rcases addMic_cases s bands with h | ⟨idx, bands', -, hg, h⟩
  · rw [h]
    exact hx
  · rw [h]
    exact bands_micGain hx hg

theorem inI16_virtualLoop : ∀ (gainIdx gain : Int) (xs : List Int),
    ∀ y ∈ (virtualLoop gainIdx gain xs).val.2.1, InI16 y
  | _, _, [] => by simp [virtualLoop]
  | gainIdx, gain, x :: xs => by
    intro y hy
    rw [virtualLoop, Chk.val_bind] at hy
    dsimp only at hy
    split at hy
    · simp only [Chk.val_bind, Chk.val_pure, List.mem_cons] at hy
      rcases hy with rfl | hy
      · exact inI16_sat16 _
      · exact inI16_virtualLoop _ _ xs y hy
    · rename_i hin
      simp only [Chk.val_bind, Chk.val_pure, List.mem_cons] at hy
      rcases hy with rfl | hy
      · exact ⟨by omega, by omega⟩
      · exact inI16_virtualLoop _ _ xs y hy

theorem bands_virtualMic (s : LegacyAgc) (bands : List (List Int)) (level : Int) :
    Bands (virtualMic s bands level).val.bands := by
  rw [virtualMic_eq]
  apply bands_addMic
  intro b hb
  rcases List.mem_cons.mp hb with rfl | hb
  · exact inI16_virtualLoop _ _ _
  · obtain ⟨band, -, rfl⟩ := List.mem_map.mp hb
    intro x hx
    obtain ⟨i, hi, rfl⟩ := List.mem_iff_getElem.mp hx
    simp only [virtualBand, List.getElem_zipWith]
    exact inI16_sat16 _

theorem inI16_analyze {g : GainControlImpl} {audio : List Int} {r : GainControlImpl.Result}
    (hx : ∀ x ∈ audio, InI16 x)
    (h : (g.analyzeCaptureAudio audio).val = some r) : ∀ x ∈ r.audio, InI16 x := by
  unfold GainControlImpl.analyzeCaptureAudio at h
  split at h
  · cases h
    exact hx
  split at h
  · split at h
    · cases h
    · rename_i c _
      have hbands := Bands.head (bands_virtualMic c.state_ [audio] 0)
      simp only [Chk.val_bind, Chk.val_pure, Option.some.injEq] at h
      rw [← h]
      dsimp only
      exact hbands
  · cases h
    exact hx
  · cases h
    exact hx

theorem inI16_processCapture {g : GainControlImpl} {audio : List Int} {r : GainControlImpl.Result}
    (hx : ∀ x ∈ audio, InI16 x) (h : (g.processCaptureAudio audio).val = some r) :
    ∀ x ∈ r.audio, InI16 x := by
  unfold GainControlImpl.processCaptureAudio at h
  split at h
  · cases h
    exact hx
  split at h
  · cases h
    exact hx
  split at h
  · cases h
  rw [Chk.val_bind] at h
  split at h
  · cases h
  · rename_i r' hr
    have hout := bands_process (bands_singleton hx) hr
    dsimp only at h
    split at h
    · cases h
      exact hout.head
    · cases h
      exact hout.head

theorem inI16_processHalf {g : GainControlImpl} {audio : List Int} {r : GainControlImpl.Result}
    (hx : ∀ x ∈ audio, InI16 x) (h : (g.processHalf audio).val = some r) :
    ∀ x ∈ r.audio, InI16 x := by
  rw [GainControlImpl.processHalf, Chk.val_bind] at h
  split at h
  · cases h
  · rename_i a ha
    have hax := inI16_analyze hx ha
    split at h
    · cases h
      exact hax
    · exact inI16_processCapture hax h

theorem inI16_processStream {a : AudioProcessingImpl} {data : List Int} {s : StreamResult}
    (hx : ∀ x ∈ data, InI16 x)
    (h : (processStream a data).val = some s) : ∀ x ∈ s.data, InI16 x := by
  have hfirst : ∀ x ∈ data.take 80, InI16 x := fun x hm => hx x (List.mem_of_mem_take hm)
  have hsecond : ∀ x ∈ data.drop 80, InI16 x := fun x hm => hx x (List.mem_of_mem_drop hm)
  unfold processStream at h
  split at h
  · cases h
    exact hx
  rw [Chk.val_bind] at h
  split at h
  · cases h
  rename_i h0 e0
  have hx0 := inI16_processHalf hfirst e0
  split at h
  · cases h
    intro x hm
    exact (List.mem_append.mp hm).elim (hx0 x) (hsecond x)
  rw [Chk.val_bind] at h
  split at h
  · cases h
  rename_i h1 e1
  have hx1 := inI16_processHalf hsecond e1
  cases h
  intro x hm
  exact (List.mem_append.mp hm).elim (hx0 x) (hx1 x)

/-! ### Bytes and samples -/

theorem inI16_samplesOf (bs : List UInt8) : ∀ x ∈ samplesOf bs, InI16 x := by
  fun_induction samplesOf bs with
  | case1 a b rest ih =>
    intro x hx
    rcases List.mem_cons.mp hx with hx | hx
    · rw [hx]
      exact inI16_i16 _
    · exact ih x hx
  | case2 => simp

theorem length_samplesOf (bs : List UInt8) : (samplesOf bs).length = bs.length / 2 := by
  fun_induction samplesOf bs with
  | case1 a b rest ih =>
    rw [List.length_cons, ih, List.length_cons, List.length_cons]
    omega
  | case2 bs h =>
    match bs, h with
    | [], _ => rfl
    | [_], _ => simp
    | a :: b :: rest, h => exact (h a b rest rfl).elim

/-- A sample that was written is the one that is read. -/
theorem i16_ofLE_toLE {x : Int} (hx : InI16 x) : i16 (ofLE (toLE 2 (x % 2 ^ 16).toNat)) = x := by
  obtain ⟨h1, h2⟩ := hx
  rw [ofLE_toLE]
  unfold i16
  omega

theorem samplesOf_sampleBytes {xs : List Int} (h : ∀ x ∈ xs, InI16 x) :
    samplesOf (WavWriter.sampleBytes xs) = xs := by
  induction xs with
  | nil => rfl
  | cons x xs ih =>
    have hx := i16_ofLE_toLE (h x List.mem_cons_self)
    have hxs := ih fun y hy => h y (List.mem_cons_of_mem _ hy)
    unfold WavWriter.sampleBytes at hxs ⊢
    rw [List.flatMap_cons]
    exact congrArg₂ List.cons hx hxs

/-! ### The loop -/

/-- The first `k` blocks of a file. -/
def blocks : ℕ → List UInt8 → List (List Int)
  | 0, _ => []
  | k + 1, bs => samplesOf (bs.take (2 * kNumSamples)) :: blocks k (bs.drop (2 * kNumSamples))

/-- What `ProcessStream` makes of a sequence of blocks, if every call succeeds. -/
def processAll (a : AudioProcessingImpl) : List (List Int) → Option (List (List Int))
  | [] => some []
  | b :: bs =>
    match (processStream a b).val with
    | none => none
    | some s => if s.error ≠ kNoError then none else (processAll s.apm bs).map (s.data :: ·)

/-- The whole blocks a reader has to go. -/
def wholeBlocks (r : WavReader) : ℕ :=
  min r.num_samples_remaining_ (r.file_handle_.length / 2) / kNumSamples

/-- A read at a whole block delivers it, and leaves one less. -/
theorem readSamples_block {r : WavReader} {k : ℕ} (h : wholeBlocks r = k + 1) :
    (r.readSamples kNumSamples).2.1 = kNumSamples ∧
      (r.readSamples kNumSamples).2.2 = r.file_handle_.take (2 * kNumSamples) ∧
      (r.readSamples kNumSamples).1.file_handle_ = r.file_handle_.drop (2 * kNumSamples) ∧
      wholeBlocks (r.readSamples kNumSamples).1 = k := by
  unfold wholeBlocks kNumSamples at *
  obtain ⟨j, hj, hret, hdata, hrem, hfile⟩ := readSamples_spec r 160
  obtain rfl : j = 160 := by omega
  have hrest : (r.readSamples 160).1.file_handle_ = r.file_handle_.drop (2 * 160) := by
    rcases hfile with hfile | ⟨hfile, hend⟩
    · exact hfile
    -- at the end of the file nothing is behind the block but half a sample, which was not read
    · unfold WavReader.readSamples readBytes
      dsimp only
      rw [show min 160 r.num_samples_remaining_ = 160 by omega]
  refine ⟨hret, hdata, hrest, ?_⟩
  rw [hrem, hrest, List.length_drop]
  omega

theorem readSamples_end {r : WavReader} (h : wholeBlocks r = 0) :
    (r.readSamples kNumSamples).2.1 ≠ kNumSamples := by
  unfold wholeBlocks kNumSamples at *
  obtain ⟨j, hj, hret, -⟩ := readSamples_spec r 160
  omega

theorem block_data {r : WavReader} {k : ℕ} (h : wholeBlocks r = k + 1) :
    (samplesOf (r.file_handle_.take (2 * kNumSamples))).length = 160 := by
  unfold wholeBlocks kNumSamples at h
  rw [length_samplesOf, List.length_take]
  unfold kNumSamples
  omega

/-- On an object that serves, the loop goes through all whole blocks and closes
the file. The induction is on their number, with the object, the reader and the
writer as the loop has them. -/
theorem loop_eq {buf : List UInt8} {k : ℕ} :
    ∀ {a : AudioProcessingImpl} {r : WavReader} {w : WavWriter},
      (∃ c, Shipped.Serving a.gain_control_ c) → wholeBlocks r = k →
        w.num_samples_ + kNumSamples * k < 2 ^ 64 →
    ∃ outs w', processAll a (blocks k r.file_handle_) = some outs ∧
      w.writeAll outs = some w' ∧
      loop buf a r w = some ⟨0, w'.close buf⟩ ∧ (∀ x ∈ outs.flatten, InI16 x) ∧
      total outs = kNumSamples * k := by
  induction k with
  | zero =>
    intro a r w _ hk _
    refine ⟨[], w, rfl, rfl, ?_, by simp, rfl⟩
    rw [loop, dif_neg (readSamples_end hk)]
  | succ k ih =>
    intro a r w ⟨c, hc⟩ hk hw
    rw [mul_add, mul_one] at hw
    obtain ⟨hret, hdata, hrest, hk'⟩ := readSamples_block hk
    have hrange := inI16_samplesOf (r.file_handle_.take (2 * kNumSamples))
    obtain ⟨h0, h1, c', -, -, hp, hs, x0, x1⟩ :=
      Shipped.processStream_serving hc ⟨_, block_data hk, hrange⟩
    dsimp only at hp
    have hval := congrArg Chk.val hp
    rw [Chk.val_pure] at hval
    have hout : ∀ x ∈ h0.audio ++ h1.audio, InI16 x := inI16_processStream hrange hval
    have hlen : (h0.audio ++ h1.audio).length = kNumSamples := by
      obtain ⟨_, -, x0⟩ := x0
      obtain ⟨_, -, x1⟩ := x1
      rw [List.length_append, x0.length, x1.length, StreamData.length_first,
        StreamData.length_second]
      rfl
    have hwrite : w.writeSamples (h0.audio ++ h1.audio) = some { w with
        num_samples_ := w.num_samples_ + kNumSamples
        file_handle_ := w.file_handle_ ++ WavWriter.sampleBytes (h0.audio ++ h1.audio) } := by
      unfold WavWriter.writeSamples
      dsimp only
      rw [hlen, Nat.mod_eq_of_lt (by omega), if_neg (by omega)]
    obtain ⟨outs, w', hall, hw', hloop, hin, htotal⟩ :=
      @ih ⟨h1.gc⟩ (r.readSamples kNumSamples).1 { w with
          num_samples_ := w.num_samples_ + kNumSamples
          file_handle_ := w.file_handle_ ++ WavWriter.sampleBytes (h0.audio ++ h1.audio) }
        ⟨c', hs⟩ hk' (by dsimp only; omega)
    refine ⟨(h0.audio ++ h1.audio) :: outs, w', ?_, ?_, ?_, ?_, ?_⟩
    · rw [blocks, processAll, hval]
      dsimp only
      rw [if_neg (not_not.mpr rfl), ← hrest, hall]
      rfl
    · rw [WavWriter.writeAll, hwrite, Option.bind_some, hw']
    · rw [loop, dif_pos hret, hdata, hval]
      dsimp only
      rw [if_neg (not_not.mpr rfl), hwrite]
      exact hloop
    · intro x hx
      rw [List.flatten_cons] at hx
      exact (List.mem_append.mp hx).elim (hout x) (hin x)
    · rw [total_cons, hlen, htotal, mul_add, mul_one, add_comm]

/-! ### The program on a file -/

/-- The payload of an accepted header with 16-bit samples. -/
theorem accepted_payload {input rest : List UInt8} {h : WavHeader} (hat : HeaderAt input h rest)
    (hok : (readWavHeader input).ok = true) (hwidth : h.bytesPerSample = 2) :
    2 * (h.data.Size / 2) ≤ 2 ^ 32 - 37 := by
  have hbits : h.fmt.BitsPerSample / 8 = 2 := hwidth
  rw [hat.read] at hok
  unfold parseHeader at hok
  dsimp only at hok
  rw [hbits, if_neg (by decide)] at hok
  unfold headerSane at hok
  dsimp only at hok
  -- only the last exit can be taken
  repeat
    split at hok
    · cases hok
  exact (checkWavParameters_iff.mp hok).payload

/-- For every file of 16-bit samples with a header that is accepted, and
whatever is in memory, the program returns 0. What it leaves is read back as
16-bit PCM at 8 kHz with one channel: the whole blocks of the input, each as
`ProcessStream` has left it, in order; the samples behind the last whole block
are dropped. -/
theorem program_output (mem : Memory) {input rest : List UInt8} {h : WavHeader}
    (hat : HeaderAt input h rest) (hok : (readWavHeader input).ok = true)
    (hwidth : h.bytesPerSample = 2) :
    ∃ outs file, processAll mem.apm
      (blocks (min (h.data.Size / 2) (rest.length / 2) / kNumSamples) rest) = some outs ∧
      main mem input = some ⟨0, file⟩ ∧
      readWavHeader file = ⟨true, some 1, some 8000, some .kWavFormatPcm, some 2,
        some (kNumSamples * (min (h.data.Size / 2) (rest.length / 2) / kNumSamples)),
        WavWriter.sampleBytes outs.flatten⟩ ∧
      samplesOf (readWavHeader file).rest = outs.flatten := by
  obtain ⟨hremaining, hfile⟩ := new_spec hat (by omega) mem.reader
  have hpayload := accepted_payload hat hok hwidth
  generalize hk : min (h.data.Size / 2) (rest.length / 2) / kNumSamples = k
  have hblocks : wholeBlocks (WavReader.new mem.reader input) = k := by
    rw [wholeBlocks, hremaining, hfile, hwidth, hk]
  have hfits : 2 * (kNumSamples * k) ≤ 2 ^ 32 - 37 := by
    rw [← hk]
    unfold kNumSamples
    omega
  have hopen : WavWriter.new 8000 1 = some ⟨8000, 1, 0, List.replicate kWavHeaderSize 0⟩ := by
    rw [WavWriter.new, if_neg (not_not.mpr (by decide))]
  obtain ⟨outs, w, hall, hw, hloop, hin, htotal⟩ :=
    @loop_eq mem.header k mem.apm (WavReader.new mem.reader input)
    ⟨8000, 1, 0, List.replicate kWavHeaderSize 0⟩ (Shipped.serving_shipped _ _ _ _) hblocks
      (by dsimp only; omega)
  rw [writeAll_eq outs _ (by dsimp only; omega), htotal] at hw
  obtain rfl := Option.some.inj hw
  have haccepted : Accepted 1 8000 kWavFormat kBytesPerSample (0 + kNumSamples * k) :=
    (accepted_total_iff (checkWavParameters_iff.mp (by decide))).mpr ⟨Nat.mod_one _, by omega⟩
  have hread := read_close (w := ⟨8000, 1, 0 + kNumSamples * k,
    List.replicate kWavHeaderSize 0 ++ WavWriter.sampleBytes outs.flatten⟩)
    (show InI32 8000 by decide) haccepted mem.length_header
  rw [hfile] at hall
  dsimp only at hread
  rw [List.drop_left' List.length_replicate, Nat.zero_add] at hread
  refine ⟨outs, _, hall, ?_, hread, ?_⟩
  · rw [main, hopen, Option.bind_some, hloop, Nat.zero_add]
  · rw [hread]
    exact samplesOf_sampleBytes hin

theorem headerAt_bytes {h : WavHeader} (hf : h.Fits) (hs : h.fmt.header.Size = kFmtSubchunkSize)
    (rest : List UInt8) : HeaderAt (h.bytes ++ rest) h rest := by
  have hat := @HeaderAt.plain h.riffFmtBytes h.dataBytes rest h.length_riffFmtBytes
    h.length_dataBytes
    ((fieldAt_fmtSize hf).trans hs)
  rw [WavHeader.ofBytes_bytes hf] at hat
  rwa [WavHeader.bytes, List.append_assoc]

/-- A file of 161 samples: one block is processed, and a sample is dropped. -/
theorem program_output_one_block :
    ∃ outs file,
      processAll (Memory.apm ⟨.cleared, .cleared, 0, 0, ⟨0, 0, 0, 0, []⟩,
        List.replicate kWavHeaderSize 7, rfl⟩)
        (blocks 1 (List.replicate 322 1)) = some outs ∧
      main ⟨.cleared, .cleared, 0, 0, ⟨0, 0, 0, 0, []⟩, List.replicate kWavHeaderSize 7,
        rfl⟩
        ((headerOf 1 8000 .kWavFormatPcm 2 161).bytes ++ List.replicate 322 1) =
          some ⟨0, file⟩ ∧
      readWavHeader file = ⟨true, some 1, some 8000, some .kWavFormatPcm, some 2, some 160,
        WavWriter.sampleBytes outs.flatten⟩ ∧
      samplesOf (readWavHeader file).rest = outs.flatten := by
  have hk : min ((headerOf 1 8000 .kWavFormatPcm 2 161).data.Size / 2)
      ((List.replicate 322 (1 : UInt8)).length / 2) / kNumSamples = 1 := by
    rw [List.length_replicate]
    decide
  have hat := headerAt_bytes (fits_headerOf 1 8000 .kWavFormatPcm 2 161) rfl (List.replicate 322 1)
  have hout := program_output ⟨.cleared, .cleared, 0, 0, ⟨0, 0, 0, 0, []⟩,
    List.replicate kWavHeaderSize 7, rfl⟩ hat
    (by decide +kernel) (by decide)
  rw [hk] at hout
  exact hout

end Program
end AgcSpec
