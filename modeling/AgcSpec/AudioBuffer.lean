/-
# The audio buffer and its cached mix

`AudioBuffer` of `audio_buffer.cc`: the samples of a frame, full band and split
into bands, and the mix of the low band of all channels that
`mixed_low_pass_data` computes when it is asked for and keeps with a flag.
Every accessor that gives write access clears the flag. Splitting into bands
and changing the number of channels do not, so a mix from before is returned
after them (`mixedLowPassData_moves`, `mix_stale`). In the runs that do neither
while a mix is kept the mix is the average of the current low band over the
current channels (`mix_coherent`).

A pointer into the buffer is written through before the next call: an accessor
comes with the list of its writes. The channels, bands and samples that a call
and its writes name have to be there: more channels than were allocated, a band
past the last one, or a null pointer that is used put the flag of the call down,
and such a call is not part of a run. The key sounds, the voice
activity and the copy of the low band for reference have no part in this and
are left out, as are the calls that only give the frame out again.
-/
import AgcSpec.SplittingFilter
import AgcSpec.Lib.Run

namespace AgcSpec

open FixedPoint Runs

/-! ### The class -/

/-- The constants of an `AudioBuffer`. -/
structure Format where
  input_num_frames_ : ℕ
  num_input_channels_ : ℕ
  proc_num_frames_ : ℕ
  num_proc_channels_ : ℕ

/-- `NumBandsFromSamplesPerChannel`. -/
def numBandsFromSamplesPerChannel (num_frames : ℕ) : ℕ :=
  if num_frames = 320 ∨ num_frames = 480 then num_frames / 160 else 1

namespace Format

def num_bands_ (f : Format) : ℕ := numBandsFromSamplesPerChannel f.proc_num_frames_
def num_split_frames_ (f : Format) : ℕ := f.proc_num_frames_ / f.num_bands_

end Format

/-- `AudioBuffer`. -/
structure AudioBuffer (F R B : Type) (f : Format) where
  num_channels_ : ℕ
  mixed_low_pass_valid_ : Bool
  data_ : IFChannelBuffer Sample F f.proc_num_frames_ f.num_proc_channels_ 1
  split_data_ : Option
    (IFChannelBuffer Sample F f.proc_num_frames_ f.num_proc_channels_ f.num_bands_)
  splitting_filter_ : Option (SplittingFilter B)
  mixed_low_pass_channels_ : Option (ChannelBuffer Sample f.num_split_frames_ 1 1)
  input_buffer_ : Option (IFChannelBuffer Sample F f.input_num_frames_ f.num_proc_channels_ 1)
  input_resamplers_ : List R

namespace AudioBuffer

variable {F R B : Type} {f : Format} (ops : FloatOps F R B)

/-- The constructor. -/
def new [Zero F] (f : Format) : AudioBuffer F R B f where
  num_channels_ := f.num_proc_channels_
  mixed_low_pass_valid_ := false
  data_ := .new Sample F _ _ _
  split_data_ := if 1 < f.num_bands_ then some (.new Sample F _ _ _) else none
  splitting_filter_ :=
    if 1 < f.num_bands_ then some (.new ops f.num_proc_channels_ f.num_bands_ f.proc_num_frames_)
    else none
  mixed_low_pass_channels_ := none
  input_buffer_ := none
  input_resamplers_ :=
    if f.input_num_frames_ ≠ f.proc_num_frames_ then
      List.replicate f.num_proc_channels_ (ops.newResampler f.input_num_frames_ f.proc_num_frames_)
    else []

/-- `set_num_channels`. -/
def setNumChannels (a : AudioBuffer F R B f) (n : ℕ) : AudioBuffer F R B f :=
  { a with
    num_channels_ := n
    data_ := a.data_.setNumChannels n
    split_data_ := a.split_data_.map (·.setNumChannels n) }

/-- `InitForNewData`. -/
def initForNewData (a : AudioBuffer F R B f) : AudioBuffer F R B f :=
  { a.setNumChannels f.num_proc_channels_ with mixed_low_pass_valid_ := false }

/-- The input resamplers, each over its channel. -/
def resampleAll (resamplers : List R) (src : ℕ → List F) (num_frames : ℕ) :
    List (List F × R) :=
  resamplers.zipIdx.map fun r => ops.resample r.1 (src r.2) num_frames

/-- `CopyFrom`. -/
def copyFrom [Zero F] (a : AudioBuffer F R B f) (data : List (List F)) : AudioBuffer F R B f :=
  let a := a.initForNewData
  let need_to_downmix := 1 < f.num_input_channels_ ∧ f.num_proc_channels_ = 1
  let mixed := ((a.input_buffer_.getD (.new Sample F _ _ _)).writeRowF ops.i2f 0
    (ops.downmixToMono data f.input_num_frames_ f.num_input_channels_)).fbufConst ops.i2f
  let src : ℕ → List F := fun i =>
    if need_to_downmix then mixed.fbuf_.row (mixed.fbuf_.start 0 i) f.input_num_frames_
    else data.getD i []
  let resampled := resampleAll ops a.input_resamplers_ src f.proc_num_frames_
  let src : ℕ → List F := fun i =>
    if f.input_num_frames_ ≠ f.proc_num_frames_ then (resampled.map Prod.fst).getD i [] else src i
  { a with
    input_buffer_ := if need_to_downmix then some mixed else a.input_buffer_
    input_resamplers_ :=
      if f.input_num_frames_ ≠ f.proc_num_frames_ then resampled.map Prod.snd
      else a.input_resamplers_
    data_ := (List.range f.num_proc_channels_).foldl
      (fun b i => b.writeRowF ops.i2f (b.fbuf_.start 0 i)
        (((src i).take f.proc_num_frames_).map ops.floatToFloatS16)) a.data_ }

/-- `DeinterleaveFrom`. -/
def deinterleaveFrom [Zero F] (a : AudioBuffer F R B f) (frame : List Sample) :
    AudioBuffer F R B f :=
  let a := a.initForNewData
  let deinterleaved : ℕ → List Sample := fun i =>
    if f.num_proc_channels_ = 1
      then (downmixInterleavedToMono frame f.input_num_frames_ f.num_input_channels_).val
    else deinterleave frame f.input_num_frames_ f.num_proc_channels_ i
  if f.input_num_frames_ = f.proc_num_frames_ then
    { a with data_ := (List.range f.num_proc_channels_).foldl (fun b i =>
        b.writeRowI ops.f2i (b.ibuf_.start 0 i) (deinterleaved i)) a.data_ }
  else
    let input := ((List.range f.num_proc_channels_).foldl (fun b i =>
      b.writeRowI ops.f2i (b.ibuf_.start 0 i) (deinterleaved i))
        (a.input_buffer_.getD (.new Sample F _ _ _))).fbufConst ops.i2f
    let resampled := resampleAll ops a.input_resamplers_
      (fun i => input.fbuf_.row (input.fbuf_.start 0 i) f.input_num_frames_) f.proc_num_frames_
    { a with
      input_buffer_ := some input
      input_resamplers_ := resampled.map Prod.snd
      data_ := resampled.zipIdx.foldl (fun b r => b.writeRowF ops.i2f (b.fbuf_.start 0 r.2) r.1.1)
        a.data_ }

/-- `SplitIntoFrequencyBands`. -/
def splitIntoFrequencyBands (a : AudioBuffer F R B f) : Chk (AudioBuffer F R B f) :=
  match a.splitting_filter_, a.split_data_ with
  | some filter, some split =>
    let r := filter.analysis ops ⟨a.data_, split⟩
    pure { a with splitting_filter_ := some r.1, data_ := r.2.data, split_data_ := some r.2.bands }
  | _, _ => flag False a

/-- `MergeFrequencyBands`. -/
def mergeFrequencyBands (a : AudioBuffer F R B f) : Chk (AudioBuffer F R B f) :=
  match a.splitting_filter_, a.split_data_ with
  | some filter, some split =>
    let r := filter.synthesis ops ⟨a.data_, split⟩
    pure { a with splitting_filter_ := some r.1, data_ := r.2.data, split_data_ := some r.2.bands }
  | _, _ => flag False a

/-! ### Accessors -/

/-- Write access to the full band, and what is written. -/
def accessData (a : AudioBuffer F R B f) (op : Views.Op Sample F) : AudioBuffer F R B f :=
  { a with mixed_low_pass_valid_ := false, data_ := op.run ops.i2f ops.f2i a.data_ }

/-- Write access to the bands, or to the full band if there are none. The place
of a band of a channel depends on the number of bands. -/
def accessSplit (a : AudioBuffer F R B f) (op : ℕ → Views.Op Sample F) : AudioBuffer F R B f :=
  match a.split_data_ with
  | some split =>
    { a with
      mixed_low_pass_valid_ := false
      split_data_ := some ((op f.num_bands_).run ops.i2f ops.f2i split) }
  | none => accessData ops a (op 1)

/-- The bands that `split_data_` has, or the one band of `data_`. -/
def numBands (a : AudioBuffer F R B f) : ℕ := if a.split_data_.isSome then f.num_bands_ else 1

/-- Write access to one band of all channels: null if there are no bands and it
is not the lowest, and then nothing can be written. -/
def accessBand (a : AudioBuffer F R B f) (band : ℕ) (idle : Prop) [Decidable idle]
    (op : ℕ → Views.Op Sample F) : Chk (AudioBuffer F R B f) :=
  if a.split_data_.isSome ∨ band = 0 then flag (band < a.numBands) (accessSplit ops a op)
  else flag idle { a with mixed_low_pass_valid_ := false }

/-- The writes `(i, j, v)` of the value `v` to the sample `j` of the row `i`, for
rows that start at the given places. -/
def toCells {T : Type} (start : ℕ → ℕ) (ws : List (ℕ × ℕ × T)) : List (ℕ × T) :=
  ws.map fun w => (start w.1 + w.2.1, w.2.2)

/-- The place of a band of a channel in a buffer with that many bands. -/
def place (f : Format) (bands band channel : ℕ) : ℕ :=
  channel * f.proc_num_frames_ + band * (f.proc_num_frames_ / bands)

/-- The buffer, if all writes are to rows and samples that there are. -/
def within {T : Type} (rows samples : ℕ) (ws : List (ℕ × ℕ × T)) (a : AudioBuffer F R B f) :
    Chk (AudioBuffer F R B f) :=
  flag (∀ w ∈ ws, w.1 < rows ∧ w.2.1 < samples) a

/-- The buffer, if all writes are to cells of the array. -/
def inArray {T : Type} (ws : List (ℕ × T)) (a : AudioBuffer F R B f) :
    Chk (AudioBuffer F R B f) :=
  flag (∀ w ∈ ws, w.1 < f.proc_num_frames_ * f.num_proc_channels_) a

variable (a : AudioBuffer F R B f)

def channels (ws : List (ℕ × ℕ × Sample)) : Chk (AudioBuffer F R B f) :=
  within f.num_proc_channels_ f.proc_num_frames_ ws
    (accessData ops a (.ibuf (toCells (place f 1 0) ws)))
def channelsF (ws : List (ℕ × ℕ × F)) : Chk (AudioBuffer F R B f) :=
  within f.num_proc_channels_ f.proc_num_frames_ ws
    (accessData ops a (.fbuf (toCells (place f 1 0) ws)))

def data (ws : List (ℕ × Sample)) : Chk (AudioBuffer F R B f) :=
  inArray ws (accessData ops a (.ibuf ws))
def dataF (ws : List (ℕ × F)) : Chk (AudioBuffer F R B f) :=
  inArray ws (accessData ops a (.fbuf ws))

def splitData (ws : List (ℕ × Sample)) : Chk (AudioBuffer F R B f) :=
  inArray ws (accessSplit ops a fun _ => .ibuf ws)
def splitDataF (ws : List (ℕ × F)) : Chk (AudioBuffer F R B f) :=
  inArray ws (accessSplit ops a fun _ => .fbuf ws)

/-- The bands of one channel, which has to be one of the current ones. -/
def splitBands (channel : ℕ) (ws : List (ℕ × ℕ × Sample)) : Chk (AudioBuffer F R B f) := do
  let a ← flag (channel < a.num_channels_) a
  within a.numBands (f.proc_num_frames_ / a.numBands) ws
    (accessSplit ops a fun bands => .ibuf (toCells (fun band => place f bands band channel) ws))
def splitBandsF (channel : ℕ) (ws : List (ℕ × ℕ × F)) : Chk (AudioBuffer F R B f) := do
  let a ← flag (channel < a.num_channels_) a
  within a.numBands (f.proc_num_frames_ / a.numBands) ws
    (accessSplit ops a fun bands => .fbuf (toCells (fun band => place f bands band channel) ws))

/-- A band of all channels. -/
def splitChannels (band : ℕ) (ws : List (ℕ × ℕ × Sample)) : Chk (AudioBuffer F R B f) := do
  let b ← accessBand ops a band (ws.length = 0) fun bands =>
    .ibuf (toCells (place f bands band) ws)
  within f.num_proc_channels_ (f.proc_num_frames_ / a.numBands) ws b
def splitChannelsF (band : ℕ) (ws : List (ℕ × ℕ × F)) : Chk (AudioBuffer F R B f) := do
  let b ← accessBand ops a band (ws.length = 0) fun bands =>
    .fbuf (toCells (place f bands band) ws)
  within f.num_proc_channels_ (f.proc_num_frames_ / a.numBands) ws b

/-- `split_channels_const(kBand0To8kHz)`: the low band of each channel; reading
it may refresh it. -/
def splitChannelsConst : (ℕ → List Sample) × AudioBuffer F R B f :=
  match a.split_data_ with
  | some split =>
    let split := split.ibufConst ops.f2i
    (fun i => split.ibuf_.row (split.ibuf_.start 0 i) f.num_split_frames_,
      { a with split_data_ := some split })
  | none =>
    let data := a.data_.ibufConst ops.f2i
    (fun i => data.ibuf_.row (data.ibuf_.start 0 i) f.num_split_frames_, { a with data_ := data })

/-- `mixed_low_pass_data`: the mix, and the buffer with the mix kept. -/
def mixedLowPassData : Chk (List Sample × AudioBuffer F R B f) :=
  if f.num_proc_channels_ = 1 then
    let low := splitChannelsConst ops a
    pure (low.1 0, low.2)
  else if ¬ a.mixed_low_pass_valid_ then do
    let low := splitChannelsConst ops a
    let mix ← downmixToMono low.1 f.num_split_frames_ a.num_channels_
    let m := (a.mixed_low_pass_channels_.getD (.new Sample _ _ _)).writeRow 0 mix
    pure (m.row 0 f.num_split_frames_,
      { low.2 with mixed_low_pass_channels_ := some m, mixed_low_pass_valid_ := true })
  else
    match a.mixed_low_pass_channels_ with
    | some m => pure (m.row 0 f.num_split_frames_, a)
    | none => flag False ([], a)

end AudioBuffer

/-! ### Runs -/

namespace Mixing

variable {F R B : Type} {f : Format}

/-- A call, with what is written through the pointer it returns. -/
inductive Op (F : Type) where
  | copyFrom (src : List (List F))
  | deinterleaveFrom (frame : List Sample)
  | splitIntoFrequencyBands
  | mergeFrequencyBands
  | setNumChannels (n : ℕ)
  | channels (ws : List (ℕ × ℕ × Sample))
  | channelsF (ws : List (ℕ × ℕ × F))
  | data (ws : List (ℕ × Sample))
  | dataF (ws : List (ℕ × F))
  | splitData (ws : List (ℕ × Sample))
  | splitDataF (ws : List (ℕ × F))
  | splitBands (channel : ℕ) (ws : List (ℕ × ℕ × Sample))
  | splitBandsF (channel : ℕ) (ws : List (ℕ × ℕ × F))
  | splitChannels (band : ℕ) (ws : List (ℕ × ℕ × Sample))
  | splitChannelsF (band : ℕ) (ws : List (ℕ × ℕ × F))
  | mixedLowPassData

/-- The buffer after a call. -/
def Op.run [Zero F] (ops : FloatOps F R B) (a : AudioBuffer F R B f) :
    Op F → Chk (AudioBuffer F R B f)
  | .copyFrom src => pure (a.copyFrom ops src)
  | .deinterleaveFrom frame => pure (a.deinterleaveFrom ops frame)
  | .splitIntoFrequencyBands => a.splitIntoFrequencyBands ops
  | .mergeFrequencyBands => a.mergeFrequencyBands ops
  | .setNumChannels n => flag (n ≤ f.num_proc_channels_) (a.setNumChannels n)
  | .channels ws => a.channels ops ws
  | .channelsF ws => a.channelsF ops ws
  | .data ws => a.data ops ws
  | .dataF ws => a.dataF ops ws
  | .splitData ws => a.splitData ops ws
  | .splitDataF ws => a.splitDataF ops ws
  | .splitBands channel ws => a.splitBands ops channel ws
  | .splitBandsF channel ws => a.splitBandsF ops channel ws
  | .splitChannels band ws => a.splitChannels ops band ws
  | .splitChannelsF band ws => a.splitChannelsF ops band ws
  | .mixedLowPassData => do
    let r ← a.mixedLowPassData ops
    pure r.2

/-- A call that goes through. -/
def Step [Zero F] (ops : FloatOps F R B) (a : AudioBuffer F R B f) (op : Op F)
    (a' : AudioBuffer F R B f) : Prop :=
  op.run ops a = pure a'

theorem step_of_ok [Zero F] {ops : FloatOps F R B} {a : AudioBuffer F R B f} {op : Op F}
    (h : (op.run ops a).ok = true) :
    Step ops a op (op.run ops a).val := Chk.eq_pure rfl h

/-- The two calls that change the low band or the channels and leave the flag. -/
def Op.Moves : Op F → Prop
  | .splitIntoFrequencyBands => True
  | .setNumChannels _ => True
  | _ => False

/-! ### The mix that is kept -/

section

variable {ops : FloatOps F R B} {a a' : AudioBuffer F R B f}

/-- The low band of each channel. -/
def lowBand (ops : FloatOps F R B) (a : AudioBuffer F R B f) : ℕ → List Sample :=
  (a.splitChannelsConst ops).1

/-- The channels are allocated, the buffers up to date in one of their forms, and
a mix that is kept is the mix of the low band. -/
structure Coherent (ops : FloatOps F R B) (a : AudioBuffer F R B f) : Prop where
  allocated : a.num_channels_ ≤ f.num_proc_channels_
  data : a.data_.Valid
  split : ∀ s, a.split_data_ = some s → s.Valid
  kept : a.mixed_low_pass_valid_ = true → ∃ m mix, a.mixed_low_pass_channels_ = some m ∧
    downmixToMono (lowBand ops a) f.num_split_frames_ a.num_channels_ = pure mix ∧
      m.row 0 f.num_split_frames_ = mix

theorem coherent_of_cleared (hn : a.num_channels_ ≤ f.num_proc_channels_) (hdata : a.data_.Valid)
    (hsplit : ∀ s, a.split_data_ = some s → s.Valid)
    (hflag : a.mixed_low_pass_valid_ = false) : Coherent ops a :=
  ⟨hn, hdata, hsplit, fun h => by rw [hflag] at h; cases h⟩

theorem coherent_new [Zero F] : Coherent ops (.new ops f) := by
  refine coherent_of_cleared le_rfl (.inl rfl) (fun s hs => ?_) rfl
  simp only [AudioBuffer.new] at hs
  split at hs
  · cases hs
    exact .inl rfl
  · cases hs

theorem valid_setNumChannels (h : Coherent ops a) (n : ℕ) (s)
    (hs : (a.setNumChannels n).split_data_ = some s) : s.Valid := by
  obtain ⟨s', hs', rfl⟩ := Option.map_eq_some_iff.mp hs
  exact h.split s' hs'

theorem coherent_copyFrom [Zero F] (h : Coherent ops a) (src : List (List F)) :
    Coherent ops (a.copyFrom ops src) :=
  coherent_of_cleared le_rfl (SplittingFilter.valid_writeRowsF _ _ _ h.data)
    (valid_setNumChannels h _) rfl

theorem coherent_deinterleaveFrom [Zero F] (h : Coherent ops a) (frame : List Sample) :
    Coherent ops (a.deinterleaveFrom ops frame) := by
  rw [AudioBuffer.deinterleaveFrom]
  split
  · exact coherent_of_cleared le_rfl (SplittingFilter.valid_writeRowsI _ _ _ h.data)
      (valid_setNumChannels h _) rfl
  · exact coherent_of_cleared le_rfl (SplittingFilter.valid_writeRowsF _ _ _ h.data)
      (valid_setNumChannels h _) rfl

theorem coherent_accessData (h : Coherent ops a) (op : Views.Op Sample F) :
    Coherent ops (a.accessData ops op) :=
  coherent_of_cleared h.allocated (Views.valid_run h.data op) h.split rfl

theorem coherent_accessSplit (h : Coherent ops a) (op : ℕ → Views.Op Sample F) :
    Coherent ops (a.accessSplit ops op) := by
  rw [AudioBuffer.accessSplit]
  split
  · rename_i split hs
    refine coherent_of_cleared h.allocated h.data (fun s hs' => ?_) rfl
    cases hs'
    exact Views.valid_run (h.split split hs) _
  · exact coherent_accessData h _

theorem coherent_accessBand (h : Coherent ops a) (band : ℕ) (idle : Prop) [Decidable idle]
    (op : ℕ → Views.Op Sample F) : Coherent ops (a.accessBand ops band idle op).val := by
  rw [AudioBuffer.accessBand]
  split
  · exact coherent_accessSplit h op
  · exact coherent_of_cleared h.allocated h.data h.split rfl

/-- A split changes the low band: what is kept has to be gone before. -/
theorem coherent_split (h : Coherent ops a) (hflag : a.mixed_low_pass_valid_ = false) :
    Coherent ops (a.splitIntoFrequencyBands ops).val := by
  rw [AudioBuffer.splitIntoFrequencyBands]
  split
  · rename_i filter split hfilter hs
    have hviews := filter.analysis_views ops ⟨a.data_, split⟩
    refine coherent_of_cleared h.allocated (hviews.1 h.data).1 (fun s hs' => ?_) hflag
    cases hs'
    exact hviews.2 (h.split split hs)
  · exact h

theorem lowBand_of_some {s} (hs : a.split_data_ = some s) : lowBand ops a =
    fun i => (s.intView ops.f2i).row ((s.intView ops.f2i).start 0 i) f.num_split_frames_ := by
  simp only [lowBand, AudioBuffer.splitChannelsConst, hs]
  rfl

theorem lowBand_of_none (hs : a.split_data_ = none) : lowBand ops a =
    fun i => (a.data_.intView ops.f2i).row ((a.data_.intView ops.f2i).start 0 i)
      f.num_split_frames_ := by
  simp only [lowBand, AudioBuffer.splitChannelsConst, hs]
  rfl

theorem lowBand_congr (hdata : a'.data_ = a.data_) (hsplit : a'.split_data_ = a.split_data_) :
    lowBand ops a' = lowBand ops a := by
  cases hs : a.split_data_ with
  | some s => rw [lowBand_of_some hs, lowBand_of_some (hsplit.trans hs)]
  | none => rw [lowBand_of_none hs, lowBand_of_none (hsplit.trans hs), hdata]

theorem coherent_merge (h : Coherent ops a) : Coherent ops (a.mergeFrequencyBands ops).val := by
  rw [AudioBuffer.mergeFrequencyBands]
  split
  · rename_i filter split hfilter hs
    have hviews := filter.synthesis_views ops ⟨a.data_, split⟩
    obtain ⟨hvalid, hsame⟩ := hviews.1 (h.split split hs)
    refine ⟨h.allocated, hviews.2 h.data, fun s hs' => ?_, fun hkept => ?_⟩
    · cases hs'
      exact hvalid
    · obtain ⟨m, mix, hm, hmix, hrow⟩ := h.kept hkept
      refine ⟨m, mix, hm, ?_, hrow⟩
      rw [Chk.val_pure, lowBand_of_some rfl, hsame, ← lowBand_of_some hs]
      exact hmix
  · exact h

/-- Reading the low band leaves it, with everything else. -/
theorem splitChannelsConst_same (h : Coherent ops a) :
    (a.splitChannelsConst ops).2.data_.Valid ∧
      (∀ s, (a.splitChannelsConst ops).2.split_data_ = some s → s.Valid) ∧
      lowBand ops (a.splitChannelsConst ops).2 = lowBand ops a ∧
      (a.splitChannelsConst ops).2.num_channels_ = a.num_channels_ := by
  cases hs : a.split_data_ with
  | some split =>
    have hread : (a.splitChannelsConst ops).2 =
        { a with split_data_ := some (split.ibufConst ops.f2i) } := by
      simp only [AudioBuffer.splitChannelsConst, hs]
    rw [hread]
    refine ⟨h.data, fun s hs' => ?_, ?_, rfl⟩
    · cases hs'
      exact IFChannelBuffer.valid_refreshI
    · rw [lowBand_of_some rfl, lowBand_of_some hs]
      exact congrArg (fun b : ChannelBuffer Sample _ _ _ => fun i =>
        b.row (b.start 0 i) f.num_split_frames_)
        IFChannelBuffer.intView_refreshI
  | none =>
    have hread : (a.splitChannelsConst ops).2 = { a with data_ := a.data_.ibufConst ops.f2i } := by
      simp only [AudioBuffer.splitChannelsConst, hs]
    rw [hread]
    refine ⟨IFChannelBuffer.valid_refreshI, fun s hs' => ?_, ?_, rfl⟩
    · have hnone : a.split_data_ = some s := hs'
      rw [hs] at hnone
      cases hnone
    · rw [lowBand_of_none (a := { a with data_ := a.data_.ibufConst ops.f2i }) hs,
        lowBand_of_none hs]
      exact congrArg (fun b : ChannelBuffer Sample _ _ _ => fun i =>
        b.row (b.start 0 i) f.num_split_frames_)
        IFChannelBuffer.intView_refreshI

/-- The mix that is returned is the mix of the low band, kept or not. -/
theorem mixedLowPassData_eq (hch : f.num_proc_channels_ ≠ 1) (h : Coherent ops a)
    {mix : List Sample}
    (hmix : downmixToMono (lowBand ops a) f.num_split_frames_ a.num_channels_ = pure mix) :
    ∃ a', a.mixedLowPassData ops = pure (mix, a') ∧ Coherent ops a' := by
  rw [AudioBuffer.mixedLowPassData, if_neg hch]
  by_cases hkept : a.mixed_low_pass_valid_ = true
  · obtain ⟨m, mix', hm, hmix', hrow⟩ := h.kept hkept
    have hsame : mix' = mix := congrArg Chk.val (hmix'.symm.trans hmix)
    simp only [if_neg (not_not.mpr hkept), hm, hrow, hsame]
    exact ⟨a, rfl, h⟩
  · obtain ⟨hdata, hsplit, hlow, hn⟩ := splitChannelsConst_same h
    have hlen : mix.length = f.num_split_frames_ := by
      rw [← length_downmixToMono (lowBand ops a) f.num_split_frames_ a.num_channels_, hmix,
        Chk.val_pure]
    have hrow := ChannelBuffer.row_writeRow (a.mixed_low_pass_channels_.getD (.new Sample _ _ _))
      hlen
    have hread : (a.splitChannelsConst ops).1 = lowBand ops a := rfl
    simp only [if_pos hkept, hread, hmix, pure_bind, hrow]
    refine ⟨_, rfl, hn.trans_le h.allocated, hdata, hsplit, fun _ =>
      ⟨_, mix, rfl, ?_, hrow⟩⟩
    rw [← hmix, ← hlow, ← hn]
    exact congrArg (downmixToMono · _ _) (lowBand_congr rfl rfl)

theorem exists_mix (hch : f.num_proc_channels_ ≠ 1) (h : Coherent ops a)
    (hok : (a.mixedLowPassData ops).ok = true) :
    ∃ mix, downmixToMono (lowBand ops a) f.num_split_frames_ a.num_channels_ = pure mix := by
  by_cases hkept : a.mixed_low_pass_valid_ = true
  · obtain ⟨_, mix, _, hmix, _⟩ := h.kept hkept
    exact ⟨mix, hmix⟩
  · rw [AudioBuffer.mixedLowPassData, if_neg hch, if_pos hkept, Chk.ok_bind, Bool.and_eq_true]
      at hok
    exact ⟨_, Chk.eq_pure rfl hok.1⟩

/-- A call keeps coherence, if it is not one of the two that move things under
a mix that is kept. -/
theorem coherent_step [Zero F] (hch : f.num_proc_channels_ ≠ 1) {op : Op F} (h : Coherent ops a)
    (hclean : op.Moves → a.mixed_low_pass_valid_ = false) (hstep : Step ops a op a') :
    Coherent ops a' := by
  have hval : a' = (op.run ops a).val := by rw [hstep]; rfl
  cases op with
  | copyFrom src => exact hval ▸ coherent_copyFrom h src
  | deinterleaveFrom frame => exact hval ▸ coherent_deinterleaveFrom h frame
  | splitIntoFrequencyBands => exact hval ▸ coherent_split h (hclean trivial)
  | mergeFrequencyBands => exact hval ▸ coherent_merge h
  | setNumChannels n =>
    have hn : n ≤ f.num_proc_channels_ := of_decide_eq_true (congrArg Chk.ok hstep)
    exact hval ▸ coherent_of_cleared hn h.data (valid_setNumChannels h n) (hclean trivial)
  | channels ws => exact hval ▸ coherent_accessData h _
  | channelsF ws => exact hval ▸ coherent_accessData h _
  | data ws => exact hval ▸ coherent_accessData h _
  | dataF ws => exact hval ▸ coherent_accessData h _
  | splitData ws => exact hval ▸ coherent_accessSplit h fun _ => .ibuf ws
  | splitDataF ws => exact hval ▸ coherent_accessSplit h fun _ => .fbuf ws
  | splitBands channel ws =>
    exact hval ▸ coherent_accessSplit h fun bands =>
      .ibuf (AudioBuffer.toCells (AudioBuffer.place f bands · channel) ws)
  | splitBandsF channel ws =>
    exact hval ▸ coherent_accessSplit h fun bands =>
      .fbuf (AudioBuffer.toCells (AudioBuffer.place f bands · channel) ws)
  | splitChannels band ws => exact hval ▸ coherent_accessBand h band (ws.length = 0) _
  | splitChannelsF band ws => exact hval ▸ coherent_accessBand h band (ws.length = 0) _
  | mixedLowPassData =>
    have hok : (a.mixedLowPassData ops >>= fun r => pure r.2).ok = true := congrArg Chk.ok hstep
    obtain ⟨mix, hmix⟩ := exists_mix hch h (Bool.and_eq_true _ _ ▸ hok).1
    obtain ⟨b, hb, hcoherent⟩ := mixedLowPassData_eq hch h hmix
    have hsame : a' = b := by rw [hval, Op.run, hb, pure_bind, Chk.val_pure]
    exact hsame ▸ hcoherent

/-- What those two calls do to the low band or to the channels is not seen: the
mix that was kept is returned again. -/
theorem mixedLowPassData_moves [Zero F] (hch : f.num_proc_channels_ ≠ 1)
    (hkept : a.mixed_low_pass_valid_ = true) {op : Op F} (hop : op.Moves)
    (hstep : Step ops a op a') :
    (a'.mixedLowPassData ops).val.1 = (a.mixedLowPassData ops).val.1 := by
  have hval : a' = (op.run ops a).val := by rw [hstep]; rfl
  have hsame : a'.mixed_low_pass_valid_ = a.mixed_low_pass_valid_ ∧
      a'.mixed_low_pass_channels_ = a.mixed_low_pass_channels_ := by
    cases op with
    | splitIntoFrequencyBands =>
      rw [hval, Op.run, AudioBuffer.splitIntoFrequencyBands]
      split <;> exact ⟨rfl, rfl⟩
    | setNumChannels n =>
      rw [hval]
      exact ⟨rfl, rfl⟩
    | _ => cases hop
  simp only [AudioBuffer.mixedLowPassData, if_neg hch, hsame.1, hsame.2, hkept,
    not_true_eq_false, if_false]
  split <;> rfl

end

/-- In every run that neither splits nor changes the number of channels while a
mix is kept, the channels are allocated and `mixed_low_pass_data` returns the
average of the low band over them. -/
theorem mix_coherent [Zero F] (ops : FloatOps F R B) {f : Format} (hch : 2 ≤ f.num_proc_channels_)
    {es : List (Op F)} {a : AudioBuffer F R B f} (hrun : Run (Step ops) (.new ops f) es a)
    (hclean : EveryStep (Step ops) (AudioBuffer.new ops f) es fun b op => op.Moves →
      b.mixed_low_pass_valid_ = false)
    (hpos : 0 < a.num_channels_) (hmax : a.num_channels_ ≤ 65536) :
    a.num_channels_ ≤ f.num_proc_channels_ ∧ ∃ mix a',
      a.mixedLowPassData ops = pure (mix, a') ∧
      mix.map Subtype.val = (List.range f.num_split_frames_).map fun i =>
        mean ((List.range a.num_channels_).map fun j =>
          ((a.splitChannelsConst ops).1 j).getD i 0) := by
  have hne : f.num_proc_channels_ ≠ 1 := by omega
  have hcoherent : Coherent ops a := hrun.invariant_of_everyStep hclean coherent_new
    fun _ _ _ h hop hstep => coherent_step hne h hop hstep
  obtain ⟨mix, hmix, hmean⟩ := downmixToMono_eq (lowBand ops a) f.num_split_frames_ hpos hmax
  obtain ⟨a', ha', _⟩ := mixedLowPassData_eq hne hcoherent hmix
  exact ⟨hcoherent.allocated, mix, a', ha', hmean⟩

/-- Floats that are samples, with nothing done to them. -/
def plainOps : FloatOps Sample Unit Unit where
  i2f := id
  f2i := id
  floatToFloatS16 := id
  downmixToMono data _ _ := data.headD []
  newResampler _ _ := ()
  resample _ src _ := (src, ())
  newBank _ := ()
  analysis _ src := ([src, src, src], ())
  synthesis _ split := (split.headD [], ())

/-- Two channels of one sample, 2 and 0. -/
def twoAndZero : Op Sample := .channels [(0, 0, ⟨2, by decide⟩), (1, 0, 0)]

/-- The buffer with them, and without a mix. -/
theorem mix_coherent_two :
    ∃ (a : AudioBuffer Sample Unit Unit ⟨1, 2, 1, 2⟩) (mix : List Sample) (a' : _),
      Run (Step plainOps) (.new plainOps ⟨1, 2, 1, 2⟩) [twoAndZero] a ∧
      a.mixedLowPassData plainOps = pure (mix, a') ∧
      mix.map Subtype.val = [1] := by
  have hrun : Run (Step plainOps) (.new plainOps ⟨1, 2, 1, 2⟩) [twoAndZero] _ := .one rfl
  have hclean : EveryStep (Step plainOps) (AudioBuffer.new plainOps ⟨1, 2, 1, 2⟩) [twoAndZero]
      fun b op => op.Moves → b.mixed_low_pass_valid_ = false := by
    intro pre op t hpre _ hmoves
    have hop : op = twoAndZero := List.mem_singleton.mp (hpre.subset (by simp))
    subst hop
    cases hmoves
  obtain ⟨-, mix, a', hmix, hmean⟩ :=
    mix_coherent plainOps (by decide) hrun hclean (by decide) (by decide)
  exact ⟨_, mix, a', hrun, hmix, hmean⟩

/-- The mix of two channels is returned for one of them. -/
theorem mix_stale : ∃ a : AudioBuffer Sample Unit Unit ⟨1, 2, 1, 2⟩,
    Run (Step plainOps) (.new plainOps ⟨1, 2, 1, 2⟩) [twoAndZero, .mixedLowPassData,
      .setNumChannels 1] a ∧ a.num_channels_ = 1 ∧
        ((a.splitChannelsConst plainOps).1 0).map Subtype.val = [2] ∧
      (a.mixedLowPassData plainOps).ok = true ∧
        (a.mixedLowPassData plainOps).val.1.map Subtype.val = [1] := by
  have h1 : Run (Step plainOps) (.new plainOps ⟨1, 2, 1, 2⟩) [twoAndZero] _ := .one rfl
  have h2 := h1.snoc (a := Op.mixedLowPassData) (step_of_ok rfl)
  have h3 := h2.snoc (a := Op.setNumChannels 1) (step_of_ok rfl)
  exact ⟨_, h3, rfl, rfl, rfl, by decide +kernel⟩

end Mixing
end AgcSpec
