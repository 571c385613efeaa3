/-
# The audio processing object

`GainControlImpl` of `gain_control_impl.cc` and `AudioProcessingImpl` of
`audio_processing_impl.cc`: the C++ layer that creates an AGC instance, pushes
the settings down to it and runs it on 20 ms of 8 kHz mono audio, in two
halves of 10 ms.

`new GainController()` allocates an instance; the contents of the fresh memory
are the parameter `mem` of the functions that do so. The pointer
`gain_controller_` is not initialised by the constructor: `none` is the
indeterminate pointer, and a function that would use it has no result. The
same `none` stands for a call of the digital stage that never returns.

The data pointer of `ProcessStream` is not null and `num_frames` is the length
of the data. `RemoveDCBias` is not called and `average_state_` not read; they
are left out.
-/
import AgcSpec.ProcessAnalog

namespace AgcSpec

open FixedPoint

/-! ### Errors and modes -/

def kNoError : Int := 0
def kUnspecifiedError : Int := -1
def kUnsupportedFunctionError : Int := -4
def kBadParameterError : Int := -6
def kNotEnabledError : Int := -12

/-- `GainControl::Mode`. -/
inductive Mode where
  | kAdaptiveAnalog
  | kAdaptiveDigital
  | kFixedDigital
deriving DecidableEq, Repr

/-- `MapSetting`. -/
def mapSetting : Mode → Int
  | .kAdaptiveAnalog => kAgcModeAdaptiveAnalog
  | .kAdaptiveDigital => kAgcModeAdaptiveDigital
  | .kFixedDigital => kAgcModeFixedDigital

/-! ### `GainController` -/

/-- `GainControlImpl::GainController`. -/
structure GainController where
  state_ : LegacyAgc
  capture_level_ : Int

/-- `GainController::Initialize` on a new controller. The error of
`WebRtcAgc_Init` is dropped. -/
def GainController.initializeController (mem : LegacyAgc) (minimum maximum : Int) (mode : Mode)
    (sample_rate_hz capture_level : Int) : GainController :=
  ⟨(init (create mem) minimum maximum (mapSetting mode) sample_rate_hz).val.1, capture_level⟩

/-! ### `GainControlImpl` -/

/-- `GainControlImpl`. -/
structure GainControlImpl where
  enabled_ : Bool
  mode_ : Mode
  minimum_capture_level_ : Int
  maximum_capture_level_ : Int
  limiter_enabled_ : Bool
  target_level_dbfs_ : Int
  compression_gain_db_ : Int
  analog_capture_level_ : Int
  was_analog_level_set_ : Bool
  stream_is_saturated_ : Bool
  gain_controller_ : Option GainController
  num_proc_channels_ : Int
  sample_rate_hz_ : Int

namespace GainControlImpl

/-- The constructor; the last two fields are not initialised by it. -/
def new (num_proc_channels sample_rate_hz : Int) : GainControlImpl where
  enabled_ := false
  mode_ := .kFixedDigital
  minimum_capture_level_ := 0
  maximum_capture_level_ := 255
  limiter_enabled_ := true
  target_level_dbfs_ := 2
  compression_gain_db_ := 9
  analog_capture_level_ := 0
  was_analog_level_set_ := false
  stream_is_saturated_ := false
  gain_controller_ := none
  num_proc_channels_ := num_proc_channels
  sample_rate_hz_ := sample_rate_hz

/-- The settings as a `WebRtcAgcConfig`. -/
def config (g : GainControlImpl) : WebRtcAgcConfig :=
  ⟨i16 g.target_level_dbfs_, i16 g.compression_gain_db_, if g.limiter_enabled_ then 1 else 0⟩

/-- `Configure`, on the controller `c`. -/
def configureOn (g : GainControlImpl) (c : GainController) : GainControlImpl × Int :=
  let r := setConfig c.state_ g.config
  ({ g with gain_controller_ := some { c with state_ := r.1 } },
    if r.2 ≠ kNoError then r.2 else kNoError)

/-- `Configure`. -/
def configure (g : GainControlImpl) : Option (GainControlImpl × Int) :=
  g.gain_controller_.map g.configureOn

/-- `Initialize`: while disabled only the format is stored. -/
def initializeImpl (g : GainControlImpl) (mem : LegacyAgc)
    (num_proc_channels sample_rate_hz : Int) : GainControlImpl :=
  let g := { g with num_proc_channels_ := num_proc_channels, sample_rate_hz_ := sample_rate_hz }
  if ¬ g.enabled_ then g
  else
    (g.configureOn (GainController.initializeController mem g.minimum_capture_level_
      g.maximum_capture_level_ g.mode_ g.sample_rate_hz_ g.analog_capture_level_)).1

/-- `Enable`. -/
def enable (g : GainControlImpl) (mem : LegacyAgc) (e : Bool) : GainControlImpl × Int :=
  if e ∧ ¬ g.enabled_ then
    ({ g with enabled_ := e }.initializeImpl mem g.num_proc_channels_ g.sample_rate_hz_, kNoError)
  else ({ g with enabled_ := e }, kNoError)

/-- `set_mode`; every mode has a setting. -/
def setMode (g : GainControlImpl) (mem : LegacyAgc) (mode : Mode) : GainControlImpl × Int :=
  if mapSetting mode = -1 then (g, kBadParameterError)
  else ({ g with mode_ := mode }.initializeImpl mem g.num_proc_channels_ g.sample_rate_hz_,
    kNoError)

/-- `set_stream_analog_level`. -/
def setStreamAnalogLevel (g : GainControlImpl) (level : Int) : GainControlImpl × Int :=
  let g := { g with was_analog_level_set_ := true }
  if level < g.minimum_capture_level_ ∨ level > g.maximum_capture_level_
    then (g, kBadParameterError)
  else ({ g with analog_capture_level_ := level }, kNoError)

/-- `set_analog_level_limits`. -/
def setAnalogLevelLimits (g : GainControlImpl) (mem : LegacyAgc) (minimum maximum : Int) :
    GainControlImpl × Int :=
  if minimum < 0 then (g, kBadParameterError)
  else if maximum < 0 then (g, kBadParameterError)
  else if maximum < minimum then (g, kBadParameterError)
  else
    ({ g with minimum_capture_level_ := minimum, maximum_capture_level_ := maximum }.initializeImpl
      mem g.num_proc_channels_ g.sample_rate_hz_, kNoError)

/-- `set_target_level_dbfs`. -/
def setTargetLevelDbfs (g : GainControlImpl) (level : Int) : Option (GainControlImpl × Int) :=
  if level > 31 ∨ level < 0 then some (g, kBadParameterError)
  else { g with target_level_dbfs_ := level }.configure

/-- `set_compression_gain_db`. -/
def setCompressionGainDb (g : GainControlImpl) (gain : Int) : Option (GainControlImpl × Int) :=
  if gain < 0 ∨ gain > 90 then some (g, kBadParameterError)
  else { g with compression_gain_db_ := gain }.configure

/-- `enable_limiter`. -/
def enableLimiter (g : GainControlImpl) (e : Bool) : Option (GainControlImpl × Int) :=
  { g with limiter_enabled_ := e }.configure

/-- What a processing call leaves: the object, the audio and the error. -/
structure Result where
  gc : GainControlImpl
  audio : List Int
  error : Int

/-- `AnalyzeCaptureAudio`, on 10 ms. -/
def analyzeCaptureAudio (g : GainControlImpl) (audio : List Int) : Chk (Option Result) :=
  if ¬ g.enabled_ then pure (some ⟨g, audio, kNoError⟩)
  else match g.mode_ with
    | .kAdaptiveDigital =>
      match g.gain_controller_ with
      | none => pure none
      | some c => do
        let v ← virtualMic c.state_ [audio] 0
        pure (some ⟨{ g with gain_controller_ := some ⟨v.agc, v.micLevelOut⟩ },
          v.bands.headD [], if v.ret ≠ kNoError then kUnspecifiedError else kNoError⟩)
    | .kAdaptiveAnalog => pure (some ⟨g, audio, kNotEnabledError⟩)
    | .kFixedDigital => pure (some ⟨g, audio, kNoError⟩)

/-- `ProcessCaptureAudio`, on 10 ms in place. -/
def processCaptureAudio (g : GainControlImpl) (audio : List Int) : Chk (Option Result) :=
  if ¬ g.enabled_ then pure (some ⟨g, audio, kNoError⟩)
  else if g.mode_ = .kAdaptiveAnalog then pure (some ⟨g, audio, kUnsupportedFunctionError⟩)
  else match g.gain_controller_ with
    | none => pure none
    | some c => do
      let r ← process c.state_ [audio] [audio] c.capture_level_ 0
      match r with
      | none => pure none
      | some r =>
        let g := { g with stream_is_saturated_ := false }
        if r.ret ≠ kNoError then
          pure (some ⟨{ g with gain_controller_ := some { c with state_ := r.agc } },
            r.out.headD [], kUnspecifiedError⟩)
        else
          pure (some ⟨{ g with
            gain_controller_ := some ⟨r.agc, r.outMicLevel.getD 0⟩
            stream_is_saturated_ := r.saturationWarning.getD false }, r.out.headD [], kNoError⟩)

/-- One half of `ProcessStream`: the analysis, then the processing. -/
def processHalf (g : GainControlImpl) (audio : List Int) : Chk (Option Result) := do
  let a ← g.analyzeCaptureAudio audio
  match a with
  | none => pure none
  | some a => if a.error ≠ kNoError then pure (some a) else a.gc.processCaptureAudio a.audio

end GainControlImpl

/-! ### `AudioProcessingImpl` -/

/-- `AudioProcessingImpl`. -/
structure AudioProcessingImpl where
  gain_control_ : GainControlImpl

/-- `AudioProcessing::Create`: 8 kHz, one channel, not enabled. The two numbers
are the fields that the constructor of the gain control leaves as they are. -/
def AudioProcessingImpl.create (mem : LegacyAgc) (num_proc_channels sample_rate_hz : Int) :
    AudioProcessingImpl :=
  ⟨(GainControlImpl.new num_proc_channels sample_rate_hz).initializeImpl mem 1 8000⟩

/-- What `ProcessStream` leaves: the object, the data and the error. -/
structure StreamResult where
  apm : AudioProcessingImpl
  data : List Int
  error : Int

/-- `AudioProcessingImpl::ProcessStream`. -/
def processStream (a : AudioProcessingImpl) (data : List Int) : Chk (Option StreamResult) :=
  if data.length ≠ 160 then pure (some ⟨a, data, kBadParameterError⟩)
  else do
    let h0 ← a.gain_control_.processHalf (data.take 80)
    match h0 with
    | none => pure none
    | some h0 =>
      if h0.error ≠ kNoError
        then pure (some ⟨⟨h0.gc⟩, h0.audio ++ data.drop 80, h0.error⟩)
      else do
        let h1 ← h0.gc.processHalf (data.drop 80)
        match h1 with
        | none => pure none
        | some h1 => pure (some ⟨⟨h1.gc⟩, h0.audio ++ h1.audio, h1.error⟩)

end AgcSpec
