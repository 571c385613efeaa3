/-
# The multi-channel gain control

`GainControlImpl` of `gain_control_impl_webrtc.cc`: one controller for each
channel, with the analog level as the average of theirs. The calls are modelled
one after the other here; `Interleaving` has the two locks and the threads.

The object has no result (`none`) where the source reads an optional that is
not set, divides by zero channels or gets audio of another number of channels,
and where the digital stage of a channel never returns. The other debug checks
(`RTC_DCHECK`) do nothing in the code as it runs; in particular the error of
`WebRtcAgc_Init` is dropped.
-/
import AgcSpec.Wrapper

namespace AgcSpec
namespace MultiChannel

open FixedPoint

def kStreamParameterNotSetError : Int := -11

/-- `GainControlImpl`. -/
structure GainControlImpl where
  enabled_ : Bool
  mode_ : Mode
  minimum_capture_level_ : Int
  maximum_capture_level_ : Int
  limiter_enabled_ : Bool
  target_level_dbfs_ : Int
  compression_gain_db_ : Int
  analog_capture_level_ : Int
  was_analog_level_set_ : Bool
  stream_is_saturated_ : Bool
  gain_controllers_ : List GainController
  num_proc_channels_ : Option ℕ
  sample_rate_hz_ : Option Int

namespace GainControlImpl

/-- The constructor. -/
def new : GainControlImpl where
  enabled_ := false
  mode_ := .kAdaptiveAnalog
  minimum_capture_level_ := 0
  maximum_capture_level_ := 255
  limiter_enabled_ := true
  target_level_dbfs_ := 3
  compression_gain_db_ := 9
  analog_capture_level_ := 0
  was_analog_level_set_ := false
  stream_is_saturated_ := false
  gain_controllers_ := []
  num_proc_channels_ := none
  sample_rate_hz_ := none

/-! ### Settings -/

/-- The settings as a `WebRtcAgcConfig`. -/
def config (g : GainControlImpl) : WebRtcAgcConfig :=
  ⟨i16 g.target_level_dbfs_, i16 g.compression_gain_db_, if g.limiter_enabled_ then 1 else 0⟩

/-- `Configure`: every controller is configured; the last error counts. -/
def configure (g : GainControlImpl) : GainControlImpl × Int :=
  let rs := g.gain_controllers_.map fun k => (setConfig k.state_ g.config, k.capture_level_)
  ({ g with gain_controllers_ := rs.map fun r => ⟨r.1.1, r.2⟩ },
    rs.foldl (fun error r => if r.1.2 ≠ kNoError then r.1.2 else error) kNoError)

/-- The instances after `resize`: the first `n` of those there are, and new
ones; `mem` is the memory that they find. -/
def resized (g : GainControlImpl) (mem : ℕ → LegacyAgc) (n : ℕ) : List LegacyAgc :=
  (g.gain_controllers_.map (·.state_)).take n ++
    (List.range (n - g.gain_controllers_.length)).map fun i => create (mem i)

theorem length_resized (g : GainControlImpl) (mem : ℕ → LegacyAgc) (n : ℕ) :
    (g.resized mem n).length = n := by
  simp only [resized, List.length_append, List.length_take, List.length_map, List.length_range]
  omega

/-- The call of `WebRtcAgc_Init` on an instance. -/
def initOf (g : GainControlImpl) (sample_rate_hz : Int) (s : LegacyAgc) : LegacyAgc × Int :=
  (init s g.minimum_capture_level_ g.maximum_capture_level_ (mapSetting g.mode_) sample_rate_hz).val

/-- `Initialize`. While disabled only the format is stored. -/
def initializeImpl (g : GainControlImpl) (mem : ℕ → LegacyAgc) (num_proc_channels : ℕ)
    (sample_rate_hz : Int) : GainControlImpl :=
  let g := { g with
    num_proc_channels_ := some num_proc_channels
    sample_rate_hz_ := some sample_rate_hz }
  if ¬ g.enabled_ then g
  else
    { g with
      gain_controllers_ := (g.resized mem num_proc_channels).map fun s =>
        ⟨(g.initOf sample_rate_hz s).1, g.analog_capture_level_⟩ }.configure.1

/-- `Initialize` with the format that was set before. -/
def startAgain (g : GainControlImpl) (mem : ℕ → LegacyAgc) : Option GainControlImpl :=
  match g.num_proc_channels_, g.sample_rate_hz_ with
  | some n, some r => some (g.initializeImpl mem n r)
  | _, _ => none

/-- `Enable`. -/
def enable (g : GainControlImpl) (mem : ℕ → LegacyAgc) (e : Bool) :
    Option (GainControlImpl × Int) :=
  if e ∧ ¬ g.enabled_ then ({ g with enabled_ := e }.startAgain mem).map fun g => (g, kNoError)
  else some ({ g with enabled_ := e }, kNoError)

/-- `set_mode`. -/
def setMode (g : GainControlImpl) (mem : ℕ → LegacyAgc) (mode : Mode) :
    Option (GainControlImpl × Int) :=
  if mapSetting mode = -1 then some (g, kBadParameterError)
  else ({ g with mode_ := mode }.startAgain mem).map fun g => (g, kNoError)

/-- `set_analog_level_limits`. -/
def setAnalogLevelLimits (g : GainControlImpl) (mem : ℕ → LegacyAgc) (minimum maximum : Int) :
    Option (GainControlImpl × Int) :=
  if minimum < 0 then some (g, kBadParameterError)
  else if maximum > 65535 then some (g, kBadParameterError)
  else if maximum < minimum then some (g, kBadParameterError)
  else
    ({ g with minimum_capture_level_ := minimum, maximum_capture_level_ := maximum }.startAgain
      mem).map
      fun g => (g, kNoError)

/-- `set_stream_analog_level`. -/
def setStreamAnalogLevel (g : GainControlImpl) (level : Int) : GainControlImpl × Int :=
  let g := { g with was_analog_level_set_ := true }
  if level < g.minimum_capture_level_ ∨ level > g.maximum_capture_level_
    then (g, kBadParameterError)
  else ({ g with analog_capture_level_ := level }, kNoError)

/-- `set_target_level_dbfs`. -/
def setTargetLevelDbfs (g : GainControlImpl) (level : Int) : GainControlImpl × Int :=
  if level > 31 ∨ level < 0 then (g, kBadParameterError)
  else { g with target_level_dbfs_ := level }.configure

/-- `set_compression_gain_db`. -/
def setCompressionGainDb (g : GainControlImpl) (gain : Int) : GainControlImpl × Int :=
  if gain < 0 ∨ gain > 90 then (g, kBadParameterError)
  else { g with compression_gain_db_ := gain }.configure

/-- `enable_limiter`. -/
def enableLimiter (g : GainControlImpl) (e : Bool) : GainControlImpl × Int :=
  { g with limiter_enabled_ := e }.configure

/-! A setting is refused, or it is stored and the controllers are made or
configured again. -/

section Settings

variable {g g' : GainControlImpl} {mem : ℕ → LegacyAgc}

theorem enable_cases {e : Bool} (h : (g.enable mem e).map (·.1) = some g') :
    ¬ (e ∧ ¬ g.enabled_) ∧ g' = { g with enabled_ := e } ∨
      { g with enabled_ := e }.startAgain mem = some g' := by
  unfold enable at h
  split_ifs at h with he
  · rw [Option.map_map] at h
    exact .inr (by simpa using h)
  · exact .inl ⟨he, (Option.some.inj h).symm⟩

theorem setMode_cases {mode : Mode} (h : (g.setMode mem mode).map (·.1) = some g') :
    g' = g ∨ { g with mode_ := mode }.startAgain mem = some g' := by
  unfold setMode at h
  split_ifs at h
  · exact .inl (Option.some.inj h).symm
  · rw [Option.map_map] at h
    exact .inr (by simpa using h)

theorem setAnalogLevelLimits_cases {minimum maximum : Int}
    (h : (g.setAnalogLevelLimits mem minimum maximum).map (·.1) = some g') :
    g' = g ∨ (0 ≤ minimum ∧ minimum ≤ maximum ∧ maximum ≤ 65535) ∧
      { g with minimum_capture_level_ := minimum, maximum_capture_level_ := maximum }.startAgain
        mem = some g' := by
  unfold setAnalogLevelLimits at h
  split_ifs at h
  · exact .inl (Option.some.inj h).symm
  · exact .inl (Option.some.inj h).symm
  · exact .inl (Option.some.inj h).symm
  · rw [Option.map_map] at h
    exact .inr ⟨by omega, by simpa using h⟩

theorem setTargetLevelDbfs_cases (level : Int) : (g.setTargetLevelDbfs level).1 = g ∨
    (g.setTargetLevelDbfs level).1 = { g with target_level_dbfs_ := level }.configure.1 :=
  (ite_eq_or_eq _ _ _).imp (congrArg Prod.fst) (congrArg Prod.fst)

theorem setCompressionGainDb_cases (gain : Int) : (g.setCompressionGainDb gain).1 = g ∨
    (g.setCompressionGainDb gain).1 = { g with compression_gain_db_ := gain }.configure.1 :=
  (ite_eq_or_eq _ _ _).imp (congrArg Prod.fst) (congrArg Prod.fst)

end Settings

end GainControlImpl

/-! ### The channels -/

/-- What a call on one channel leaves. -/
structure ChannelResult where
  controller : GainController
  bands : List (List Int)
  saturated : Bool
  error : Int

/-- What the loop over the channels leaves. -/
structure LoopResult where
  controllers : List GainController
  audio : List (List (List Int))
  saturated : Bool
  error : Int

/-- The loop over the channels, which ends at the first error. -/
def forChannels (f : GainController → List (List Int) → Option ChannelResult) :
    List GainController → List (List (List Int)) → Option LoopResult
  | [], audio => some ⟨[], audio, false, kNoError⟩
  | k :: ks, audio =>
    match f k (audio.headD []) with
    | none => none
    | some r =>
      if r.error ≠ kNoError then some ⟨r.controller :: ks, r.bands :: audio.tail, false,
        kUnspecifiedError⟩
      else (forChannels f ks audio.tail).map fun l =>
        ⟨r.controller :: l.controllers, r.bands :: l.audio, r.saturated || l.saturated, l.error⟩

/-- A channel of `AnalyzeCaptureAudio` in the adaptive analog mode. -/
def addMicTo (level : Int) (k : GainController) (bands : List (List Int)) : Option ChannelResult :=
  let m := (addMic k.state_ bands).val
  some ⟨⟨m.agc, level⟩, m.bands, false, m.ret⟩

/-- A channel of `AnalyzeCaptureAudio` in the adaptive digital mode. -/
def virtualMicTo (level : Int) (k : GainController) (bands : List (List Int)) :
    Option ChannelResult :=
  let v := (virtualMic k.state_ bands level).val
  some ⟨⟨v.agc, v.micLevelOut⟩, v.bands, false, v.ret⟩

/-- A channel of `ProcessCaptureAudio`, in place. An error leaves the level of
the controller as it was. -/
def processOn (echo : Bool) (k : GainController) (bands : List (List Int)) : Option ChannelResult :=
  (process k.state_ bands bands k.capture_level_ (if echo then 1 else 0)).val.map fun r =>
    if r.ret ≠ kNoError then ⟨⟨r.agc, k.capture_level_⟩, r.out, false, r.ret⟩
    else ⟨⟨r.agc, r.outMicLevel.getD 0⟩, r.out, r.saturationWarning.getD false, r.ret⟩

/-- The sum of the levels, an `int`. -/
def levelSum (ks : List GainController) : Int :=
  ks.foldl (fun sum k => i32 (sum + k.capture_level_)) 0

/-- The average level. The number of channels is a `size_t`, and the sum is
converted to one for the division. -/
def averageLevel (n : ℕ) (ks : List GainController) : Option Int :=
  if n = 0 then none else some (i32 (levelSum ks % 2 ^ 64 / n))

namespace GainControlImpl

/-- What a processing call leaves: the object, the audio and the error. -/
structure Result where
  gc : GainControlImpl
  audio : List (List (List Int))
  error : Int

/-- `ProcessRenderAudio`. -/
def processRenderAudio (g : GainControlImpl) (packed_render_audio : List Int) : GainControlImpl :=
  if ¬ g.enabled_ then g
  else { g with
    gain_controllers_ := g.gain_controllers_.map fun k =>
      ⟨(addFarend k.state_ packed_render_audio).1, k.capture_level_⟩ }

/-- `AnalyzeCaptureAudio`. -/
def analyzeCaptureAudio (g : GainControlImpl) (audio : List (List (List Int))) : Option Result :=
  if ¬ g.enabled_ then some ⟨g, audio, kNoError⟩
  else if g.num_proc_channels_ ≠ some audio.length then none
  else match g.mode_ with
    | .kAdaptiveAnalog =>
      (forChannels (addMicTo g.analog_capture_level_) g.gain_controllers_ audio).map fun l =>
        ⟨{ g with gain_controllers_ := l.controllers }, l.audio, l.error⟩
    | .kAdaptiveDigital =>
      (forChannels (virtualMicTo g.analog_capture_level_) g.gain_controllers_ audio).map fun l =>
        ⟨{ g with gain_controllers_ := l.controllers }, l.audio, l.error⟩
    | .kFixedDigital => some ⟨g, audio, kNoError⟩

/-- `ProcessCaptureAudio`. In the adaptive analog mode the new analog level is
the average of the channels'. -/
def processCaptureAudio (g : GainControlImpl) (audio : List (List (List Int)))
    (stream_has_echo : Bool) : Option Result :=
  if ¬ g.enabled_ then some ⟨g, audio, kNoError⟩
  else if g.mode_ = .kAdaptiveAnalog ∧ ¬ g.was_analog_level_set_
    then some ⟨g, audio, kStreamParameterNotSetError⟩
  else if g.num_proc_channels_ ≠ some audio.length then none
  else
    (forChannels (processOn stream_has_echo) g.gain_controllers_ audio).bind fun l =>
      let g := { g with gain_controllers_ := l.controllers, stream_is_saturated_ := l.saturated }
      if l.error ≠ kNoError then some ⟨g, l.audio, l.error⟩
      else if g.mode_ = .kAdaptiveAnalog then
        (averageLevel audio.length l.controllers).map fun level =>
          ⟨{ g with analog_capture_level_ := level, was_analog_level_set_ := false },
            l.audio, kNoError⟩
      else some ⟨{ g with was_analog_level_set_ := false }, l.audio, kNoError⟩

end GainControlImpl

/-! ### Calls -/

/-- A call with its arguments, and the memory that new controllers find. -/
inductive Call where
  | enable (mem : ℕ → LegacyAgc) (e : Bool)
  | initializeImpl (mem : ℕ → LegacyAgc) (num_proc_channels : ℕ) (sample_rate_hz : Int)
  | setMode (mem : ℕ → LegacyAgc) (mode : Mode)
  | setAnalogLevelLimits (mem : ℕ → LegacyAgc) (minimum maximum : Int)
  | setStreamAnalogLevel (level : Int)
  | setTargetLevelDbfs (level : Int)
  | setCompressionGainDb (gain : Int)
  | enableLimiter (e : Bool)
  | processRenderAudio (packed_render_audio : List Int)
  | analyzeCaptureAudio (audio : List (List (List Int)))
  | processCaptureAudio (audio : List (List (List Int))) (stream_has_echo : Bool)

/-- The object after a call. -/
def Call.run (g : GainControlImpl) : Call → Option GainControlImpl
  | .enable mem e => (g.enable mem e).map (·.1)
  | .initializeImpl mem n r => some (g.initializeImpl mem n r)
  | .setMode mem mode => (g.setMode mem mode).map (·.1)
  | .setAnalogLevelLimits mem minimum maximum =>
    (g.setAnalogLevelLimits mem minimum maximum).map (·.1)
  | .setStreamAnalogLevel level => some (g.setStreamAnalogLevel level).1
  | .setTargetLevelDbfs level => some (g.setTargetLevelDbfs level).1
  | .setCompressionGainDb gain => some (g.setCompressionGainDb gain).1
  | .enableLimiter e => some (g.enableLimiter e).1
  | .processRenderAudio x => some (g.processRenderAudio x)
  | .analyzeCaptureAudio audio => (g.analyzeCaptureAudio audio).map (·.gc)
  | .processCaptureAudio audio echo => (g.processCaptureAudio audio echo).map (·.gc)

/-- An object after `Initialize(1, 8000)` and `Enable(true)`, in cleared memory. -/
def oneChannel : GainControlImpl :=
  (((GainControlImpl.new.initializeImpl (fun _ => .cleared) 1 8000).enable
    (fun _ => .cleared) true).map (·.1)).getD .new

/-- A call that returns. -/
def CallStep (g : GainControlImpl) (c : Call) (g' : GainControlImpl) : Prop := c.run g = some g'

end MultiChannel
end AgcSpec
