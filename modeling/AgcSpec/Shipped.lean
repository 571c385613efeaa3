/-
# The shipped configuration

An `AudioProcessing` object that was created and enabled runs in the fixed
digital mode at 8 kHz, with target level 2, compression gain 9 and the
limiter. Its gain table is mild (`table_mild`), so along every run of
`ProcessStream` on 20 ms of 16-bit samples the digital stage stays in the
range in which all its operations are exact (`Serving`), each call succeeds,
and the samples are the input times the ramp of gains (`stream_scaled`).
-/
import AgcSpec.Wrapper
import AgcSpec.Config
import AgcSpec.Samples

namespace AgcSpec

open FixedPoint Runs

/-! ### The data of a call -/

/-- The data of a call of `ProcessStream`: 160 samples of 16 bits. -/
structure StreamData where
  samples : List Int
  length : samples.length = 160
  range : ∀ x ∈ samples, InI16 x

namespace StreamData

/-- The two halves of 10 ms. -/
def first (d : StreamData) : List Int := d.samples.take 80
def second (d : StreamData) : List Int := d.samples.drop 80

theorem length_first (d : StreamData) : d.first.length = 80 := by
  rw [first, List.length_take, d.length]
  rfl

theorem length_second (d : StreamData) : d.second.length = 80 := by
  rw [second, List.length_drop, d.length]

theorem range_first (d : StreamData) : ∀ x ∈ d.first, InI16 x :=
  fun x hx => d.range x (List.mem_of_mem_take hx)

theorem range_second (d : StreamData) : ∀ x ∈ d.second, InI16 x :=
  fun x hx => d.range x (List.mem_of_mem_drop hx)

/-- The same sample all along. -/
def const (x : Int) (h : InI16 x) : StreamData :=
  ⟨List.replicate 160 x, by simp, fun _ hy => (List.eq_of_mem_replicate hy).symm ▸ h⟩

end StreamData

/-- A call of `ProcessStream` that returns. -/
def StreamStep (a : AudioProcessingImpl) (d : StreamData) (b : AudioProcessingImpl) : Prop :=
  (processStream a d.samples).val.map (·.apm) = some b

namespace Shipped

open Gains Samples

/-- An object after `AudioProcessing::Create` and `Enable(true)`. Everything
the constructors leave open is a parameter. -/
def shipped (mem mem' : LegacyAgc) (num_proc_channels sample_rate_hz : Int) : AudioProcessingImpl :=
  ⟨((AudioProcessingImpl.create mem num_proc_channels sample_rate_hz).gain_control_.enable
    mem' true).1⟩

/-! ### The invariant -/

/-- The table of target level 2, compression gain 9 and the limiter. -/
theorem table_mild : ∃ t, tableOf kAgcModeFixedDigital ⟨2, 9, kAgcTrue⟩ = some t ∧ Mild t :=
  ⟨(tableOf kAgcModeFixedDigital ⟨2, 9, kAgcTrue⟩).getD [],
    by decide +kernel, by decide +kernel, by decide +kernel, by decide +kernel⟩

/-- An object that is enabled in the fixed digital mode at 8 kHz, with a mild
digital stage. -/
structure Serving (g : GainControlImpl) (c : GainController) : Prop where
  enabled : g.enabled_ = true
  mode : g.mode_ = .kFixedDigital
  controller : g.gain_controller_ = some c
  fs : c.state_.fs = 8000
  agcMode : c.state_.agcMode = kAgcModeFixedDigital
  digital : MildState c.state_.digitalAgc

theorem shipped_eq (mem mem' : LegacyAgc) (n r : Int) :
    (shipped mem mem' n r).gain_control_ =
      ({ GainControlImpl.new 1 8000 with enabled_ := true }.configureOn
        ⟨(init (create mem') 0 255 kAgcModeFixedDigital 8000).val.1, 0⟩).1 := rfl

theorem serving_shipped (mem mem' : LegacyAgc) (n r : Int) :
    ∃ c, Serving (shipped mem mem' n r).gain_control_ c := by
  obtain ⟨s, hs⟩ := Config.init_returns (create mem') 0 255 kAgcModeFixedDigital 8000
    (by decide) (by decide)
  obtain ⟨-, -, i, t0, hi, -, hs'⟩ := Config.init_ok hs
  obtain ⟨t, ht, hmild⟩ := table_mild
  have hmode : s.agcMode = kAgcModeFixedDigital := by rw [hs', hi]; rfl
  have hset : setConfig s ⟨2, 9, kAgcTrue⟩ = _ :=
    Config.setConfig_table (by rw [hs', hi]; rfl) (by decide) (by decide)
  rw [hmode, ht] at hset
  rw [shipped_eq, hs]
  refine ⟨⟨(setConfig s ⟨2, 9, kAgcTrue⟩).1, 0⟩, rfl, rfl, rfl, ?_, ?_, ?_, ?_, ?_⟩
  all_goals rw [hset]
  · rw [hs', hi]
    rfl
  · rw [← hmode]
    rfl
  · exact hmild
  · have hcap : CapRange ⟨0, 0⟩ := ⟨⟨le_rfl, by decide⟩, ⟨le_rfl, by decide⟩⟩
    rw [hs', hi]
    exact hcap
  · rw [hs', hi]
    exact (by decide : (0 : Int) ≤ 65536 ∧ (65536 : Int) < 2 ^ 19)

/-! ### Ten milliseconds -/

/-- `WebRtcAgc_Process` in the fixed digital mode is the digital stage. -/
theorem process_fixed {s : LegacyAgc} (hfs : s.fs = 8000) (hmode : s.agcMode = kAgcModeFixedDigital)
    (hd : MildState s.digitalAgc) {audio : List Int} (hlen : audio.length = 80)
    (hx : ∀ x ∈ audio, InI16 x) (out : List (List Int)) (lvl echo : Int) :
    ∃ p d o, planGains (s.digitalAgc.nearend 8 audio) 8 s.lowLevelSignal audio = pure (some p) ∧
      MildState d ∧ ScaledBy 8 p.gains audio o ∧
      process s [audio] out lvl echo =
        pure (some ⟨0, popQueue { s with digitalAgc := d }, [o], some lvl, some false⟩) := by
  have hrate : subframeLength s.fs = some (8, 3) := by rw [hfs]; rfl
  obtain ⟨p, d, os, hp, hproc, hmild, hscaled⟩ := processDigital_mild hd hrate s.lowLevelSignal
    (show ∀ b ∈ [audio], ∀ x ∈ b, InI16 x by simpa using hx) (by simpa using hlen)
  obtain ⟨o, os', ho, hnil, rfl⟩ := List.forall₂_cons_left_iff.mp hscaled
  obtain rfl := List.forall₂_nil_left_iff.mp hnil
  refine ⟨p, d, o, hp, hmild, ho, ?_⟩
  have hframe : ¬ getAddFarendError s ([audio].headD []).length ≠ 0 := by
    simp [getAddFarendError, hfs, hlen]
  have hanalog : ¬ analogStageRuns { s with digitalAgc := d } :=
    fun h => absurd hmode (ne_of_lt h.1)
  rw [process, if_neg hframe, hproc, pure_bind]
  dsimp only
  rw [if_neg hanalog]

/-- The gains at the start of 10 ms and at the ends of its sub-frames. -/
def subframeGains (g : GainControlImpl) (audio : List Int) : Option (List Int) :=
  g.gain_controller_.bind fun c =>
    (planGains (c.state_.digitalAgc.nearend 8 audio) 8 c.state_.lowLevelSignal audio).val.map
      (·.gains)

/-- The audio `out` is `audio` scaled by the gains computed for it. -/
def HalfScaled (g : GainControlImpl) (audio out : List Int) : Prop :=
  ∃ gains, subframeGains g audio = some gains ∧ ScaledBy 8 gains audio out

theorem processHalf_serving {g : GainControlImpl} {c : GainController} (h : Serving g c)
    {audio : List Int} (hlen : audio.length = 80) (hx : ∀ x ∈ audio, InI16 x) :
    ∃ r c', g.processHalf audio = pure (some r) ∧ r.error = kNoError ∧ Serving r.gc c' ∧
      HalfScaled g audio r.audio := by
  obtain ⟨p, d, o, hp, hmild, ho, hproc⟩ :=
    process_fixed h.fs h.agcMode h.digital hlen hx [audio] c.capture_level_ 0
  have hana : g.analyzeCaptureAudio audio = pure (some ⟨g, audio, kNoError⟩) := by
    rw [GainControlImpl.analyzeCaptureAudio, if_neg (by simp [h.enabled]), h.mode]
  have hcap : g.processCaptureAudio audio = pure (some ⟨{ g with
      stream_is_saturated_ := false
      gain_controller_ := some ⟨popQueue { c.state_ with digitalAgc := d }, c.capture_level_⟩ },
      o, kNoError⟩) := by
    rw [GainControlImpl.processCaptureAudio, if_neg (by simp [h.enabled]),
      if_neg (by rw [h.mode]; decide), h.controller]
    dsimp only
    rw [hproc, pure_bind]
    dsimp only
    rw [if_neg (by decide)]
    rfl
  have hgains : subframeGains g audio = some p.gains := by
    rw [subframeGains, h.controller]
    exact congrArg (fun q : Chk (Option GainPlan) => q.val.map (·.gains)) hp
  rw [GainControlImpl.processHalf, hana, pure_bind]
  dsimp only
  rw [if_neg (by decide), hcap]
  exact ⟨_, _, rfl, rfl, ⟨h.enabled, h.mode, rfl, h.fs, h.agcMode, hmild⟩,
    p.gains, hgains, ho⟩

/-! ### Whole runs -/

theorem processStream_serving {a : AudioProcessingImpl} {c : GainController}
    (h : Serving a.gain_control_ c) (d : StreamData) :
    ∃ h0 h1 : GainControlImpl.Result, ∃ c',
      a.gain_control_.processHalf d.first = pure (some h0) ∧
      h0.gc.processHalf d.second = pure (some h1) ∧
      processStream a d.samples = pure (some ⟨⟨h1.gc⟩, h0.audio ++ h1.audio, kNoError⟩) ∧
      Serving h1.gc c' ∧
      HalfScaled a.gain_control_ d.first h0.audio ∧ HalfScaled h0.gc d.second h1.audio := by
  obtain ⟨h0, c0, e0, r0, s0, x0⟩ := processHalf_serving h d.length_first d.range_first
  obtain ⟨h1, c1, e1, r1, s1, x1⟩ := processHalf_serving s0 d.length_second d.range_second
  refine ⟨h0, h1, c1, e0, e1, ?_, s1, x0, x1⟩
  rw [processStream, if_neg (not_not.mpr d.length), show d.samples.take 80 = d.first from rfl,
    e0, pure_bind]
  dsimp only
  rw [if_neg (not_not.mpr r0), show d.samples.drop 80 = d.second from rfl, e1, pure_bind, ← r1]

theorem serving_step {a b : AudioProcessingImpl} {d : StreamData}
    (h : ∃ c, Serving a.gain_control_ c)
    (hstep : StreamStep a d b) : ∃ c, Serving b.gain_control_ c := by
  obtain ⟨c, hc⟩ := h
  obtain ⟨h0, h1, c', -, -, hp, hs, -, -⟩ := processStream_serving hc d
  rw [StreamStep, hp] at hstep
  obtain rfl := Option.some.inj hstep
  exact ⟨c', hs⟩

/-- After every run of `ProcessStream` on the shipped object, the next call
returns `kNoError`, every operation of its gain computation and application is
exact, and the samples of both halves are the input times the ramp between the
computed gains, rounded down and saturated, up to 4. -/
theorem stream_scaled {mem mem' : LegacyAgc} {n r : Int} {ds : List StreamData}
    {a : AudioProcessingImpl} (hrun : Run StreamStep (shipped mem mem' n r) ds a) (d : StreamData) :
    ∃ h0 h1 : GainControlImpl.Result, a.gain_control_.processHalf d.first = pure (some h0) ∧
      h0.gc.processHalf d.second = pure (some h1) ∧
      processStream a d.samples = pure (some ⟨⟨h1.gc⟩, h0.audio ++ h1.audio, kNoError⟩) ∧
      HalfScaled a.gain_control_ d.first h0.audio ∧ HalfScaled h0.gc d.second h1.audio := by
  obtain ⟨c, hc⟩ := hrun.invariant (I := fun a => ∃ c, Serving a.gain_control_ c)
    (serving_shipped mem mem' n r)
    fun _ _ _ h hs => serving_step h hs
  obtain ⟨h0, h1, c', e0, e1, hp, -, x0, x1⟩ := processStream_serving hc d
  exact ⟨h0, h1, e0, e1, hp, x0, x1⟩

/-- A call on full-scale data, and the one after it. -/
theorem stream_scaled_full_scale :
    ∃ b, Run StreamStep (shipped .cleared .cleared 0 0) [.const 32767 (by decide)] b ∧
    ∃ h0 h1 : GainControlImpl.Result,
      b.gain_control_.processHalf (StreamData.const (-32768) (by decide)).first = pure (some h0) ∧
      h0.gc.processHalf (StreamData.const (-32768) (by decide)).second = pure (some h1) ∧
      processStream b (StreamData.const (-32768) (by decide)).samples =
        pure (some ⟨⟨h1.gc⟩, h0.audio ++ h1.audio, kNoError⟩) ∧
      HalfScaled b.gain_control_ (StreamData.const (-32768) (by decide)).first h0.audio ∧
      HalfScaled h0.gc (StreamData.const (-32768) (by decide)).second h1.audio := by
  have hsome : ((processStream (shipped .cleared .cleared 0 0)
      (StreamData.const 32767 (by decide)).samples).val.map (·.apm)).isSome =
        true := by decide +kernel
  obtain ⟨b, hb⟩ := Option.isSome_iff_exists.mp hsome
  exact ⟨b, .one hb, stream_scaled (.one hb) _⟩

end Shipped
end AgcSpec
