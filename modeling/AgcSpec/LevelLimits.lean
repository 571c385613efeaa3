/-
# The limits of the analog level

What `set_analog_level_limits` accepts, in both versions of the gain control,
and what keeps the level of the multi-channel one within its limits.

* `limits_usable_iff`: which of the accepted limits `WebRtcAgc_Init` takes. The
  wrappers accept an empty range, and the one of `gain_control_impl.cc` any
  maximum; the error of `WebRtcAgc_Init` is dropped.
* `level_within_limits`: `set_analog_level_limits` leaves the level where it
  is. In every run in which new limits contain the level, and the levels of
  all channels have a sum in 32 bits, the level is within the limits all the
  time, and in the adaptive analog mode no call of `WebRtcAgc_Process` fails on
  the level it is given.
-/
import AgcSpec.Agreement
import AgcSpec.Failure
import AgcSpec.Levels
import AgcSpec.MultiChannel

namespace AgcSpec
namespace LevelLimits

open FixedPoint Runs

/-! ### The check of `WebRtcAgc_Init` -/

/-- Everything is written before the range is checked, so the range decides
the result alone. -/
theorem init_result (s : LegacyAgc) (minimum maximum : Int) (mode : Mode) (fs : Int) :
    (init s minimum maximum (mapSetting mode) fs).val.2 = 0 ↔
      mode = .kAdaptiveDigital ∨ minimum < maximum ∧ u32 maximum < 2 ^ 26 := by
  have hmode : 0 ≤ mapSetting mode ∧ mapSetting mode ≤ 3 := by cases mode <;> decide
  have hlevels : (lowestLevel (mapSetting mode) minimum < highestLevel (mapSetting mode) maximum ∧
      u32 (highestLevel (mapSetting mode) maximum) < 2 ^ 26) ↔
      mode = .kAdaptiveDigital ∨ minimum < maximum ∧ u32 maximum < 2 ^ 26 := by
    cases mode with
    | kAdaptiveDigital =>
      exact iff_of_true (by decide : (0 : Int) < 255 ∧ u32 255 < 2 ^ 26) (.inl rfl)
    | kAdaptiveAnalog => exact ⟨.inr, fun h => h.resolve_left (by decide)⟩
    | kFixedDigital => exact ⟨.inr, fun h => h.resolve_left (by decide)⟩
  rw [← hlevels]
  constructor
  · intro h
    exact (Config.init_ok (s := (init s minimum maximum (mapSetting mode) fs).val.1)
      (by rw [← h])).2.1
  · intro h
    obtain ⟨t, ht⟩ := Config.init_returns s minimum maximum (mapSetting mode) fs hmode h
    rw [ht]

/-! ### Accepted limits -/

theorem limits_of_accepted {g : GainControlImpl} {mem : LegacyAgc} {minimum maximum : Int}
    (h : (g.setAnalogLevelLimits mem minimum maximum).2 = kNoError) :
    0 ≤ minimum ∧ minimum ≤ maximum := by
  unfold GainControlImpl.setAnalogLevelLimits at h
  split_ifs at h
  · cases h
  · cases h
  · cases h
  · omega

theorem limits_of_accepted_multi {g g' : MultiChannel.GainControlImpl} {mem : ℕ → LegacyAgc}
    {minimum maximum : Int} (h : g.setAnalogLevelLimits mem minimum maximum = some (g', kNoError)) :
    0 ≤ minimum ∧ minimum ≤ maximum ∧ maximum ≤ 65535 ∧
      { g with minimum_capture_level_ := minimum, maximum_capture_level_ := maximum }.startAgain
        mem = some g' := by
  unfold MultiChannel.GainControlImpl.setAnalogLevelLimits at h
  split_ifs at h
  · cases h
  · cases h
  · cases h
  · obtain ⟨g1, hg, he⟩ := Option.map_eq_some_iff.mp h
    obtain ⟨rfl, -⟩ := Prod.mk.inj he
    exact ⟨by omega, by omega, by omega, hg⟩

/-- Accepted limits on an enabled gain control, in any mode. In both versions
the limits go to `WebRtcAgc_Init`, for the one controller or for each of them,
and which of them it takes is decided by the mode and the range. -/
theorem limits_usable_iff (minimum maximum : Int) :
    (∀ (g : GainControlImpl) (mem : LegacyAgc), InI32 maximum → g.enabled_ = true →
      (g.setAnalogLevelLimits mem minimum maximum).2 = kNoError →
      ∃ r, r = (init (create mem) minimum maximum (mapSetting g.mode_) g.sample_rate_hz_).val ∧
        (g.setAnalogLevelLimits mem minimum maximum).1 =
          ({ g with
            minimum_capture_level_ := minimum
            maximum_capture_level_ := maximum }.configureOn ⟨r.1, g.analog_capture_level_⟩).1 ∧
        (r.2 = 0 ↔ g.mode_ = .kAdaptiveDigital ∨ minimum < maximum ∧ maximum < 2 ^ 26)) ∧
    ∀ (g g' : MultiChannel.GainControlImpl) (mem : ℕ → LegacyAgc), g.enabled_ = true →
      g.setAnalogLevelLimits mem minimum maximum = some (g', kNoError) →
      ∃ n rate, g.num_proc_channels_ = some n ∧ g.sample_rate_hz_ = some rate ∧
        g' = { g with
          minimum_capture_level_ := minimum
          maximum_capture_level_ := maximum
          gain_controllers_ := (g.resized mem n).map fun s =>
            ⟨(init s minimum maximum (mapSetting g.mode_) rate).val.1,
              g.analog_capture_level_⟩ }.configure.1 ∧
        ∀ s ∈ g.resized mem n, ((init s minimum maximum (mapSetting g.mode_) rate).val.2 = 0 ↔
          g.mode_ = .kAdaptiveDigital ∨ minimum < maximum) := by
  constructor
  · intro g mem hint he hret
    obtain ⟨h0, h1⟩ := limits_of_accepted hret
    refine ⟨_, rfl, ?_, ?_⟩
    · unfold GainControlImpl.setAnalogLevelLimits
      rw [if_neg (by omega), if_neg (by omega), if_neg (by omega)]
      unfold GainControlImpl.initializeImpl
      dsimp only
      rw [if_neg (not_not.mpr he)]
      rfl
    · rw [init_result, u32_of ⟨by omega, by have := hint.2; omega⟩]
  · intro g g' mem he hret
    obtain ⟨h0, h1, h2, hagain⟩ := limits_of_accepted_multi hret
    unfold MultiChannel.GainControlImpl.startAgain at hagain
    split at hagain
    · rename_i n rate hn hr
      obtain rfl := Option.some.inj hagain
      refine ⟨n, rate, hn, hr, ?_, fun s _ => ?_⟩
      · unfold MultiChannel.GainControlImpl.initializeImpl
        dsimp only
        rw [if_neg (not_not.mpr he), ← hn, ← hr]
        rfl
      · rw [init_result, u32_of ⟨by omega, by omega⟩]
        constructor
        · exact fun h => h.imp id And.left
        · exact fun h => h.imp id fun h => ⟨h, by omega⟩
    · cases hagain

/-- The limits 0 and 100 are taken, in both versions. -/
theorem limits_usable_hundred :
    (init (create .cleared) 0 100 (mapSetting .kFixedDigital) 8000).val.2 = 0 ∧
    ∀ s ∈ MultiChannel.oneChannel.resized (fun _ => .cleared) 1,
      (init s 0 100 (mapSetting .kAdaptiveAnalog) 8000).val.2 = 0 := by
  constructor
  · obtain ⟨r, hr, -, hiff⟩ :=
      (limits_usable_iff 0 100).1 (Shipped.shipped .cleared .cleared 0 0).gain_control_
      .cleared (by decide) rfl rfl
    rw [hr] at hiff
    exact hiff.mpr (.inr (by decide))
  · intro s hs
    obtain ⟨n, rate, hn, hr, -, hiff⟩ :=
      (limits_usable_iff 0 100).2 MultiChannel.oneChannel _ (fun _ => .cleared) rfl rfl
    obtain rfl := Option.some.inj hn
    obtain rfl := Option.some.inj hr
    exact (hiff s hs).mpr (.inr (by decide))

/-- Accepted limits that `WebRtcAgc_Init` rejects: 5 and 5 in both versions,
and a maximum of 2^26 in the one for a single channel. -/
theorem limits_unusable :
    (((Shipped.shipped .cleared .cleared 0 0).gain_control_.setAnalogLevelLimits .cleared 5 5).2 =
      kNoError ∧ (init (create .cleared) 5 5 (mapSetting .kFixedDigital) 8000).val.2 ≠ 0) ∧
    (((Shipped.shipped .cleared .cleared 0 0).gain_control_.setAnalogLevelLimits .cleared 0
      (2 ^ 26)).2 = kNoError ∧ (init (create .cleared) 0 (2 ^ 26)
      (mapSetting .kFixedDigital) 8000).val.2 ≠ 0) ∧
    (MultiChannel.oneChannel.setAnalogLevelLimits (fun _ => .cleared) 5 5).map (·.2) =
      some kNoError ∧
    (MultiChannel.oneChannel.resized (fun _ => .cleared) 1).length = 1 ∧
    ∀ s ∈ MultiChannel.oneChannel.resized (fun _ => .cleared) 1,
      (init s 5 5 (mapSetting .kAdaptiveAnalog) 8000).val.2 ≠ 0 := by
  refine ⟨⟨rfl, ?_⟩, ⟨rfl, ?_⟩, rfl, rfl, fun s _ => ?_⟩
  · rw [Ne, init_result]
    decide
  · rw [Ne, init_result]
    decide
  · rw [Ne, init_result]
    decide

/-! ### The levels of an instance

What an instance needs to put out a level within the limits, and what every
stage keeps: the maximum with the digital gain is never below the analog one.
Nothing else is known of the volume. -/

/-- The levels of an instance with the limits `lo` and `hi`. -/
structure Within (lo hi : Int) (s : LegacyAgc) : Prop where
  scale : s.scale = 0
  minLevel : s.minLevel = lo
  maxAnalog : s.maxAnalog = hi
  minOutput : lo ≤ s.minOutput ∧ s.minOutput ≤ hi
  maxLevel : hi ≤ s.maxLevel

section Stages

variable {lo hi : Int} {s : LegacyAgc}

theorem within_levelIntake (h : Within lo hi s) (inMicLevel lvl : Int) :
    Within lo hi (levelIntake s inMicLevel lvl).val.1 := by
  rw [levelIntake, Chk.val_bind, Chk.val_bind, Chk.val_pure]
  obtain ⟨f, v1, -, h1⟩ := firstLevel_writes s lvl
  set r1 := (firstLevel s lvl).val
  obtain ⟨v2, h2⟩ := raiseLowLevel_writes r1.1 (digitalLevel r1.1 r1.2)
  set r2 := (raiseLowLevel r1.1 (digitalLevel r1.1 r1.2)).val
  obtain ⟨v3, h3⟩ := matchLevel_writes r2.1 inMicLevel r2.2
  have hw : Within lo hi (matchLevel r2.1 inMicLevel r2.2).1 := by
    rw [h3, h2, h1]
    exact { h with }
  split
  · rename_i hgt
    exact { hw with maxLevel := hw.maxLevel.trans hgt.le }
  · exact { hw with }

theorem within_saturationStage (h : Within lo hi s) (lvl : Int) :
    Within lo hi (saturationStage s lvl).val.1 := by
  unfold saturationStage
  dsimp only
  split
  · exact { h with }
  · exact { h with }

theorem within_zeroCtrl (h : Within lo hi s) (lvl : Int) : Within lo hi (zeroCtrl s lvl).val.1 := by
  unfold zeroCtrl
  dsimp only
  split
  · exact { h with }
  · exact { h with }

theorem within_speakerInactiveCtrl (h : Within lo hi s) : Within lo hi (speakerInactiveCtrl s) := by
  unfold speakerInactiveCtrl
  split
  · exact { h with }
  · exact { h with }

theorem within_analogStart (h : Within lo hi s) (inMicLevel lvl : Int) :
    Within lo hi (analogStart s inMicLevel lvl).val.1 := by
  rw [analogStart, Chk.val_bind, Chk.val_bind, Chk.val_bind, Chk.val_pure]
  exact within_speakerInactiveCtrl
    (within_zeroCtrl (within_saturationStage (within_levelIntake h _ _) _) _)

theorem within_trackSpeech (h : Within lo hi s) : Within lo hi (trackSpeech s) := by
  obtain ⟨_, _, _, hw⟩ := trackSpeech_writes s
  rw [hw]
  exact { h with }

/-- The lowered maximum stays at the analog one or above it. -/
theorem within_lowerRecording (h : Within lo hi s) (factor lp lvl lastMicVol : Int) :
    Within lo hi (lowerRecording factor lp s lvl lastMicVol).val.1 := by
  rw [lowerRecording, Chk.val_bind, Chk.val_bind, Chk.val_bind, Chk.val_pure]
  refine { h with maxLevel := ?_ }
  have hmax := h.maxAnalog
  dsimp only
  split <;> omega

theorem within_adaptLevel (h : Within lo hi s) (lvl lastMicVol : Int) :
    Within lo hi (adaptLevel s lvl lastMicVol).val.1 := by
  unfold adaptLevel
  split
  · dsimp only
    split
    · have hw : Within lo hi
          { s with msTooHigh := i16 (s.msTooHigh + 2), msTooLow := 0, changeToSlowMode := 0 } :=
        { h with }
      have hlow := within_lowerRecording hw 31130 (i32 (s.Rxx160_LPw32 / 2 ^ 6 * 53)) lvl lastMicVol
      exact { hlow with }
    · exact { h with }
  split
  · dsimp only
    split
    · apply within_lowerRecording
      exact { h with }
    · exact { h with }
  split
  · dsimp only
    split
    · exact { h with }
    · exact { h with }
  split
  · dsimp only
    split
    · exact { h with }
    · exact { h with }
  · dsimp only
    split
    · exact { h with }
    · exact { h with }

theorem within_analogBlock {r : LegacyAgc × Int} (h : Within lo hi r.1)
    (vadLogRatio lastMicVol e : Int) :
    Within lo hi (analogBlock vadLogRatio lastMicVol r e).val.1 := by
  have hp : Within lo hi (pushEnergy r.1 e) := { h with }
  unfold analogBlock
  dsimp only
  split
  · exact within_adaptLevel (within_trackSpeech hp) _ _
  · exact hp

theorem within_analogBlocks (vadLogRatio lastMicVol : Int) :
    ∀ (es : List Int) {r : LegacyAgc × Int}, Within lo hi r.1 →
      Within lo hi (analogBlocks vadLogRatio lastMicVol r es).val.1
  | [], _, h => h
  | e :: es, r, h => by
    rw [analogBlocks, Chk.val_bind]
    exact within_analogBlocks vadLogRatio lastMicVol es
      (within_analogBlock h vadLogRatio lastMicVol e)

/-- The last step puts the volume above the minimum of its output, so what is
put out is within the limits. -/
theorem within_guardAndClamp (h : Within lo hi s) (echo lastMicVol : Int) :
    Within lo hi (guardAndClamp s echo lastMicVol) ∧
      lo ≤ (guardAndClamp s echo lastMicVol).micVol := by
  refine ⟨{ h with }, ?_⟩
  have h1 := h.minOutput
  have h2 := h.maxLevel
  unfold guardAndClamp
  dsimp only
  generalize (if guardActive s echo then if s.micVol > lastMicVol then lastMicVol else s.micVol
    else s.micVol) = v
  split
  · omega
  · split <;> omega

theorem within_processAnalog (h : Within lo hi s) {inMicLevel vadLogRatio echo : Int}
    {a : AnalogResult} (ha : (processAnalog s inMicLevel vadLogRatio echo).val = some a) :
    Within lo hi a.agc ∧ lo ≤ a.outMicLevel ∧ a.outMicLevel ≤ hi := by
  obtain ⟨lvl, r, b, -, -, rfl, rfl, hagc, hout⟩ := processAnalog_cases ha
  have hb := within_analogBlocks vadLogRatio (analogStart s inMicLevel lvl).val.2.2.1
    ((analogStart s inMicLevel lvl).val.1.Rxx16w32_array0.take 5)
    (r := ((analogStart s inMicLevel lvl).val.1, (analogStart s inMicLevel lvl).val.2.1))
    (within_analogStart h inMicLevel lvl)
  obtain ⟨hw, hv⟩ := within_guardAndClamp hb echo (analogStart s inMicLevel lvl).val.2.2.1
  rw [← hagc] at hw hv
  have h1 := hw.minOutput
  refine ⟨hw, ?_⟩
  rw [hout, hw.scale, hw.maxAnalog, Int.toNat_zero, pow_zero, Int.ediv_one]
  split <;> omega

theorem within_setConfig (h : Within lo hi s) (c : WebRtcAgcConfig) :
    Within lo hi (setConfig s c).1 :=
  of_setConfig (fun _ => ⟨fun h => { h with }, fun h => { h with }⟩) h c

theorem within_addMic (h : Within lo hi s) (in_mic : List (List Int)) :
    Within lo hi (addMic s in_mic).val.agc := by
  rcases addMic_cases s in_mic with hr | ⟨idx, bands, -, -, hr⟩
  · rw [hr]
    exact h
  · rw [hr]
    exact { h with }

theorem within_addFarend (h : Within lo hi s) (in_far : List Int) :
    Within lo hi (addFarend s in_far).1 := by
  unfold addFarend
  split
  · exact h
  · exact { h with }

/-- `WebRtcAgc_Process` on a level within the limits: it is put out within the
limits, and the only failure is a frame of a wrong size or rate. -/
theorem within_process (h : Within lo hi s) {in_near out : List (List Int)} {level echo : Int}
    {r : ProcessResult} (hl : lo ≤ level ∧ level ≤ hi) (hint : InI32 level)
    (hr : (process s in_near out level echo).val = some r) :
    Within lo hi r.agc ∧
      ((getAddFarendError s (in_near.headD []).length ≠ 0 ∧ r.ret = -1) ∨
        r.ret = 0 ∧ ∃ l, r.outMicLevel = some l ∧ lo ≤ l ∧ l ≤ hi) := by
  rcases process_cases hr with ⟨hfs, rfl⟩ | ⟨-, d, o, -, hstage⟩
  · exact ⟨h, .inl ⟨hfs, rfl⟩⟩
  have hd : Within lo hi { s with digitalAgc := d } := { h with }
  rcases hstage with ⟨-, hnone, -⟩ | ⟨a, -, ha, rfl⟩ | ⟨-, rfl⟩
  · -- the level is one the analog stage takes
    refine absurd ?_ (Failure.processAnalog_eq_none.mp hnone)
    have hlevel : i32 (level * 2 ^ s.scale.toNat) = level := by
      rw [h.scale, Int.toNat_zero, pow_zero, mul_one, i32_of hint]
    unfold Failure.LevelOk
    dsimp only
    rw [hlevel, h.minLevel, h.maxAnalog]
    exact hl
  · obtain ⟨hw, hout⟩ := within_processAnalog hd ha
    exact ⟨{ hw with }, .inr ⟨rfl, _, rfl, hout⟩⟩
  · exact ⟨{ hd with }, .inr ⟨rfl, _, rfl, hl⟩⟩

end Stages

theorem within_initFinish {lo hi : Int} {i : LegacyAgc} (h : Within lo hi i) :
    Within lo hi (initFinish i lo hi).1 := by
  have hc := within_setConfig h i.defaultConfig
  unfold initFinish
  dsimp only
  split
  · exact { hc with }
  · exact { hc with }

/-- `WebRtcAgc_Init` in the adaptive analog mode, whatever it returns. -/
theorem within_init {lo hi : Int} (h0 : 0 ≤ lo) (h1 : lo ≤ hi) (h2 : hi ≤ 65535)
    (s : LegacyAgc) (fs : Int) :
    Within lo hi (init s lo hi (mapSetting .kAdaptiveAnalog) fs).val.1 := by
  have hlo : lowestLevel (mapSetting .kAdaptiveAnalog) lo = lo := rfl
  have hhi : highestLevel (mapSetting .kAdaptiveAnalog) hi = hi := rfl
  rw [init, if_neg (by decide), Chk.val_bind, Chk.val_pure, hlo, hhi, initInstance,
    Levels.initLevels_eq _ h0 h1 (by omega), pure_bind, Chk.val_pure]
  apply within_initFinish
  refine ⟨rfl, rfl, rfl, ?_, ?_⟩
  · show lo ≤ lo + (hi + (hi - lo) / 4 - lo) * 10 / 2 ^ 8 ∧
      lo + (hi + (hi - lo) / 4 - lo) * 10 / 2 ^ 8 ≤ hi
    omega
  · show hi ≤ hi + (hi - lo) / 4
    omega

/-! ### The channels -/

/-- A controller within the limits, with its level. -/
def ControllerOk (lo hi : Int) (k : GainController) : Prop :=
  Within lo hi k.state_ ∧ lo ≤ k.capture_level_ ∧ k.capture_level_ ≤ hi

/-- What every call on a channel keeps, the loop keeps for all of them. -/
theorem forChannels_keeps {f : GainController → List (List Int) →
    Option MultiChannel.ChannelResult}
    {P : GainController → Prop}
    (hf : ∀ k bands r, P k → f k bands = some r → P r.controller) :
    ∀ {ks : List GainController} {audio : List (List (List Int))} {l : MultiChannel.LoopResult},
      (∀ k ∈ ks, P k) → MultiChannel.forChannels f ks audio = some l →
        (∀ k ∈ l.controllers, P k) ∧ l.controllers.length = ks.length
  | [], audio, l, h, hl => by
    obtain rfl := Option.some.inj hl
    exact ⟨h, rfl⟩
  | k :: ks, audio, l, h, hl => by
    obtain ⟨hk, hks⟩ := List.forall_mem_cons.mp h
    rw [MultiChannel.forChannels] at hl
    cases hr : f k (audio.headD []) with
    | none =>
      rw [hr] at hl
      cases hl
    | some r =>
      have hk' := hf k _ r hk hr
      rw [hr] at hl
      dsimp only at hl
      split at hl
      · obtain rfl := Option.some.inj hl
        exact ⟨List.forall_mem_cons.mpr ⟨hk', hks⟩, rfl⟩
      · obtain ⟨l', hl', rfl⟩ := Option.map_eq_some_iff.mp hl
        obtain ⟨hks', hlen⟩ := forChannels_keeps hf hks hl'
        exact ⟨List.forall_mem_cons.mpr ⟨hk', hks'⟩, congrArg (· + 1) hlen⟩

theorem ok_addMicTo {lo hi level : Int} (hl : lo ≤ level ∧ level ≤ hi) (k : GainController)
    (bands : List (List Int)) (r : MultiChannel.ChannelResult) (hk : ControllerOk lo hi k)
    (hr : MultiChannel.addMicTo level k bands = some r) : ControllerOk lo hi r.controller := by
  obtain rfl := Option.some.inj hr
  exact ⟨within_addMic hk.1 bands, hl⟩

theorem ok_processOn {lo hi : Int} (h0 : 0 ≤ lo) (h2 : hi ≤ 65535) (echo : Bool)
    (k : GainController) (bands : List (List Int)) (r : MultiChannel.ChannelResult)
    (hk : ControllerOk lo hi k)
    (hr : MultiChannel.processOn echo k bands = some r) : ControllerOk lo hi r.controller := by
  obtain ⟨p, hp, hpr⟩ := Option.map_eq_some_iff.mp hr
  obtain ⟨hw, hout⟩ :=
    within_process hk.1 hk.2 ⟨by have := hk.2; omega, by have := hk.2; omega⟩ hp
  rcases hout with ⟨-, hret⟩ | ⟨hret, l, hl, hrange⟩
  · rw [if_pos (by rw [hret]; decide)] at hpr
    rw [← hpr]
    exact ⟨hw, hk.2⟩
  · rw [if_neg (by rw [hret]; decide), hl] at hpr
    rw [← hpr]
    exact ⟨hw, hrange⟩

/-- The sum of the levels is exact as long as the largest possible one is. -/
theorem levelSum_range {lo hi : Int} (h0 : 0 ≤ lo) :
    ∀ (ks : List GainController) (sum : Int), 0 ≤ sum →
    (∀ k ∈ ks, lo ≤ k.capture_level_ ∧ k.capture_level_ ≤ hi) →
    sum + ks.length * hi < 2 ^ 31 →
    sum + ks.length * lo ≤ ks.foldl (fun sum k => i32 (sum + k.capture_level_)) sum ∧
      ks.foldl (fun sum k => i32 (sum + k.capture_level_)) sum ≤ sum + ks.length * hi
  | [], sum, _, _, _ => by simp
  | k :: ks, sum, hs, hk, hb => by
    obtain ⟨⟨hk0, hk1⟩, hks⟩ := List.forall_mem_cons.mp hk
    have hlen : ((k :: ks).length : Int) = ks.length + 1 := by simp
    rw [hlen, Int.add_mul, one_mul] at hb ⊢
    rw [Int.add_mul, one_mul]
    have hnn : 0 ≤ (ks.length : Int) * hi := Int.mul_nonneg (by omega) (by omega)
    have hadd : i32 (sum + k.capture_level_) = sum + k.capture_level_ :=
      i32_of ⟨by omega, by omega⟩
    rw [List.foldl_cons, hadd]
    obtain ⟨h1, h2⟩ := levelSum_range h0 ks (sum + k.capture_level_) (by omega) hks (by omega)
    exact ⟨by omega, by omega⟩

/-- The average of levels within the limits is within the limits. -/
theorem averageLevel_range {lo hi level : Int} (h0 : 0 ≤ lo) {ks : List GainController} {n : ℕ}
    (hn : ks.length = n) (hb : n * hi < 2 ^ 31)
    (hk : ∀ k ∈ ks, lo ≤ k.capture_level_ ∧ k.capture_level_ ≤ hi)
    (h : MultiChannel.averageLevel n ks = some level) : lo ≤ level ∧ level ≤ hi := by
  unfold MultiChannel.averageLevel at h
  split at h
  · cases h
  rename_i hpos
  obtain rfl := Option.some.inj h
  have hn1 : (1 : Int) ≤ n := by omega
  obtain ⟨h1, h2⟩ := levelSum_range h0 ks 0 le_rfl hk (by rw [hn]; omega)
  rw [← MultiChannel.levelSum, hn, zero_add] at h1 h2
  have hlo : 0 ≤ (n : Int) * lo := Int.mul_nonneg (by omega) h0
  rw [Int.emod_eq_of_lt (by omega) (by omega)]
  have hq0 : lo ≤ MultiChannel.levelSum ks / n :=
    Int.le_ediv_of_mul_le (by omega) (by rw [mul_comm]; exact h1)
  have hq1 : MultiChannel.levelSum ks / n ≤ hi :=
    Int.ediv_le_of_le_mul (by omega) (by rw [mul_comm]; exact h2)
  have hq2 : MultiChannel.levelSum ks / n ≤ MultiChannel.levelSum ks :=
    Int.ediv_le_self _ (by omega)
  rw [i32_of ⟨by omega, by omega⟩]
  exact ⟨hq0, hq1⟩

/-! ### The object -/

/-- The limits are in order and contain the level. In the adaptive analog mode
the controllers have these limits too. -/
structure Tied (g : MultiChannel.GainControlImpl) : Prop where
  limits : 0 ≤ g.minimum_capture_level_ ∧ g.maximum_capture_level_ ≤ 65535
  level : g.minimum_capture_level_ ≤ g.analog_capture_level_ ∧
    g.analog_capture_level_ ≤ g.maximum_capture_level_
  channels : g.enabled_ = true → g.mode_ = .kAdaptiveAnalog →
    g.num_proc_channels_ = some g.gain_controllers_.length ∧
      ∀ k ∈ g.gain_controllers_,
        ControllerOk g.minimum_capture_level_ g.maximum_capture_level_ k

section Object

variable {g g' : MultiChannel.GainControlImpl}

theorem tied_configure (h : Tied g) : Tied g.configure.1 := by
  refine ⟨h.limits, h.level, fun he hm => ?_⟩
  obtain ⟨hn, hk⟩ := h.channels he hm
  unfold MultiChannel.GainControlImpl.configure
  dsimp only
  constructor
  · rw [hn, List.length_map, List.length_map]
  · intro k hmem
    rw [List.map_map] at hmem
    obtain ⟨k', hk', rfl⟩ := List.mem_map.mp hmem
    exact ⟨within_setConfig (hk k' hk').1 _, (hk k' hk').2⟩

/-- `Initialize` gives the controllers the limits and the level of the object. -/
theorem tied_initializeImpl (hlim : 0 ≤ g.minimum_capture_level_ ∧
    g.maximum_capture_level_ ≤ 65535)
    (hlev : g.minimum_capture_level_ ≤ g.analog_capture_level_ ∧
      g.analog_capture_level_ ≤ g.maximum_capture_level_)
    (mem : ℕ → LegacyAgc) (n : ℕ) (r : Int) : Tied (g.initializeImpl mem n r) := by
  unfold MultiChannel.GainControlImpl.initializeImpl
  dsimp only
  split
  · rename_i he
    exact ⟨hlim, hlev, fun he' => absurd he' he⟩
  · apply tied_configure
    refine ⟨hlim, hlev, fun _ hm => ⟨?_, fun k hk => ?_⟩⟩
    · dsimp only
      rw [List.length_map, MultiChannel.GainControlImpl.length_resized]
    · obtain ⟨s, -, rfl⟩ := List.mem_map.mp hk
      have hm : g.mode_ = .kAdaptiveAnalog := hm
      refine ⟨?_, hlev⟩
      unfold MultiChannel.GainControlImpl.initOf
      dsimp only
      rw [hm]
      exact within_init hlim.1 (hlev.1.trans hlev.2) hlim.2 s r

theorem tied_startAgain {mem : ℕ → LegacyAgc} (h : g.startAgain mem = some g')
    (hlim : 0 ≤ g.minimum_capture_level_ ∧ g.maximum_capture_level_ ≤ 65535)
    (hlev : g.minimum_capture_level_ ≤ g.analog_capture_level_ ∧
      g.analog_capture_level_ ≤ g.maximum_capture_level_) :
    Tied g' := by
  unfold MultiChannel.GainControlImpl.startAgain at h
  split at h
  · obtain rfl := Option.some.inj h
    exact tied_initializeImpl hlim hlev mem _ _
  · cases h

theorem tied_processRenderAudio (h : Tied g) (x : List Int) : Tied (g.processRenderAudio x) := by
  unfold MultiChannel.GainControlImpl.processRenderAudio
  split
  · exact h
  · refine ⟨h.limits, h.level, fun he hm => ?_⟩
    obtain ⟨hn, hk⟩ := h.channels he hm
    dsimp only
    refine ⟨by rw [hn, List.length_map], fun k hmem => ?_⟩
    obtain ⟨k', hk', rfl⟩ := List.mem_map.mp hmem
    exact ⟨within_addFarend (hk k' hk').1 x, (hk k' hk').2⟩

theorem tied_analyzeCaptureAudio (h : Tied g) {audio : List (List (List Int))}
    {r : MultiChannel.GainControlImpl.Result} (hr : g.analyzeCaptureAudio audio = some r) :
    Tied r.gc := by
  unfold MultiChannel.GainControlImpl.analyzeCaptureAudio at hr
  split at hr
  · obtain rfl := Option.some.inj hr
    exact h
  split at hr
  · cases hr
  split at hr
  · obtain ⟨l, hl, rfl⟩ := Option.map_eq_some_iff.mp hr
    refine ⟨h.limits, h.level, fun he hm => ?_⟩
    obtain ⟨hn, hk⟩ := h.channels he hm
    obtain ⟨hk', hlen⟩ := forChannels_keeps (ok_addMicTo h.level) hk hl
    exact ⟨by rw [hlen]; exact hn, hk'⟩
  · rename_i hmode
    obtain ⟨l, hl, rfl⟩ := Option.map_eq_some_iff.mp hr
    exact ⟨h.limits, h.level, fun _ hm => absurd (hmode.symm.trans hm) (by decide)⟩
  · obtain rfl := Option.some.inj hr
    exact h

/-- The new level is the average of levels within the limits. -/
theorem tied_processCaptureAudio (h : Tied g) {audio : List (List (List Int))} {echo : Bool}
    {r : MultiChannel.GainControlImpl.Result}
    (hb : g.mode_ = .kAdaptiveAnalog → audio.length * g.maximum_capture_level_ < 2 ^ 31)
    (hr : g.processCaptureAudio audio echo = some r) : Tied r.gc := by
  unfold MultiChannel.GainControlImpl.processCaptureAudio at hr
  split at hr
  · obtain rfl := Option.some.inj hr
    exact h
  rename_i he
  have he := not_not.mp he
  split at hr
  · obtain rfl := Option.some.inj hr
    exact h
  split at hr
  · cases hr
  rename_i hnum
  obtain ⟨l, hl, hr⟩ := Option.bind_eq_some_iff.mp hr
  dsimp only at hr
  by_cases hm : g.mode_ = .kAdaptiveAnalog
  swap
  · -- in the other modes nothing is asked of the controllers
    rw [if_neg hm] at hr
    split at hr
    · obtain rfl := Option.some.inj hr
      exact ⟨h.limits, h.level, fun _ hm' => absurd hm' hm⟩
    · obtain rfl := Option.some.inj hr
      exact ⟨h.limits, h.level, fun _ hm' => absurd hm' hm⟩
  obtain ⟨hn, hk⟩ := h.channels he hm
  obtain ⟨hk', hlen⟩ := forChannels_keeps (ok_processOn h.limits.1 h.limits.2 echo) hk hl
  have hchannels : g.num_proc_channels_ = some l.controllers.length := by rw [hlen]; exact hn
  rw [if_pos hm] at hr
  split at hr
  · obtain rfl := Option.some.inj hr
    exact ⟨h.limits, h.level, fun _ _ => ⟨hchannels, hk'⟩⟩
  · obtain ⟨level, hlevel, rfl⟩ := Option.map_eq_some_iff.mp hr
    have haudio : l.controllers.length = audio.length :=
      Option.some.inj (hchannels.symm.trans (not_not.mp hnum))
    exact ⟨h.limits, averageLevel_range h.limits.1 haudio (hb hm)
      (fun k hmem => (hk' k hmem).2) hlevel, fun _ _ => ⟨hchannels, hk'⟩⟩

end Object

/-! ### Whole runs -/

/-- What a call has to respect: accepted limits contain the level, and in the
adaptive analog mode as many times the maximum as there are channels is an
`int`. -/
def Respects (g : MultiChannel.GainControlImpl) : MultiChannel.Call → Prop
  | .setAnalogLevelLimits _ minimum maximum =>
    0 ≤ minimum → minimum ≤ maximum → maximum ≤ 65535 →
      minimum ≤ g.analog_capture_level_ ∧ g.analog_capture_level_ ≤ maximum
  | .processCaptureAudio audio _ =>
    g.mode_ = .kAdaptiveAnalog → audio.length * g.maximum_capture_level_ < 2 ^ 31
  | _ => True

/-- A call that respects the level. -/
def RespectStep (g : MultiChannel.GainControlImpl) (c : MultiChannel.Call)
    (g' : MultiChannel.GainControlImpl) : Prop :=
  MultiChannel.CallStep g c g' ∧ Respects g c

theorem tied_run {g g' : MultiChannel.GainControlImpl} {c : MultiChannel.Call} (h : Tied g)
    (hstep : RespectStep g c g') : Tied g' := by
  obtain ⟨hrun, hres⟩ := hstep
  cases c with
  | enable mem e =>
    rcases MultiChannel.GainControlImpl.enable_cases hrun with ⟨hoff, rfl⟩ | hagain
    · refine ⟨h.limits, h.level, fun he => h.channels ?_⟩
      -- it was enabled before, or `Initialize` would have been called
      by_contra hdis
      exact hoff ⟨he, hdis⟩
    · exact tied_startAgain hagain h.limits h.level
  | initializeImpl mem n r =>
    obtain rfl := Option.some.inj hrun
    exact tied_initializeImpl h.limits h.level mem n r
  | setMode mem mode =>
    rcases MultiChannel.GainControlImpl.setMode_cases hrun with rfl | hagain
    · exact h
    · exact tied_startAgain hagain h.limits h.level
  | setAnalogLevelLimits mem minimum maximum =>
    rcases MultiChannel.GainControlImpl.setAnalogLevelLimits_cases hrun
      with rfl | ⟨⟨h0, h1, h2⟩, hagain⟩
    · exact h
    · exact tied_startAgain hagain ⟨h0, h2⟩ (hres h0 h1 h2)
  | setStreamAnalogLevel level =>
    obtain rfl := Option.some.inj hrun
    unfold MultiChannel.GainControlImpl.setStreamAnalogLevel
    dsimp only
    split
    · exact ⟨h.limits, h.level, h.channels⟩
    · exact ⟨h.limits, by dsimp only; omega, h.channels⟩
  | setTargetLevelDbfs level =>
    obtain rfl := Option.some.inj hrun
    rcases MultiChannel.GainControlImpl.setTargetLevelDbfs_cases level with heq | heq
    · rw [heq]
      exact h
    · rw [heq]
      apply tied_configure
      exact ⟨h.limits, h.level, h.channels⟩
  | setCompressionGainDb gain =>
    obtain rfl := Option.some.inj hrun
    rcases MultiChannel.GainControlImpl.setCompressionGainDb_cases gain with heq | heq
    · rw [heq]
      exact h
    · rw [heq]
      apply tied_configure
      exact ⟨h.limits, h.level, h.channels⟩
  | enableLimiter e =>
    obtain rfl := Option.some.inj hrun
    apply tied_configure
    exact ⟨h.limits, h.level, h.channels⟩
  | processRenderAudio x =>
    obtain rfl := Option.some.inj hrun
    exact tied_processRenderAudio h x
  | analyzeCaptureAudio audio =>
    obtain ⟨r, hr, rfl⟩ := Option.map_eq_some_iff.mp hrun
    exact tied_analyzeCaptureAudio h hr
  | processCaptureAudio audio echo =>
    obtain ⟨r, hr, rfl⟩ := Option.map_eq_some_iff.mp hrun
    exact tied_processCaptureAudio h hres hr

/-- In every run of calls that respect the level, it is within the limits in
every state, and in the adaptive analog mode the only failures of
`WebRtcAgc_Process` are those of a frame of a wrong size or rate. -/
theorem level_within_limits {cs : List MultiChannel.Call} {g : MultiChannel.GainControlImpl}
    (hrun : Run RespectStep .new cs g) :
    (g.minimum_capture_level_ ≤ g.analog_capture_level_ ∧
      g.analog_capture_level_ ≤ g.maximum_capture_level_) ∧
    (g.enabled_ = true → g.mode_ = .kAdaptiveAnalog → ∀ k ∈ g.gain_controllers_,
      ∀ in_near out echo r, (process k.state_ in_near out k.capture_level_ echo).val = some r →
      r.ret ≠ 0 →
      getAddFarendError k.state_ (in_near.headD []).length ≠ 0) := by
  have hnew : Tied .new := ⟨by decide, by decide, fun he => absurd he (by decide)⟩
  have ht := hrun.invariant hnew fun _ _ _ h hs => tied_run h hs
  refine ⟨ht.level, fun he hm k hk in_near out echo r hr hret => ?_⟩
  obtain ⟨hw, hl0, hl1⟩ := (ht.channels he hm).2 k hk
  have hlim := ht.limits
  rcases (within_process hw ⟨hl0, hl1⟩ ⟨by omega, by omega⟩ hr).2
    with ⟨hfs, -⟩ | ⟨hzero, -⟩
  · exact hfs
  · exact absurd hzero hret

/-- Limits that contain the level 0. -/
theorem level_within_limits_fifty :
    ∃ g, Run RespectStep .new [.initializeImpl (fun _ => .cleared) 1 8000,
        .setAnalogLevelLimits (fun _ => .cleared) 0 50, .setStreamAnalogLevel 30] g ∧
      g.maximum_capture_level_ = 50 ∧ g.analog_capture_level_ = 30 ∧
      (g.minimum_capture_level_ ≤ g.analog_capture_level_ ∧
        g.analog_capture_level_ ≤ g.maximum_capture_level_) := by
  have h1 : Run RespectStep .new [.initializeImpl (fun _ => .cleared) 1 8000] _ :=
    .one ⟨rfl, trivial⟩
  have h2 := h1.snoc (a := MultiChannel.Call.setAnalogLevelLimits (fun _ => .cleared) 0 50)
    ⟨rfl, fun _ _ _ => by decide⟩
  have h3 := h2.snoc (a := MultiChannel.Call.setStreamAnalogLevel 30) ⟨rfl, trivial⟩
  exact ⟨_, h3, rfl, rfl, (level_within_limits h3).1⟩

/-- New limits that do not contain the level: the level 0 is below the minimum
10, also after a level is refused; and on a frame of the right size the next
call of `WebRtcAgc_Process` fails. -/
theorem level_outside_limits :
    ∃ g, Run MultiChannel.CallStep .new [.initializeImpl (fun _ => .cleared) 1 8000,
        .enable (fun _ => .cleared) true, .setAnalogLevelLimits (fun _ => .cleared) 10 20,
          .setStreamAnalogLevel 5] g ∧
      g.analog_capture_level_ = 0 ∧ g.minimum_capture_level_ = 10 ∧
      (g.processCaptureAudio [[List.replicate 80 1000]] false).map (·.error) =
        some kUnspecifiedError := by
  have h1 : Run MultiChannel.CallStep .new [.initializeImpl (fun _ => .cleared) 1 8000] _ :=
    .one rfl
  have h2 := h1.snoc (a := MultiChannel.Call.enable (fun _ => .cleared) true) rfl
  have h3 := h2.snoc (a := MultiChannel.Call.setAnalogLevelLimits (fun _ => .cleared) 10 20) rfl
  have h4 := h3.snoc (a := MultiChannel.Call.setStreamAnalogLevel 5) rfl
  exact ⟨_, h4, rfl, rfl, by decide +kernel⟩

end LevelLimits
end AgcSpec
