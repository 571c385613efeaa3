/-
# The settings of the wrapper and of the instance

`GainControlImpl` keeps its settings in fields of its own and pushes them down
to the instance: the setters of the target level, the gain and the limiter by
`Configure`, on whatever controller there is; the mode and the level limits by
a new controller, and only while the gain control is enabled.

* `wrapper_agrees`: after `Enable(true)` and any calls, whenever the gain
  control is enabled the instance is in its mode and reports its settings; and
  no `WebRtcAgc_set_config` that `Configure` makes is rejected.

The level limits play no part: `WebRtcAgc_Init` has written everything before
it checks them, so an instance it rejects takes a configuration too.
-/
import AgcSpec.Config
import AgcSpec.Lifecycle
import AgcSpec.Shipped

namespace AgcSpec
namespace Agreement

open FixedPoint Runs Config Lifecycle

/-! ### The calls of `Configure` -/

/-- The controller that `Initialize` makes, with the object it configures. -/
def recreated (g : GainControlImpl) (mem : LegacyAgc) :
    Option (GainControlImpl × GainController) :=
  if ¬ g.enabled_ then none
  else some (g, GainController.initializeController mem g.minimum_capture_level_
    g.maximum_capture_level_ g.mode_ g.sample_rate_hz_ g.analog_capture_level_)

/-- The object and the controller on which a call runs `Configure`; `none` if
it does not. -/
def configured (g : GainControlImpl) : ApmCall → Option (GainControlImpl × GainController)
  | .enable mem e => if e ∧ ¬ g.enabled_ then recreated { g with enabled_ := e } mem else none
  | .setMode mem mode =>
    if mapSetting mode = -1 then none else recreated { g with mode_ := mode } mem
  | .setTargetLevelDbfs level =>
    if level > 31 ∨ level < 0 then none else g.gain_controller_.map fun k =>
      ({ g with target_level_dbfs_ := level }, k)
  | .setCompressionGainDb gain =>
    if gain < 0 ∨ gain > 90 then none else g.gain_controller_.map fun k =>
      ({ g with compression_gain_db_ := gain }, k)
  | .enableLimiter e => g.gain_controller_.map fun k => ({ g with limiter_enabled_ := e }, k)
  | .setAnalogLevelLimits mem minimum maximum =>
    if minimum < 0 then none else if maximum < 0 then none else if maximum < minimum then none
    else recreated { g with minimum_capture_level_ := minimum, maximum_capture_level_ := maximum }
      mem
  | .setStreamAnalogLevel _ => none
  | .processStream _ => none
  | .destory => none

/-- What a call without `Configure` can do: the settings stay, and the object
stays in its mode or ends up disabled. -/
structure Kept (p q : Profile) : Prop where
  target : q.target = p.target
  gain : q.gain = p.gain
  limiter : q.limiter = p.limiter
  core : q.core = p.core
  enabled : q.enabled = true → p.enabled = true ∧ q.mode = p.mode

theorem Kept.refl (p : Profile) : Kept p p := ⟨rfl, rfl, rfl, rfl, fun h => ⟨h, rfl⟩⟩

/-- The object after a call on one with the profile `p`: the configured object,
or one with the settings it had. -/
def Outcome (p : Profile) : Option (GainControlImpl × GainController) → GainControlImpl → Prop
  | some (g, k), b => b = (g.configureOn k).1
  | none, b => Kept p (profile b)

theorem outcome_initializeImpl {p : Profile} {g : GainControlImpl}
    (htarget : g.target_level_dbfs_ = p.target) (hgain : g.compression_gain_db_ = p.gain)
    (hlimiter : g.limiter_enabled_ = p.limiter) (hcore : (profile g).core = p.core)
    (mem : LegacyAgc) :
    Outcome p (recreated g mem) (g.initializeImpl mem g.num_proc_channels_ g.sample_rate_hz_) := by
  unfold recreated GainControlImpl.initializeImpl
  dsimp only
  split_ifs with he
  · rfl
  · exact ⟨htarget, hgain, hlimiter, hcore, fun hen => absurd hen he⟩

theorem outcome_configure {p : Profile} {g b : GainControlImpl} {error : Int}
    (h : g.configure = some (b, error)) : Outcome p (g.gain_controller_.map fun k => (g, k)) b := by
  obtain ⟨k, hk, he⟩ := Option.map_eq_some_iff.mp h
  rw [hk]
  exact (congrArg Prod.fst he).symm

/-- A call that configures leaves the configured object; any other one keeps
the settings. -/
theorem run_outcome {a b : AudioProcessingImpl} {c : ApmCall} (h : c.run a = some (some b)) :
    Outcome (profile a.gain_control_) (configured a.gain_control_ c) b.gain_control_ := by
  cases c with
  | enable mem e =>
    obtain rfl := Option.some.inj (Option.some.inj h)
    rw [configured]
    unfold GainControlImpl.enable
    split_ifs with he
    · apply outcome_initializeImpl <;> rfl
    · exact ⟨rfl, rfl, rfl, rfl, fun hen =>
        ⟨by_contra fun hdis => he ⟨hen, hdis⟩, rfl⟩⟩
  | setMode mem mode =>
    obtain rfl := Option.some.inj (Option.some.inj h)
    rw [configured]
    unfold GainControlImpl.setMode
    split_ifs
    · exact .refl _
    · apply outcome_initializeImpl <;> rfl
  | setTargetLevelDbfs level =>
    obtain ⟨⟨g, error⟩, hg, hb⟩ := Option.map_eq_some_iff.mp h
    obtain rfl := Option.some.inj hb
    rw [configured]
    rw [GainControlImpl.setTargetLevelDbfs] at hg
    split_ifs at hg ⊢
    · cases hg
      exact .refl _
    · exact outcome_configure hg
  | setCompressionGainDb gain =>
    obtain ⟨⟨g, error⟩, hg, hb⟩ := Option.map_eq_some_iff.mp h
    obtain rfl := Option.some.inj hb
    rw [configured]
    rw [GainControlImpl.setCompressionGainDb] at hg
    split_ifs at hg ⊢
    · cases hg
      exact .refl _
    · exact outcome_configure hg
  | enableLimiter e =>
    obtain ⟨⟨g, error⟩, hg, hb⟩ := Option.map_eq_some_iff.mp h
    obtain rfl := Option.some.inj hb
    exact outcome_configure hg
  | setAnalogLevelLimits mem minimum maximum =>
    obtain rfl := Option.some.inj (Option.some.inj h)
    rw [configured]
    unfold GainControlImpl.setAnalogLevelLimits
    split_ifs
    · exact .refl _
    · exact .refl _
    · exact .refl _
    · apply outcome_initializeImpl <;> rfl
  | setStreamAnalogLevel level =>
    obtain rfl := Option.some.inj (Option.some.inj h)
    rw [configured]
    unfold GainControlImpl.setStreamAnalogLevel
    dsimp only
    split_ifs <;> exact .refl _
  | processStream data =>
    cases data with
    | none =>
      obtain rfl := Option.some.inj (Option.some.inj h)
      exact .refl _
    | some data =>
      obtain ⟨r, hr, hb⟩ := Option.map_eq_some_iff.mp h
      obtain rfl := Option.some.inj hb
      rw [configured, Outcome, profile_processStream hr]
      exact .refl _
  | destory =>
    obtain ⟨_, -, hb⟩ := Option.map_eq_some_iff.mp h
    cases hb

/-! ### Configurations are accepted -/

/-- The settings are in the ranges of their setters. -/
structure InRange (g : GainControlImpl) : Prop where
  target : 0 ≤ g.target_level_dbfs_ ∧ g.target_level_dbfs_ ≤ 31
  gain : 0 ≤ g.compression_gain_db_ ∧ g.compression_gain_db_ ≤ 90

/-- The settings as `WebRtcAgc_get_config` should report them. -/
def reported (p : Profile) : WebRtcAgcConfig :=
  ⟨p.target, p.gain, if p.limiter then kAgcTrue else kAgcFalse⟩

theorem config_eq {g : GainControlImpl} (h : InRange g) : g.config = reported (profile g) := by
  obtain ⟨⟨ht0, ht1⟩, ⟨hg0, hg1⟩⟩ := h
  have ht : i16 g.target_level_dbfs_ = g.target_level_dbfs_ := i16_of ⟨by omega, by omega⟩
  have hg : i16 g.compression_gain_db_ = g.compression_gain_db_ := i16_of ⟨by omega, by omega⟩
  rw [GainControlImpl.config, ht, hg]
  rfl

/-- In the fixed digital mode the gain is at most 121, in the others at most
90; the generator table goes further. -/
theorem gainOk_config {g : GainControlImpl} (h : InRange g) (m : Mode) :
    GainOk (mapSetting m) g.config := by
  have hbound : ∀ x : Int, 0 ≤ x → x ≤ 121 → 0 ≤ diffDigitalGain x ∧
      diffDigitalGain x < kGenFuncTableSize := by
    decide +kernel
  rw [GainOk, config_eq h]
  obtain ⟨⟨ht0, ht1⟩, ⟨hg0, hg1⟩⟩ := h
  have hsum : i16 (g.compression_gain_db_ + g.target_level_dbfs_) =
      g.compression_gain_db_ + g.target_level_dbfs_ :=
    i16_of ⟨by omega, by omega⟩
  cases m with
  | kAdaptiveAnalog => exact hbound g.compression_gain_db_ hg0 (by omega)
  | kAdaptiveDigital => exact hbound g.compression_gain_db_ hg0 (by omega)
  | kFixedDigital =>
    have hgain : effectiveGain (mapSetting .kFixedDigital) (reported (profile g)) =
        g.compression_gain_db_ + g.target_level_dbfs_ := hsum
    rw [hgain]
    exact hbound _ (by omega) (by omega)

/-- An instance that takes a configuration: it is initialised, in one of the
modes of the gain control. -/
def Ready (s : LegacyAgc) : Prop := s.initFlag = kInitCheck ∧ ∃ m : Mode,
    s.agcMode = mapSetting m

/-- A configuration with settings in range is accepted. -/
theorem setConfig_accepted {g : GainControlImpl} {s : LegacyAgc} (hg : InRange g) (hs : Ready s) :
    (setConfig s g.config).2 = 0 ∧ (setConfig s g.config).1.agcMode = s.agcMode ∧
      (setConfig s g.config).1.initFlag = kInitCheck ∧
        (setConfig s g.config).1.usedConfig = g.config := by
  obtain ⟨hflag, m, hm⟩ := hs
  have htab : tableOf s.agcMode g.config ≠ none := by
    rw [hm, Ne, tableOf_eq_none, not_not]
    exact gainOk_config hg m
  obtain ⟨t, ht⟩ := Option.ne_none_iff_exists'.mp htab
  have hlim : LimiterOk g.config := by
    rw [config_eq hg]
    cases hl : g.limiter_enabled_ with
    | false => exact .inl (by simp [reported, profile, hl])
    | true => exact .inr (by simp [reported, profile, hl])
  have htarget : TargetOk g.config := by
    rw [config_eq hg]
    exact hg.target
  rw [setConfig_table hflag hlim htarget, ht]
  exact ⟨rfl, rfl, hflag, rfl⟩

/-- `WebRtcAgc_set_config` writes neither the mode nor the flag. -/
theorem ready_setConfig {s : LegacyAgc} (h : s.initFlag = kInitCheck) (c : WebRtcAgcConfig) :
    (setConfig s c).1.initFlag = kInitCheck ∧ (setConfig s c).1.agcMode = s.agcMode := by
  rcases setConfig_cases h c with ⟨-, hset⟩ | ⟨t, -, hset⟩
  · exact ⟨(congrArg Settings.initFlag hset).trans h, congrArg Settings.agcMode hset⟩
  · rw [hset]
    exact ⟨h, rfl⟩

theorem initFinish_settings {i : LegacyAgc} (h : i.initFlag = kInitCheck) (lo hi : Int) :
    (initFinish i lo hi).1.initFlag = kInitCheck ∧
      (initFinish i lo hi).1.agcMode = i.agcMode := by
  have hset := ready_setConfig h i.defaultConfig
  unfold initFinish
  dsimp only
  split <;> exact hset

/-- A new controller takes a configuration, whatever its range of levels is. -/
theorem initializeController_ready (mem : LegacyAgc) (minimum maximum : Int) (mode : Mode)
    (rate level : Int) :
    (GainController.initializeController mem minimum maximum mode rate level).state_.initFlag =
      kInitCheck ∧
    (GainController.initializeController mem minimum maximum mode rate level).state_.agcMode =
      mapSetting mode := by
  unfold GainController.initializeController init
  rw [if_neg (by cases mode <;> decide), Chk.val_bind, Chk.val_pure]
  exact initFinish_settings rfl _ _

/-! ### The invariant -/

/-- Both copies of the settings agree while the gain control is enabled; the
instance is ready for a configuration all the time. -/
structure Agrees (p : Profile) : Prop where
  target : 0 ≤ p.target ∧ p.target ≤ 31
  gain : 0 ≤ p.gain ∧ p.gain ≤ 90
  core : ∃ s, p.core = some s ∧ s.initFlag = kInitCheck ∧
    (∃ m : Mode, s.agcMode = mapSetting m) ∧
      (p.enabled = true → s.agcMode = mapSetting p.mode ∧ s.usedConfig = reported p)

theorem agrees_configureOn {g : GainControlImpl} {k : GainController} (hg : InRange g)
    (hk : Ready k.state_) (hmode : g.enabled_ = true → k.state_.agcMode = mapSetting g.mode_) :
    Agrees (profile (g.configureOn k).1) := by
  obtain ⟨-, hagc, hflag, hused⟩ := setConfig_accepted hg hk
  refine ⟨hg.target, hg.gain, (setConfig k.state_ g.config).1.settings, rfl, hflag, ?_,
    fun he => ⟨?_, ?_⟩⟩
  · obtain ⟨m, hm⟩ := hk.2
    exact ⟨m, hagc.trans hm⟩
  · exact hagc.trans (hmode he)
  · exact hused.trans (config_eq hg)

theorem agrees_kept {p q : Profile} (hp : Agrees p) (h : Kept p q) : Agrees q := by
  obtain ⟨s, hs, hflag, hm, hen⟩ := hp.core
  refine ⟨by rw [h.target]; exact hp.target, by rw [h.gain]; exact hp.gain, s,
    by rw [h.core]; exact hs, hflag, hm, fun he => ?_⟩
  obtain ⟨he', hmode⟩ := h.enabled he
  obtain ⟨h1, h2⟩ := hen he'
  refine ⟨by rw [hmode]; exact h1, ?_⟩
  rw [h2, reported, reported, h.target, h.gain, h.limiter]

/-- What a call hands to `Configure`: settings in range, and a controller that
takes them and is in the mode of an enabled object. -/
structure Handed (g : GainControlImpl) (k : GainController) : Prop where
  range : InRange g
  ready : Ready k.state_
  mode : g.enabled_ = true → k.state_.agcMode = mapSetting g.mode_

theorem handed_recreated {g g' : GainControlImpl} {mem : LegacyAgc} {k : GainController}
    (h : recreated g mem = some (g', k)) (hg : InRange g) : Handed g' k := by
  unfold recreated at h
  split at h
  · cases h
  · obtain ⟨rfl, rfl⟩ := Prod.mk.inj (Option.some.inj h)
    obtain ⟨hflag, hmode⟩ :=
      initializeController_ready mem g.minimum_capture_level_ g.maximum_capture_level_ g.mode_
      g.sample_rate_hz_ g.analog_capture_level_
    exact ⟨hg, ⟨hflag, g.mode_, hmode⟩, fun _ => hmode⟩

/-- The controller of an object whose settings agree takes any settings in
range. -/
theorem handed_current {g g' : GainControlImpl} {k : GainController} (hg : Agrees (profile g))
    (hg' : InRange g')
    (he : g'.enabled_ = g.enabled_) (hm : g'.mode_ = g.mode_) (hk : g.gain_controller_ = some k) :
    Handed g' k := by
  obtain ⟨s, hs, hflag, hmode, hen⟩ := hg.core
  obtain rfl : k.state_.settings = s := by simpa [profile, hk] using hs
  refine ⟨hg', ⟨hflag, hmode⟩, fun h => ?_⟩
  rw [hm]
  exact (hen (he.symm.trans h)).1

theorem handed_configured {g g' : GainControlImpl} {c : ApmCall} {k : GainController}
    (hg : Agrees (profile g)) (h : configured g c = some (g', k)) : Handed g' k := by
  have hrange : InRange g := ⟨hg.target, hg.gain⟩
  cases c with
  | enable mem e =>
    rw [configured] at h
    split at h
    · exact handed_recreated h ⟨hrange.target, hrange.gain⟩
    · cases h
  | setMode mem mode =>
    rw [configured] at h
    split at h
    · cases h
    · exact handed_recreated h ⟨hrange.target, hrange.gain⟩
  | setTargetLevelDbfs level =>
    rw [configured] at h
    split at h
    · cases h
    · obtain ⟨k', hk, he⟩ := Option.map_eq_some_iff.mp h
      obtain ⟨rfl, rfl⟩ := Prod.mk.inj he
      exact handed_current hg ⟨by dsimp only; omega, hrange.gain⟩ rfl rfl hk
  | setCompressionGainDb gain =>
    rw [configured] at h
    split at h
    · cases h
    · obtain ⟨k', hk, he⟩ := Option.map_eq_some_iff.mp h
      obtain ⟨rfl, rfl⟩ := Prod.mk.inj he
      exact handed_current hg ⟨hrange.target, by dsimp only; omega⟩ rfl rfl hk
  | enableLimiter e =>
    obtain ⟨k', hk, he⟩ := Option.map_eq_some_iff.mp h
    obtain ⟨rfl, rfl⟩ := Prod.mk.inj he
    exact handed_current hg ⟨hrange.target, hrange.gain⟩ rfl rfl hk
  | setAnalogLevelLimits mem minimum maximum =>
    rw [configured] at h
    split at h
    · cases h
    split at h
    · cases h
    split at h
    · cases h
    exact handed_recreated h ⟨hrange.target, hrange.gain⟩
  | setStreamAnalogLevel level => cases h
  | processStream data => cases h
  | destory => cases h

/-! ### Whole runs -/

theorem agrees_run {a b : AudioProcessingImpl} {c : ApmCall} (ha : Agrees (profile a.gain_control_))
    (h : c.run a = some (some b)) : Agrees (profile b.gain_control_) := by
  have hout := run_outcome h
  cases hc : configured a.gain_control_ c with
  | none =>
    rw [hc] at hout
    exact agrees_kept ha hout
  | some p =>
    obtain ⟨g, k⟩ := p
    obtain ⟨hrange, hready, hmode⟩ := handed_configured ha hc
    rw [hc] at hout
    rw [show b.gain_control_ = (g.configureOn k).1 from hout]
    exact agrees_configureOn hrange hready hmode

/-- The first call hands the settings of the constructor to a new controller. -/
theorem handed_create {mem mem' : LegacyAgc} {n r : Int} {g : GainControlImpl} {k : GainController}
    (h : configured (AudioProcessingImpl.create mem n r).gain_control_ (.enable mem' true) =
      some (g, k)) :
    Handed g k := by
  have h' : recreated { (AudioProcessingImpl.create mem n r).gain_control_ with enabled_ := true }
    mem' = some (g, k) := h
  apply handed_recreated h'
  exact ⟨(by decide : (0 : Int) ≤ 2 ∧ (2 : Int) ≤ 31),
    (by decide : (0 : Int) ≤ 9 ∧ (9 : Int) ≤ 90)⟩

theorem agrees_shipped (mem mem' : LegacyAgc) (n r : Int) :
    Agrees (profile (Shipped.shipped mem mem' n r).gain_control_) := by
  have hc : configured (AudioProcessingImpl.create mem n r).gain_control_ (.enable mem' true) =
      some ({ GainControlImpl.new 1 8000 with enabled_ := true },
        GainController.initializeController mem' 0 255 .kFixedDigital 8000 0) := rfl
  obtain ⟨hrange, hready, hmode⟩ := handed_create hc
  exact agrees_configureOn hrange hready hmode

theorem agrees_of_run {mem mem' : LegacyAgc} {n r : Int} {cs : List ApmCall}
    {t : Option AudioProcessingImpl}
    (hrun : Run ApmStep (some (Shipped.shipped mem mem' n r)) cs t) :
    ∀ a, t = some a → Agrees (profile a.gain_control_) := by
  refine hrun.invariant (I := fun t => ∀ a, t = some a → Agrees (profile a.gain_control_)) ?_ ?_
  · intro a ha
    rw [← Option.some.inj ha]
    exact agrees_shipped mem mem' n r
  · rintro t c u ht hstep b rfl
    obtain ⟨a, rfl, h⟩ := Option.bind_eq_some_iff.mp hstep
    exact agrees_run (ht a rfl) h

/-- After `Enable(true)` on a new object and any further calls, accepted or
rejected: while the gain control is enabled, the instance of its controller is
in its mode and reports exactly its settings. The configurations that the
first call and every later one hand down are accepted. -/
theorem wrapper_agrees {mem mem' : LegacyAgc} {n r : Int} {cs : List ApmCall}
    {a : AudioProcessingImpl}
    (hrun : Run ApmStep (some (Shipped.shipped mem mem' n r)) cs (some a)) :
    (a.gain_control_.enabled_ = true → ∃ k, a.gain_control_.gain_controller_ = some k ∧
      k.state_.agcMode = mapSetting a.gain_control_.mode_ ∧
      getConfig k.state_ = some ⟨a.gain_control_.target_level_dbfs_,
        a.gain_control_.compression_gain_db_, if a.gain_control_.limiter_enabled_ then kAgcTrue
          else kAgcFalse⟩) ∧
    (∀ g k, configured (AudioProcessingImpl.create mem n r).gain_control_ (.enable mem' true) =
      some (g, k) → (setConfig k.state_ g.config).2 = 0) ∧
    ∀ c g k, configured a.gain_control_ c = some (g, k) →
      (setConfig k.state_ g.config).2 = 0 := by
  have hag := agrees_of_run hrun a rfl
  refine ⟨fun he => ?_, fun g k h => ?_, fun c g k h => ?_⟩
  · obtain ⟨s, hs, hflag, -, hen⟩ := hag.core
    obtain ⟨k, hk, rfl⟩ := Option.map_eq_some_iff.mp hs
    obtain ⟨hmode, hused⟩ := hen he
    have hflag : k.state_.initFlag = kInitCheck := hflag
    refine ⟨k, hk, hmode, ?_⟩
    rw [getConfig, if_neg (not_not.mpr hflag)]
    exact congrArg some hused
  · have hh := handed_create h
    exact (setConfig_accepted hh.range hh.ready).1
  · have hh := handed_configured hag h
    exact (setConfig_accepted hh.range hh.ready).1

/-- The mode is changed, and then the gain. -/
theorem wrapper_agrees_twenty :
    ∃ a k, Run ApmStep (some (Shipped.shipped .cleared .cleared 0 0))
        [.setMode .cleared .kAdaptiveDigital, .setCompressionGainDb 20] (some a) ∧
      a.gain_control_.gain_controller_ = some k ∧ k.state_.agcMode = kAgcModeAdaptiveDigital ∧
      getConfig k.state_ = some ⟨2, 20, kAgcTrue⟩ := by
  have h1 : Run ApmStep (some (Shipped.shipped .cleared .cleared 0 0))
      [.setMode .cleared .kAdaptiveDigital] _ :=
    .one rfl
  have h2 : Run ApmStep (some (Shipped.shipped .cleared .cleared 0 0))
    [.setMode .cleared .kAdaptiveDigital, .setCompressionGainDb 20] _ := h1.snoc rfl
  obtain ⟨k, hk, hmode, hconf⟩ := (wrapper_agrees h2).1 rfl
  exact ⟨_, k, h2, hk, hmode, hconf⟩

end Agreement
end AgcSpec
