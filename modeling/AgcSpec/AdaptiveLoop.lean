/-
# The closed loop of the adaptive digital mode

In the adaptive digital mode `AnalyzeCaptureAudio` runs the virtual
microphone, whose gain index is the capture level that `ProcessCaptureAudio`
then feeds to `WebRtcAgc_Process`; the analog stage sets the volume from it,
and the volume is where the virtual microphone starts in the next 10 ms. Each
of the three has an error return for a level out of range. None of them is
taken, whatever the samples and whatever settings are made in between
(`stream_never_fails`): the gain index stays between 0 and 255, because only
a gain above 1 can saturate a sample and take it down (`virtualLoop_spec`);
the volume above the maximum is covered by the gain table of
`WebRtcAgc_AddMic` (`micGain_spec`); and the digital stage returns, because
the settings of the object give tables up to `2^29` only.
-/
import AgcSpec.Levels
import AgcSpec.TableRange
import AgcSpec.Shipped

namespace AgcSpec
namespace AdaptiveLoop

open FixedPoint Runs Gains Levels

/-! ### The virtual microphone -/

/-- A gain that can take the index down is one of the upper half of the
levels. -/
structure IdxInv (idx gain : Int) : Prop where
  index : 0 ≤ idx ∧ idx ≤ 255
  factor : 0 ≤ gain ∧ gain ≤ 32767
  upper : 1024 < gain → 127 ≤ idx

theorem gainTable_range (i : ℕ) :
    0 ≤ kGainTableVirtualMic.getD i 0 ∧ kGainTableVirtualMic.getD i 0 ≤ 32767 :=
  forall_getD (P := fun x => 0 ≤ x ∧ x ≤ 32767) (by decide) (by decide +kernel) i

theorem suppressionTable_range (i : ℕ) :
    0 ≤ kSuppressionTableVirtualMic.getD i 0 ∧ kSuppressionTableVirtualMic.getD i 0 ≤ 1024 :=
  forall_getD (P := fun x => 0 ≤ x ∧ x ≤ 1024) (by decide) (by decide +kernel) i

theorem idxInv_start {idx : Int} (h : 0 ≤ idx ∧ idx ≤ 255) :
    IdxInv idx (virtualGainStart idx).val := by
  rw [virtualGainStart]
  split
  · exact ⟨h, gainTable_range _, fun _ => by omega⟩
  · obtain ⟨h0, h1⟩ := suppressionTable_range (127 - idx).toNat
    exact ⟨h, ⟨h0, h1.trans (by decide)⟩, fun hlt => absurd h1 (not_le.mpr hlt)⟩

/-- A sample that saturates takes the index down by one, from 127 at least. -/
theorem idxInv_next {idx : Int} (h : 127 ≤ idx ∧ idx ≤ 255) :
    IdxInv (idx - 1) (virtualGainNext (idx - 1)).val := by
  rw [virtualGainNext]
  split
  · exact ⟨⟨by omega, by omega⟩, gainTable_range _, fun _ => by omega⟩
  · obtain ⟨h0, h1⟩ := suppressionTable_range (127 - (idx - 1)).toNat
    exact ⟨⟨by omega, by omega⟩, ⟨h0, h1.trans (by decide)⟩, fun hlt =>
      absurd h1 (not_le.mpr hlt)⟩

/-- One sample: the product is exact, and only a gain above 1 saturates. -/
theorem virtualLoop_cons {idx gain x : Int} (hx : InI16 x) (h : IdxInv idx gain) (xs : List Int) :
    ((x * gain / 2 ^ 10 > 32767 ∨ x * gain / 2 ^ 10 < -32768) → 127 ≤ idx) ∧
      virtualLoop idx gain (x :: xs) =
        (if x * gain / 2 ^ 10 > 32767 ∨ x * gain / 2 ^ 10 < -32768 then do
          let next ← virtualGainNext (idx - 1)
          let r ← virtualLoop (idx - 1) next xs
          pure (r.1, sat16 (x * gain / 2 ^ 10) :: r.2.1, next :: r.2.2)
        else do
          let r ← virtualLoop idx gain xs
          pure (r.1, x * gain / 2 ^ 10 :: r.2.1, gain :: r.2.2)) := by
  obtain ⟨hx0, hx1⟩ := hx
  obtain ⟨hg0, hg1⟩ := h.factor
  obtain ⟨hm0, hm1⟩ := mul_range (x := x) (y := gain) (X := 2 ^ 15) (Y := 32767)
    ⟨by omega, by omega⟩
    ⟨by omega, by omega⟩
  refine ⟨fun hsat => h.upper ?_,
    by rw [virtualLoop, ck32_eq ⟨by omega, by omega⟩, pure_bind]⟩
  -- with a gain of at most 1 the product is a 16-bit number
  by_contra hle
  obtain ⟨hu0, hu1⟩ : x * gain ≤ 32767 * 1024 ∧ -32768 * 1024 ≤ x * gain := by
    constructor <;> nlinarith
  omega

/-- The loop keeps the index in range and gives as many 16-bit samples. -/
theorem virtualLoop_spec : ∀ (xs : List Int) {idx gain : Int},
    (∀ x ∈ xs, InI16 x) → IdxInv idx gain →
      (0 ≤ (virtualLoop idx gain xs).val.1 ∧ (virtualLoop idx gain xs).val.1 ≤ 255) ∧
        (virtualLoop idx gain xs).val.2.1.length = xs.length ∧
          ∀ y ∈ (virtualLoop idx gain xs).val.2.1, InI16 y
  | [], idx, gain, _, h => ⟨h.index, rfl, by simp [virtualLoop]⟩
  | x :: xs, idx, gain, hx, h => by
    have hxs : ∀ y ∈ xs, InI16 y := fun y hy => hx y (List.mem_cons_of_mem _ hy)
    obtain ⟨hup, heq⟩ := virtualLoop_cons (hx x List.mem_cons_self) h xs
    rw [heq]
    split
    · rename_i hsat
      obtain ⟨h1, h2, h3⟩ := virtualLoop_spec xs hxs (idxInv_next ⟨hup hsat, h.index.2⟩)
      rw [Chk.val_bind, Chk.val_bind, Chk.val_pure]
      exact ⟨h1, by simp [h2], List.forall_mem_cons.mpr ⟨inI16_sat16 _, h3⟩⟩
    · rename_i hsat
      obtain ⟨h1, h2, h3⟩ := virtualLoop_spec xs hxs h
      rw [Chk.val_bind, Chk.val_pure]
      exact ⟨h1, by simp [h2], List.forall_mem_cons.mpr ⟨⟨by omega, by omega⟩, h3⟩⟩

theorem virtualEntry_index {t : LegacyAgc} (h : LevelInv t)
    (hm : t.agcMode = kAgcModeAdaptiveDigital) (in_near : List (List Int)) (micLevelIn : Int) :
    0 ≤ (virtualEntry t in_near micLevelIn).2 ∧
      (virtualEntry t in_near micLevelIn).2 ≤ 255 := by
  obtain ⟨h0, h1⟩ := h.virtual hm
  have hv := h.micVol.1
  unfold virtualEntry virtualStart
  dsimp only
  split
  · exact (by decide : (0 : Int) ≤ 127 ∧ (127 : Int) ≤ 255)
  · dsimp only
    split <;> omega

/-! ### The microphone gain -/

theorem targetGainIdx_lt {s : LegacyAgc} (h : LevelInv s) (hmax : s.maxInit ≤ s.maxAnalog + 32767)
    (hv : s.maxAnalog < s.micVol) : (targetGainIdx s).val < GAIN_TBL_LEN := by
  have hml := h.maxLevel.2
  obtain ⟨q, hq, -, hq1⟩ := targetGainIdx_eq hv h.micVol.2 (by omega)
  rw [hq, Chk.val_pure, show GAIN_TBL_LEN = 32 from rfl]
  omega

/-- `WebRtcAgc_AddMic` finds its gain, and scales the samples to 16 bits. -/
theorem micGain_spec {s : LegacyAgc} (h : LevelInv s) (hmax : s.maxInit ≤ s.maxAnalog + 32767)
    (in_mic : List (List Int)) :
    ∃ (idx : Int) (f : Int → Int), (∀ x, InI16 x → InI16 (f x)) ∧
      (micGain s in_mic).val = some (idx, in_mic.map (List.map f)) := by
  rw [micGain]
  split
  · rename_i hv
    have hlv : ¬ ¬ s.maxLevel > s.maxAnalog := not_not.mpr (lt_of_lt_of_le hv h.micVol.2)
    rw [if_neg hlv, Chk.val_bind, if_neg (not_not.mpr (targetGainIdx_lt h hmax hv)), Chk.val_bind]
    exact ⟨_, scaleMic _, fun x _ => inI16_sat16 _, rfl⟩
  · exact ⟨0, id, fun x hx => hx, by simp⟩

/-! ### The instance -/

/-- What an instance of the adaptive digital mode keeps from call to call. -/
structure LoopInv (s : LegacyAgc) : Prop where
  levels : LevelInv s
  mode : s.agcMode = kAgcModeAdaptiveDigital
  fs : s.fs = 8000
  maxInit : s.maxInit ≤ s.maxAnalog + 32767
  initFlag : s.initFlag = kInitCheck
  table : Bounded s.digitalAgc.gainTable
  capacitors : CapRange ⟨s.digitalAgc.capacitorFast, s.digitalAgc.capacitorSlow⟩

/-- What a call that leaves format, range and settings has to show. -/
theorem loopInv_of {s t : LegacyAgc} (h : LoopInv s) (hl : LevelInv t) (hr : t.ranges = s.ranges)
    (hs : t.settings = s.settings)
    (hc : CapRange ⟨t.digitalAgc.capacitorFast, t.digitalAgc.capacitorSlow⟩) : LoopInv t := by
  have e1 : t.agcMode = s.agcMode := congrArg Ranges.agcMode hr
  have e2 : t.fs = s.fs := congrArg Ranges.fs hr
  have e3 : t.maxInit = s.maxInit := congrArg Ranges.maxInit hr
  have e4 : t.maxAnalog = s.maxAnalog := congrArg Ranges.maxAnalog hr
  have e5 : t.initFlag = s.initFlag := congrArg Settings.initFlag hs
  have e6 : t.digitalAgc.gainTable = s.digitalAgc.gainTable := congrArg Settings.gainTable hs
  exact ⟨hl, e1.trans h.mode, e2.trans h.fs, by rw [e3, e4]; exact h.maxInit, e5.trans h.initFlag,
    e6.symm ▸ h.table, hc⟩

/-- `WebRtcAgc_Init` in this mode takes the range 0 to 255 whatever it is
given. -/
theorem loopInv_init (mem : LegacyAgc) (minLevel maxLevel : Int) :
    ∃ s, (init (create mem) minLevel maxLevel kAgcModeAdaptiveDigital 8000).val = (s, 0) ∧
      LoopInv s := by
  have hlo : lowestLevel kAgcModeAdaptiveDigital minLevel = 0 := if_pos rfl
  have hhi : highestLevel kAgcModeAdaptiveDigital maxLevel = 255 := if_pos rfl
  obtain ⟨s, hs⟩ := Config.init_returns (create mem) minLevel maxLevel kAgcModeAdaptiveDigital
    8000 (by decide)
    (by rw [hlo, hhi]; decide)
  obtain ⟨hl, hm⟩ := levelInv_init (by rw [hlo, hhi]; decide) hs
  obtain ⟨t, ht, hb⟩ := TableRange.tableOf_bounded (c := Config.defaultConfig)
    (by decide) (by decide)
  refine ⟨s, hs, ?_⟩
  obtain ⟨-, -, i, t', hi, ht', rfl⟩ := Config.init_ok hs
  obtain rfl : t = t' := Option.some.inj (ht.symm.trans ht')
  subst hi
  have hcap : CapRange ⟨0, 134217728⟩ :=
    ⟨⟨by decide, by decide⟩, ⟨by decide, by decide⟩⟩
  exact ⟨hl, hm, rfl, (by decide : (318 : Int) ≤ 255 + 32767), rfl, hb, hcap⟩

/-- A configuration that the object passes on is accepted. -/
theorem loopInv_setConfig {s : LegacyAgc} (h : LoopInv s) {c : WebRtcAgcConfig}
    (hl : Config.LimiterOk c) (ht : 0 ≤ c.targetLevelDbfs ∧ c.targetLevelDbfs ≤ 31)
    (hg : 0 ≤ c.compressionGaindB ∧ c.compressionGaindB ≤ 90) :
    LoopInv (setConfig s c).1 ∧ (setConfig s c).2 = 0 := by
  obtain ⟨t, htab, hb⟩ := TableRange.tableOf_bounded ht hg
  have heq := Config.setConfig_table h.initFlag hl ht
  rw [h.mode, htab] at heq
  have hlev := levelInv_setConfig h.levels c
  rw [heq] at hlev ⊢
  exact ⟨⟨hlev, h.mode, h.fs, h.maxInit, h.initFlag, hb, h.capacitors⟩, rfl⟩

theorem virtualEntry_range {s : LegacyAgc} (h : LoopInv s) (in_near : List (List Int)) (l : Int) :
    0 ≤ (virtualEntry s in_near l).2 ∧ (virtualEntry s in_near l).2 ≤ 255 :=
  virtualEntry_index h.levels h.mode in_near l

/-- The virtual microphone on 10 ms of 16-bit samples: it succeeds, and puts
out a level from 0 to 255. -/
theorem virtualMic_loop {s : LegacyAgc} (h : LoopInv s) {audio : List Int}
    (hlen : audio.length = 80) (hx : ∀ x ∈ audio, InI16 x) (l : Int) :
    ∃ t out lvl, (virtualMic s [audio] l).val = ⟨0, t, [out], lvl⟩ ∧ LoopInv t ∧
      out.length = 80 ∧
      (∀ x ∈ out, InI16 x) ∧ 0 ≤ lvl ∧ lvl ≤ 255 := by
  obtain ⟨hidx, hl, hr⟩ :=
    virtualLoop_spec audio hx (idxInv_start (virtualEntry_range h [audio] l))
  have hv : LoopInv (virtualState s [audio] l) := by
    refine loopInv_of h (levelInv_virtualState h.levels h.mode _ l) (ranges_virtualState s _ l)
      (settings_virtualState s _ l) ?_
    rw [digitalAgc_virtualState]
    exact h.capacitors
  obtain ⟨idx, f, hf, hg⟩ := micGain_spec hv.levels hv.maxInit (virtualBands s [audio] l)
  have hadd : (addMic (virtualState s [audio] l) (virtualBands s [audio] l)).val =
      ⟨0, micAnalyse { virtualState s [audio] l with gainTableIdx := idx }
        ((virtualBands s [audio] l).map (List.map f)),
        (virtualBands s [audio] l).map (List.map f)⟩ := by
    have hframe : ¬ ((virtualBands s [audio] l).headD []).length ≠
        10 * micSubframe (virtualState s [audio] l).fs := by
      rw [hv.fs]
      exact not_not.mpr (hl.trans hlen)
    rw [addMic, if_neg hframe, Chk.val_bind, hg]
    rfl
  have hscale : (virtualState s [audio] l).scale = 0 := hv.levels.scale
  rw [virtualMic_eq, hadd, hscale]
  refine ⟨_, (virtualRun s [audio] l).2.1.map f, _, rfl, ?_, ?_, ?_, ?_⟩
  · have hm := levelInv_addMic hv.levels (virtualBands s [audio] l)
    rw [hadd] at hm
    exact ⟨hm, hv.mode, hv.fs, hv.maxInit, hv.initFlag, hv.table, hv.capacitors⟩
  · rw [List.length_map]
    exact hl.trans hlen
  · intro y hy
    obtain ⟨x, hxm, rfl⟩ := List.mem_map.mp hy
    exact hf x (hr x hxm)
  · rw [show (0 : Int).toNat = 0 from rfl, pow_zero, Int.ediv_one]
    exact hidx

/-- The digital stage returns, and keeps its followers in range. -/
theorem processDigital_bounded {s : DigitalAgc} (hT : Bounded s.gainTable)
    (hc : CapRange ⟨s.capacitorFast, s.capacitorSlow⟩) {FS : Int} {L L2 : ℕ}
    (hL : subframeLength FS = some (L, L2)) (low : Int) {bands : List (List Int)}
    (hx : ∀ x ∈ bands.headD [], InI16 x) :
    ∃ d out, (processDigital s bands FS low).val = .done d out ∧
      CapRange ⟨d.capacitorFast, d.capacitorSlow⟩ := by
  obtain ⟨p, hp, hcap⟩ := planGains_bounded (s := s.nearend L (bands.headD [])) hT hc L low hx
  rw [processDigital, hL]
  dsimp only
  rw [Chk.val_bind, hp]
  exact ⟨_, _, rfl, hcap⟩

/-- `WebRtcAgc_Process` on 10 ms with a level from 0 to 255 succeeds. -/
theorem process_loop {s : LegacyAgc} (h : LoopInv s) {audio : List Int} (hlen : audio.length = 80)
    (hx : ∀ x ∈ audio, InI16 x) (out : List (List Int)) {lvl : Int}
    (hl : 0 ≤ lvl ∧ lvl ≤ 255) (echo : Int) :
    ∃ r, (process s [audio] out lvl echo).val = some r ∧ r.ret = 0 ∧ LoopInv r.agc := by
  obtain ⟨d, o, hd, hcap⟩ := processDigital_bounded h.table h.capacitors
    (show subframeLength s.fs = some (8, 3) by rw [h.fs]; rfl) s.lowLevelSignal
    (show ∀ x ∈ ([audio] : List (List Int)).headD [], InI16 x from hx)
  obtain ⟨r, hr⟩ := process_returns hd out lvl echo
  obtain ⟨hv0, hv1⟩ := h.levels.virtual h.mode
  have hframe : getAddFarendError s ([audio].headD []).length = 0 := by
    simp [getAddFarendError, h.fs, hlen]
  have hlevel : s.minLevel ≤ i32 (lvl * 2 ^ s.scale.toNat) ∧
      i32 (lvl * 2 ^ s.scale.toNat) ≤ s.maxAnalog := by
    rw [h.levels.scale, show (0 : Int).toNat = 0 from rfl, pow_zero, mul_one,
      i32_of ⟨by omega, by omega⟩, hv0, hv1]
    exact hl
  have hmake : ∀ r', (process s [audio] out lvl echo).val = some r' → r'.agc.digitalAgc = d →
      LoopInv r'.agc :=
    fun r' hr' hdig => loopInv_of h (levelInv_process h.levels hr') (ranges_process hr')
      (settings_process hr')
      (hdig.symm ▸ hcap)
  refine ⟨r, hr, ?_⟩
  rcases process_cases hr
    with ⟨hf, -⟩ | ⟨-, d', o', hd', ⟨-, hnone, -⟩ | ⟨a, -, ha, hr'⟩ | ⟨-, hr'⟩⟩
  · exact absurd hframe hf
  · -- the range error of the analog stage
    have hsome := (@processAnalog_eq_some { s with digitalAgc := d' } lvl s.vadMic.logRatio echo
      _).mpr ⟨hlevel, rfl⟩
    rw [hnone] at hsome
    cases hsome
  · obtain ⟨rfl, rfl⟩ : d = d' ∧ o = o' := by
      rw [hd] at hd'
      exact DigitalResult.done.inj hd'
    have hdig := eq_of_untouched LegacyAgc.digitalAgc (fun _ => rfl) (untouched_processAnalog ha)
    subst hr'
    exact ⟨rfl, hmake _ hr hdig⟩
  · obtain ⟨rfl, rfl⟩ : d = d' ∧ o = o' := by
      rw [hd] at hd'
      exact DigitalResult.done.inj hd'
    subst hr'
    exact ⟨rfl, hmake _ hr rfl⟩

/-! ### The object -/

/-- The settings of an object in the adaptive digital mode at 8 kHz, as its
setters leave them. -/
structure LoopSettings (g : GainControlImpl) : Prop where
  mode : g.mode_ = .kAdaptiveDigital
  target : 0 ≤ g.target_level_dbfs_ ∧ g.target_level_dbfs_ ≤ 31
  gain : 0 ≤ g.compression_gain_db_ ∧ g.compression_gain_db_ ≤ 90
  rate : g.sample_rate_hz_ = 8000

/-- The object between calls: its controller, if there is one yet, holds an
instance in order, and there is one once it is enabled. -/
structure Loop (g : GainControlImpl) : Prop extends LoopSettings g where
  controller : ∀ c, g.gain_controller_ = some c → LoopInv c.state_
  enabled : g.enabled_ = true → ∃ c, g.gain_controller_ = some c

theorem loop_configureOn {g : GainControlImpl} (h : LoopSettings g) {c : GainController}
    (hc : LoopInv c.state_) : Loop (g.configureOn c).1 := by
  have hcfg : g.config = ⟨g.target_level_dbfs_, g.compression_gain_db_, if g.limiter_enabled_
      then 1 else 0⟩ := by
    obtain ⟨ht0, ht1⟩ := h.target
    obtain ⟨hg0, hg1⟩ := h.gain
    rw [GainControlImpl.config, i16_of ⟨by omega, by omega⟩, i16_of ⟨by omega, by omega⟩]
  have hlim : Config.LimiterOk g.config := by
    rw [hcfg, Config.LimiterOk]
    cases g.limiter_enabled_
    · exact .inl rfl
    · exact .inr rfl
  obtain ⟨hs, -⟩ := loopInv_setConfig hc hlim (by rw [hcfg]; exact h.target)
    (by rw [hcfg]; exact h.gain)
  refine ⟨⟨h.mode, h.target, h.gain, h.rate⟩, fun c' hc' => ?_, fun _ => ⟨_, rfl⟩⟩
  obtain rfl := Option.some.inj hc'
  exact hs

theorem loop_configure {g g' : GainControlImpl} {e : Int} (h : LoopSettings g)
    (hc : ∀ c, g.gain_controller_ = some c → LoopInv c.state_)
    (hr : g.configure = some (g', e)) : Loop g' := by
  obtain ⟨c, hg, hcfg⟩ := Option.map_eq_some_iff.mp hr
  have := loop_configureOn h (hc c hg)
  rwa [hcfg] at this

/-- `Initialize` of an enabled object makes a new controller. -/
theorem loop_initialize {g : GainControlImpl} (h : LoopSettings g) (hen : g.enabled_ = true)
    (mem : LegacyAgc) (n : Int) : Loop (g.initializeImpl mem n g.sample_rate_hz_) := by
  obtain ⟨s, hs, hinv⟩ := loopInv_init mem g.minimum_capture_level_ g.maximum_capture_level_
  have hset : LoopSettings
      { g with num_proc_channels_ := n, sample_rate_hz_ := g.sample_rate_hz_ } :=
    ⟨h.mode, h.target, h.gain, h.rate⟩
  have hctrl : GainController.initializeController mem g.minimum_capture_level_
    g.maximum_capture_level_ g.mode_
      g.sample_rate_hz_ g.analog_capture_level_ = ⟨s, g.analog_capture_level_⟩ := by
    rw [GainController.initializeController, h.mode, h.rate]
    exact congrArg (fun p : LegacyAgc × Int =>
      (⟨p.1, g.analog_capture_level_⟩ : GainController)) hs
  rw [GainControlImpl.initializeImpl]
  dsimp only
  rw [if_neg (by simp [hen]), hctrl]
  exact loop_configureOn hset hinv

/-! ### The calls -/

/-- The calls on an object in the adaptive digital mode; the contents of fresh
memory are an argument of those that allocate. -/
inductive LoopOp where
  | process (d : StreamData)
  | enable (mem : LegacyAgc) (e : Bool)
  | setMode (mem : LegacyAgc)
  | setStreamAnalogLevel (level : Int)
  | setAnalogLevelLimits (mem : LegacyAgc) (minimum maximum : Int)
  | setTargetLevelDbfs (level : Int)
  | setCompressionGainDb (gain : Int)
  | enableLimiter (e : Bool)

/-- A call that returns. -/
def LoopStep (a : AudioProcessingImpl) (op : LoopOp) (b : AudioProcessingImpl) : Prop :=
  match op with
  | .process d => StreamStep a d b
  | .enable mem e => b = ⟨(a.gain_control_.enable mem e).1⟩
  | .setMode mem => b = ⟨(a.gain_control_.setMode mem .kAdaptiveDigital).1⟩
  | .setStreamAnalogLevel level => b = ⟨(a.gain_control_.setStreamAnalogLevel level).1⟩
  | .setAnalogLevelLimits mem lo hi => b = ⟨(a.gain_control_.setAnalogLevelLimits mem lo hi).1⟩
  | .setTargetLevelDbfs level =>
    ∃ err, a.gain_control_.setTargetLevelDbfs level = some (b.gain_control_, err)
  | .setCompressionGainDb gain =>
    ∃ err, a.gain_control_.setCompressionGainDb gain = some (b.gain_control_, err)
  | .enableLimiter e => ∃ err, a.gain_control_.enableLimiter e = some (b.gain_control_, err)

/-- The object after `AudioProcessing::Create` and `set_mode`; it is still
disabled. -/
def adaptive (mem mem' : LegacyAgc) (num_proc_channels sample_rate_hz : Int) :
    AudioProcessingImpl :=
  ⟨((AudioProcessingImpl.create mem num_proc_channels sample_rate_hz).gain_control_.setMode mem'
    .kAdaptiveDigital).1⟩

theorem loop_adaptive (mem mem' : LegacyAgc) (n r : Int) :
    Loop (adaptive mem mem' n r).gain_control_ :=
  ⟨⟨rfl, (by decide : (0 : Int) ≤ 2 ∧ (2 : Int) ≤ 31),
    (by decide : (0 : Int) ≤ 9 ∧ (9 : Int) ≤ 90), rfl⟩, fun c hc =>
      (Option.some_ne_none c (show none = some c from hc).symm).elim, fun h => by cases h⟩

theorem loop_enable {g : GainControlImpl} (h : Loop g) (mem : LegacyAgc) (e : Bool) :
    Loop (g.enable mem e).1 := by
  have hset : LoopSettings { g with enabled_ := e } := ⟨h.mode, h.target, h.gain, h.rate⟩
  rw [GainControlImpl.enable]
  split
  · rename_i hcond
    exact loop_initialize hset hcond.1 mem g.num_proc_channels_
  · rename_i hcond
    refine ⟨hset, h.controller, fun he => h.enabled ?_⟩
    have he' : e = true := he
    by_contra hg
    exact hcond ⟨he', hg⟩

/-- `Initialize` with new settings, of an object that is enabled or not. -/
theorem loop_reinitialize {g : GainControlImpl} (h : Loop g) (mem : LegacyAgc) (n : Int) :
    Loop (g.initializeImpl mem n g.sample_rate_hz_) := by
  by_cases hen : g.enabled_ = true
  · exact loop_initialize h.toLoopSettings hen mem n
  · rw [GainControlImpl.initializeImpl]
    dsimp only
    rw [if_pos (by simp [hen])]
    exact ⟨⟨h.mode, h.target, h.gain, h.rate⟩, h.controller, fun he => absurd he hen⟩

theorem loop_setMode {g : GainControlImpl} (h : Loop g) (mem : LegacyAgc) :
    Loop (g.setMode mem .kAdaptiveDigital).1 := by
  have hset : Loop { g with mode_ := .kAdaptiveDigital } :=
    ⟨⟨rfl, h.target, h.gain, h.rate⟩, h.controller, h.enabled⟩
  rw [GainControlImpl.setMode, if_neg (by decide)]
  exact loop_reinitialize hset mem g.num_proc_channels_

theorem loop_setStreamAnalogLevel {g : GainControlImpl} (h : Loop g) (level : Int) :
    Loop (g.setStreamAnalogLevel level).1 := by
  rw [GainControlImpl.setStreamAnalogLevel]
  dsimp only
  split <;> exact ⟨⟨h.mode, h.target, h.gain, h.rate⟩, h.controller, h.enabled⟩

theorem loop_setAnalogLevelLimits {g : GainControlImpl} (h : Loop g) (mem : LegacyAgc)
    (lo hi : Int) : Loop (g.setAnalogLevelLimits mem lo hi).1 := by
  have hset : Loop { g with minimum_capture_level_ := lo, maximum_capture_level_ := hi } :=
    ⟨⟨h.mode, h.target, h.gain, h.rate⟩, h.controller, h.enabled⟩
  rw [GainControlImpl.setAnalogLevelLimits]
  split
  · exact h
  split
  · exact h
  split
  · exact h
  · exact loop_reinitialize hset mem g.num_proc_channels_

theorem loop_setTargetLevelDbfs {g g' : GainControlImpl} (h : Loop g) {level err : Int}
    (hr : g.setTargetLevelDbfs level = some (g', err)) : Loop g' := by
  rw [GainControlImpl.setTargetLevelDbfs] at hr
  split at hr
  · obtain ⟨rfl, -⟩ := Prod.mk.inj (Option.some.inj hr)
    exact h
  · exact loop_configure (g := { g with target_level_dbfs_ := level })
      ⟨h.mode, by dsimp only; omega, h.gain, h.rate⟩ h.controller hr

theorem loop_setCompressionGainDb {g g' : GainControlImpl} (h : Loop g) {gain err : Int}
    (hr : g.setCompressionGainDb gain = some (g', err)) : Loop g' := by
  rw [GainControlImpl.setCompressionGainDb] at hr
  split at hr
  · obtain ⟨rfl, -⟩ := Prod.mk.inj (Option.some.inj hr)
    exact h
  · exact loop_configure (g := { g with compression_gain_db_ := gain })
      ⟨h.mode, h.target, by dsimp only; omega, h.rate⟩ h.controller hr

theorem loop_enableLimiter {g g' : GainControlImpl} (h : Loop g) {e : Bool} {err : Int}
    (hr : g.enableLimiter e = some (g', err)) : Loop g' :=
  loop_configure (g := { g with limiter_enabled_ := e }) ⟨h.mode, h.target, h.gain, h.rate⟩
    h.controller hr

/-! ### Ten milliseconds -/

/-- 10 ms through the analysis and the processing: both return `kNoError`, and
the level that the analysis hands to the processing of an enabled object is in
the range of its instance. -/
structure HalfOk (g : GainControlImpl) (audio : List Int) (a r : GainControlImpl.Result) :
    Prop where
  analysed : (g.analyzeCaptureAudio audio).val = some a
  analysis : a.error = kNoError
  level : g.enabled_ = true → ∃ c, a.gc.gain_controller_ = some c ∧
    c.state_.minLevel ≤ c.capture_level_ ∧ c.capture_level_ ≤ c.state_.maxAnalog
  processed : (a.gc.processCaptureAudio a.audio).val = some r
  processing : r.error = kNoError

theorem half_disabled {g : GainControlImpl} (hen : ¬ g.enabled_ = true) (audio : List Int) :
    HalfOk g audio ⟨g, audio, kNoError⟩ ⟨g, audio, kNoError⟩ where
  analysed := by rw [GainControlImpl.analyzeCaptureAudio, if_pos (by simp [hen])]; rfl
  analysis := rfl
  level h := absurd h hen
  processed := by rw [GainControlImpl.processCaptureAudio, if_pos (by simp [hen])]; rfl
  processing := rfl

theorem half_loop {g : GainControlImpl} (h : Loop g) {audio : List Int} (hlen : audio.length = 80)
    (hx : ∀ x ∈ audio, InI16 x) : ∃ a r, HalfOk g audio a r ∧ Loop r.gc := by
  by_cases hen : g.enabled_ = true
  swap
  · exact ⟨_, _, half_disabled hen audio, h⟩
  obtain ⟨c, hc⟩ := h.enabled hen
  obtain ⟨t, out, lvl, hv, hinv, hlen', hx', hl⟩ :=
    virtualMic_loop (h.controller c hc) hlen hx 0
  obtain ⟨q, hq, hret, hinv'⟩ := process_loop hinv hlen' hx' [out] hl 0
  have hana : (g.analyzeCaptureAudio audio).val =
      some ⟨{ g with gain_controller_ := some ⟨t, lvl⟩ }, out, kNoError⟩ := by
    rw [GainControlImpl.analyzeCaptureAudio, if_neg (by simp [hen]), h.mode, hc]
    dsimp only
    rw [Chk.val_bind, hv]
    rfl
  have hproc : (GainControlImpl.processCaptureAudio { g with gain_controller_ := some ⟨t, lvl⟩ }
    out).val = some ⟨{ g with
        gain_controller_ := some ⟨q.agc, q.outMicLevel.getD 0⟩
        stream_is_saturated_ := q.saturationWarning.getD false }, q.out.headD [], kNoError⟩ := by
    rw [GainControlImpl.processCaptureAudio, if_neg (by simp [hen]), if_neg (by simp [h.mode])]
    dsimp only
    rw [Chk.val_bind, hq]
    dsimp only
    rw [hret, if_neg (by decide)]
    rfl
  obtain ⟨hv0, hv1⟩ := hinv.levels.virtual hinv.mode
  refine ⟨_, _, ⟨hana, rfl, fun _ => ⟨_, rfl, ?_, ?_⟩, hproc, rfl⟩, ?_⟩
  · exact hv0.trans_le hl.1
  · exact hl.2.trans hv1.ge
  · refine ⟨⟨h.mode, h.target, h.gain, h.rate⟩, fun c' hc' => ?_, fun _ => ⟨_, rfl⟩⟩
    obtain rfl := Option.some.inj hc'
    exact hinv'

theorem HalfOk.processHalf {g : GainControlImpl} {audio : List Int} {a r : GainControlImpl.Result}
    (h : HalfOk g audio a r) : (g.processHalf audio).val = some r := by
  rw [GainControlImpl.processHalf, Chk.val_bind, h.analysed]
  dsimp only
  rw [if_neg (not_not.mpr h.analysis), h.processed]

/-! ### Whole runs -/

theorem processStream_loop {a : AudioProcessingImpl} (h : Loop a.gain_control_) (d : StreamData) :
    ∃ a0 r0 a1 r1, HalfOk a.gain_control_ d.first a0 r0 ∧ HalfOk r0.gc d.second a1 r1 ∧
      Loop r1.gc ∧
      (processStream a d.samples).val = some ⟨⟨r1.gc⟩, r0.audio ++ r1.audio, kNoError⟩ := by
  obtain ⟨a0, r0, h0, l0⟩ := half_loop h d.length_first d.range_first
  obtain ⟨a1, r1, h1, l1⟩ := half_loop l0 d.length_second d.range_second
  refine ⟨a0, r0, a1, r1, h0, h1, l1, ?_⟩
  rw [processStream, if_neg (not_not.mpr d.length), Chk.val_bind, show d.samples.take 80 =
    d.first from rfl, h0.processHalf]
  dsimp only
  rw [if_neg (not_not.mpr h0.processing), Chk.val_bind, show d.samples.drop 80 = d.second from rfl,
    h1.processHalf, ← h1.processing]
  rfl

theorem loop_step {a b : AudioProcessingImpl} {op : LoopOp} (h : Loop a.gain_control_)
    (hs : LoopStep a op b) : Loop b.gain_control_ := by
  cases op with
  | process d =>
    obtain ⟨a0, r0, a1, r1, -, -, hl, hp⟩ := processStream_loop h d
    have hst : StreamStep a d b := hs
    rw [StreamStep, hp] at hst
    obtain rfl := Option.some.inj hst
    exact hl
  | enable mem e =>
    obtain rfl : b = _ := hs
    exact loop_enable h mem e
  | setMode mem =>
    obtain rfl : b = _ := hs
    exact loop_setMode h mem
  | setStreamAnalogLevel level =>
    obtain rfl : b = _ := hs
    exact loop_setStreamAnalogLevel h level
  | setAnalogLevelLimits mem lo hi =>
    obtain rfl : b = _ := hs
    exact loop_setAnalogLevelLimits h mem lo hi
  | setTargetLevelDbfs level =>
    obtain ⟨err, hr⟩ := hs
    exact loop_setTargetLevelDbfs h hr
  | setCompressionGainDb gain =>
    obtain ⟨err, hr⟩ := hs
    exact loop_setCompressionGainDb h hr
  | enableLimiter e =>
    obtain ⟨err, hr⟩ := hs
    exact loop_enableLimiter h hr

/-- After every sequence of calls on an object in the adaptive digital mode,
whatever the samples and the settings in between, `ProcessStream` returns
`kNoError`: in both halves the analysis and the processing do, and the level
between them is in range. -/
theorem stream_never_fails {mem mem' : LegacyAgc} {n r : Int} {ops : List LoopOp}
    {a : AudioProcessingImpl} (hrun : Run LoopStep (adaptive mem mem' n r) ops a) (d : StreamData) :
    ∃ a0 r0 a1 r1, HalfOk a.gain_control_ d.first a0 r0 ∧ HalfOk r0.gc d.second a1 r1 ∧
      (processStream a d.samples).val = some ⟨⟨r1.gc⟩, r0.audio ++ r1.audio, kNoError⟩ := by
  have h := hrun.invariant (I := fun a => Loop a.gain_control_) (loop_adaptive mem mem' n r)
    fun _ _ _ => loop_step
  obtain ⟨a0, r0, a1, r1, h0, h1, -, hp⟩ := processStream_loop h d
  exact ⟨a0, r0, a1, r1, h0, h1, hp⟩

/-- The object is enabled, set to the largest compression gain and then given
full-scale samples. -/
theorem stream_never_fails_full_scale :
    ∃ b, Run LoopStep (adaptive .cleared .cleared 0 0)
      [.enable .cleared true, .setCompressionGainDb 90] b ∧ b.gain_control_.enabled_ = true ∧
      ∃ a0 r0 a1 r1, HalfOk b.gain_control_ (StreamData.const (-32768) (by decide)).first a0
        r0 ∧ HalfOk r0.gc (StreamData.const (-32768) (by decide)).second a1 r1 ∧
        (processStream b (StreamData.const (-32768) (by decide)).samples).val =
          some ⟨⟨r1.gc⟩, r0.audio ++ r1.audio, kNoError⟩ := by
  have hrun : Run LoopStep (adaptive .cleared .cleared 0 0) [.enable .cleared true,
      .setCompressionGainDb 90] _ :=
    .snoc (.snoc .nil rfl) ⟨0, rfl⟩
  exact ⟨_, hrun, rfl, stream_never_fails hrun _⟩

end AdaptiveLoop
end AgcSpec
