/-
# The speed of the adaptation

Four fields of the instance say how fast the analog stage adapts: the limits
`upperLimit` and `lowerLimit` of the speech level, and the times
`msecSpeechInnerChange` and `msecSpeechOuterChange` that it may be outside
them. `WebRtcAgc_Init` and a saturated frame put all four to the fast mode,
and four seconds of speech inside the limits put all four to the slow one.
`WebRtcAgc_UpdateAgcThresholds` writes the two limits alone: a configuration
that is set in the slow mode leaves the limits of the fast mode with the times
of the slow one. Nothing else mixes them (`unmixed_iff`). The slow mode is
reached by repeating one frame of speech (`run_steady`), and the configuration
after it makes a mixed state (`mixed_after_config`).
-/
import AgcSpec.AdaptiveLoop

namespace AgcSpec
namespace SpeedMode

open FixedPoint Runs Config Gains

/-! ### The two modes -/

/-- The limits of the speech level and the times outside them. -/
structure Speed where
  upperLimit : Int
  lowerLimit : Int
  msecSpeechInnerChange : Int
  msecSpeechOuterChange : Int
deriving DecidableEq

/-- The speed of an instance, and its two modes. -/
def speed (s : LegacyAgc) : Speed :=
  ⟨s.upperLimit, s.lowerLimit, s.msecSpeechInnerChange, s.msecSpeechOuterChange⟩
def fast (s : LegacyAgc) : Speed :=
  ⟨s.startUpperLimit, s.startLowerLimit, kMsecSpeechInner, kMsecSpeechOuter⟩
def slow (s : LegacyAgc) : Speed := ⟨s.upperPrimaryLimit, s.lowerPrimaryLimit, 1000, 500⟩

/-- The speed is one of the two modes. -/
def Unmixed (s : LegacyAgc) : Prop := speed s = fast s ∨ speed s = slow s

instance : DecidablePred Unmixed := fun _ => inferInstanceAs (Decidable (_ ∨ _))

/-- The modes stay what they are, and the speed stays or is put to one of them. -/
structure Shifts (s t : LegacyAgc) : Prop where
  modes : fast t = fast s ∧ slow t = slow s
  moves : speed t = speed s ∨ speed t = fast s ∨ speed t = slow s

theorem Shifts.refl (s : LegacyAgc) : Shifts s s := ⟨⟨rfl, rfl⟩, .inl rfl⟩

theorem Shifts.trans {s t u : LegacyAgc} (h : Shifts s t) (h' : Shifts t u) : Shifts s u := by
  refine ⟨⟨h'.modes.1.trans h.modes.1, h'.modes.2.trans h.modes.2⟩, ?_⟩
  rcases h'.moves with hs | hf | hl
  · rw [hs]
    exact h.moves
  · exact .inr (.inl (hf.trans h.modes.1))
  · exact .inr (.inr (hl.trans h.modes.2))

theorem Shifts.unmixed {s t : LegacyAgc} (h : Shifts s t) (hs : Unmixed s) : Unmixed t := by
  unfold Unmixed
  rw [h.modes.1, h.modes.2]
  rcases h.moves with hsame | hf | hl
  · rw [hsame]
    exact hs
  · exact .inl hf
  · exact .inr hl

/-! ### The stages of the analog gain control -/

theorem shifts_levelIntake (s : LegacyAgc) (inMicLevel lvl : Int) :
    Shifts s (levelIntake s inMicLevel lvl).val.1 := by
  obtain ⟨f, v, m, -, h⟩ := levelIntake_writes s inMicLevel lvl
  rw [h]
  exact ⟨⟨rfl, rfl⟩, .inl rfl⟩

/-- Saturation puts all four fields to the fast mode. -/
theorem shifts_saturationStage (s : LegacyAgc) (lvl : Int) :
    Shifts s (saturationStage s lvl).val.1 := by
  unfold saturationStage
  dsimp only
  split
  · exact ⟨⟨rfl, rfl⟩, .inr (.inl rfl)⟩
  · exact ⟨⟨rfl, rfl⟩, .inl rfl⟩

theorem shifts_zeroCtrl (s : LegacyAgc) (lvl : Int) : Shifts s (zeroCtrl s lvl).val.1 := by
  unfold zeroCtrl
  dsimp only
  split <;> exact ⟨⟨rfl, rfl⟩, .inl rfl⟩

theorem shifts_speakerInactiveCtrl (s : LegacyAgc) : Shifts s (speakerInactiveCtrl s) := by
  unfold speakerInactiveCtrl
  split <;> exact ⟨⟨rfl, rfl⟩, .inl rfl⟩

theorem shifts_analogStart (s : LegacyAgc) (inMicLevel lvl : Int) :
    Shifts s (analogStart s inMicLevel lvl).val.1 := by
  simp only [analogStart, Chk.val_bind, Chk.val_pure]
  exact (((shifts_levelIntake s inMicLevel lvl).trans (shifts_saturationStage _ _)).trans
    (shifts_zeroCtrl _ _)).trans (shifts_speakerInactiveCtrl _)

theorem shifts_trackSpeech (s : LegacyAgc) : Shifts s (trackSpeech s) := by
  obtain ⟨_, _, _, h⟩ := trackSpeech_writes s
  rw [h]
  exact ⟨⟨rfl, rfl⟩, .inl rfl⟩

/-- Four seconds inside the limits put all four fields to the slow mode. -/
theorem shifts_adaptLevel (s : LegacyAgc) (lvl lastMicVol : Int) :
    Shifts s (adaptLevel s lvl lastMicVol).val.1 := by
  obtain ⟨_, _, _, _, _, _, _, _, _, inner, outer, upper, lower, h, hspeed⟩ :=
    adaptLevel_writes s lvl lastMicVol
  rw [h]
  rcases hspeed with hsame | hslow
  · cases hsame
    exact ⟨⟨rfl, rfl⟩, .inl rfl⟩
  · cases hslow
    exact ⟨⟨rfl, rfl⟩, .inr (.inr rfl)⟩

theorem shifts_analogBlock (vadLogRatio lastMicVol : Int) (r : LegacyAgc × Int) (e : Int) :
    Shifts r.1 (analogBlock vadLogRatio lastMicVol r e).val.1 := by
  have hpush : Shifts r.1 (pushEnergy r.1 e) := ⟨⟨rfl, rfl⟩, .inl rfl⟩
  unfold analogBlock
  dsimp only
  split
  · exact (hpush.trans (shifts_trackSpeech _)).trans (shifts_adaptLevel _ _ _)
  · exact hpush

theorem shifts_analogBlocks (vadLogRatio lastMicVol : Int) :
    ∀ (es : List Int) (r : LegacyAgc × Int),
      Shifts r.1 (analogBlocks vadLogRatio lastMicVol r es).val.1
  | [], r => .refl r.1
  | e :: es, r => by
    rw [analogBlocks, Chk.val_bind]
    exact (shifts_analogBlock vadLogRatio lastMicVol r e).trans
      (shifts_analogBlocks vadLogRatio lastMicVol es _)

theorem shifts_processAnalog {s : LegacyAgc} {inMicLevel vadLogRatio echo : Int} {a : AnalogResult}
    (h : (processAnalog s inMicLevel vadLogRatio echo).val = some a) : Shifts s a.agc := by
  obtain ⟨lvl, r, b, -, -, hr, hb, ha, -⟩ := processAnalog_cases h
  have hstart := shifts_analogStart s inMicLevel lvl
  have hblocks := shifts_analogBlocks vadLogRatio r.2.2.1 (r.1.Rxx16w32_array0.take 5) (r.1, r.2.1)
  rw [hr] at hstart
  rw [hb] at hblocks
  rw [ha]
  exact (hstart.trans hblocks).trans ⟨⟨rfl, rfl⟩, .inl rfl⟩

/-! ### The calls -/

theorem shifts_addMic (s : LegacyAgc) (in_mic : List (List Int)) :
    Shifts s (addMic s in_mic).val.agc := by
  rcases addMic_cases s in_mic with h | ⟨idx, bands, -, -, h⟩
  · rw [h]
    exact .refl s
  · rw [h]
    exact ⟨⟨rfl, rfl⟩, .inl rfl⟩

theorem shifts_virtualState (s : LegacyAgc) (in_near : List (List Int)) (micLevelIn : Int) :
    Shifts s (virtualState s in_near micLevelIn) := by
  unfold virtualState virtualEntry virtualStart
  dsimp only
  split <;> exact ⟨⟨rfl, rfl⟩, .inl rfl⟩

theorem shifts_addFarend (s : LegacyAgc) (in_far : List Int) : Shifts s (addFarend s in_far).1 := by
  rw [addFarend]
  split <;> exact ⟨⟨rfl, rfl⟩, .inl rfl⟩

theorem shifts_process {s : LegacyAgc} {in_near out : List (List Int)} {inMicLevel echo : Int}
    {r : ProcessResult} (h : (process s in_near out inMicLevel echo).val = some r) :
    Shifts s r.agc := by
  rcases process_cases h
    with ⟨-, rfl⟩ | ⟨-, d, o, -, ⟨-, -, rfl⟩ | ⟨a, -, ha, rfl⟩ | ⟨-, rfl⟩⟩
  · exact .refl s
  · exact ⟨⟨rfl, rfl⟩, .inl rfl⟩
  · have hd : Shifts s { s with digitalAgc := d } := ⟨⟨rfl, rfl⟩, .inl rfl⟩
    exact (hd.trans (shifts_processAnalog ha)).trans ⟨⟨rfl, rfl⟩, .inl rfl⟩
  · exact ⟨⟨rfl, rfl⟩, .inl rfl⟩

/-- A configuration that fails one of the first two checks writes no limit. -/
theorem shifts_setConfig {s : LegacyAgc} (hs : s.initFlag = kInitCheck) {c : WebRtcAgcConfig}
    (h : ¬ (LimiterOk c ∧ TargetOk c)) : Shifts s (setConfig s c).1 := by
  by_cases hl : LimiterOk c
  · rw [setConfig_target hs hl fun ht => h ⟨hl, ht⟩]
    exact ⟨⟨rfl, rfl⟩, .inl rfl⟩
  · rw [setConfig_limiter hs hl]
    exact ⟨⟨rfl, rfl⟩, .inl rfl⟩

/-- A configuration that passes them writes the limits of the fast mode and
neither of the times. -/
theorem speed_setConfig {s : LegacyAgc} (hs : s.initFlag = kInitCheck) {c : WebRtcAgcConfig}
    (hl : LimiterOk c) (ht : TargetOk c) :
    speed (setConfig s c).1 =
        ⟨targetLimit 19, targetLimit 21, s.msecSpeechInnerChange, s.msecSpeechOuterChange⟩ ∧
      fast (setConfig s c).1 = ⟨targetLimit 19, targetLimit 21, kMsecSpeechInner,
        kMsecSpeechOuter⟩ ∧
      slow (setConfig s c).1 = ⟨targetLimit 18, targetLimit 22, 1000, 500⟩ := by
  rw [setConfig_table hs hl ht]
  rcases tableOf s.agcMode c with _ | t
  · exact ⟨rfl, rfl, rfl⟩
  · exact ⟨rfl, rfl, rfl⟩

theorem unmixed_setConfig {s : LegacyAgc} (hs : s.initFlag = kInitCheck) {c : WebRtcAgcConfig}
    (hl : LimiterOk c) (ht : TargetOk c) :
    Unmixed (setConfig s c).1 ↔
      s.msecSpeechInnerChange = kMsecSpeechInner ∧
        s.msecSpeechOuterChange = kMsecSpeechOuter := by
  obtain ⟨h1, h2, h3⟩ := speed_setConfig hs hl ht
  rw [Unmixed, h1, h2, h3]
  constructor
  · rintro (h | h)
    · obtain ⟨-, -, hin, hout⟩ := Speed.mk.inj h
      exact ⟨hin, hout⟩
    · exact absurd (Speed.mk.inj h).1 (by decide)
  · rintro ⟨hin, hout⟩
    rw [hin, hout]
    exact .inl rfl

/-! ### Runs -/

/-- A step: a call that returns. -/
def OpStep (s : LegacyAgc) (op : Op) (t : LegacyAgc) : Prop := (op.run s).map Prod.fst = some t

theorem OpStep.step {s t : LegacyAgc} {op : Op} (h : OpStep s op t) :
    ∃ ret, Step s (op, ret) t := by
  obtain ⟨⟨t', ret⟩, hr, rfl⟩ := Option.map_eq_some_iff.mp h
  exact ⟨ret, hr⟩

theorem shifts_step {s t : LegacyAgc} {op : Op} (h : OpStep s op t)
    (hop : ∀ c, op ≠ .setConfig c) : Shifts s t := by
  obtain ⟨ret, hstep⟩ := h.step
  cases hstep.outcome with
  | setConfig c => exact absurd rfl (hop c)
  | addMic x => exact shifts_addMic s x
  | virtualMic x m => exact (shifts_virtualState s x m).trans (shifts_addMic _ _)
  | addFarend x => exact shifts_addFarend s x
  | process hr => exact shifts_process hr

theorem initFlag_step {s t : LegacyAgc} {op : Op} (h : OpStep s op t)
    (hs : s.initFlag = kInitCheck) : t.initFlag = kInitCheck := by
  by_cases hop : ∃ c, op = .setConfig c
  · obtain ⟨c, rfl⟩ := hop
    obtain rfl : (setConfig s c).1 = t := Option.some.inj h
    exact of_setConfig (P := fun t => t.initFlag = kInitCheck) (fun _ => Iff.rfl) hs c
  · obtain ⟨ret, hstep⟩ := h.step
    exact (congrArg Settings.initFlag (settings_step hstep (not_exists.mp hop))).trans hs

/-- The condition on a step: no configuration takes effect in the slow mode. -/
def Timely (s : LegacyAgc) (op : Op) : Prop :=
  ∀ c, op = .setConfig c → LimiterOk c → TargetOk c →
    s.msecSpeechInnerChange = kMsecSpeechInner

theorem unmixed_step {s t : LegacyAgc} {op : Op} (h : OpStep s op t) (hs : s.initFlag = kInitCheck)
    (hu : Unmixed s) (hop : Timely s op) : Unmixed t := by
  by_cases hset : ∃ c, op = .setConfig c
  swap
  · exact (shifts_step h (not_exists.mp hset)).unmixed hu
  obtain ⟨c, rfl⟩ := hset
  obtain rfl : (setConfig s c).1 = t := Option.some.inj h
  by_cases hc : LimiterOk c ∧ TargetOk c
  swap
  · exact (shifts_setConfig hs hc).unmixed hu
  have hin := hop c rfl hc.1 hc.2
  rw [unmixed_setConfig hs hc.1 hc.2]
  -- with the inner time of the fast mode the whole speed is that of the fast mode
  rcases hu with hf | hl
  · exact ⟨hin, congrArg Speed.msecSpeechOuterChange hf⟩
  · have hinner : s.msecSpeechInnerChange = 1000 := congrArg Speed.msecSpeechInnerChange hl
    rw [hin] at hinner
    exact absurd hinner (by decide)

theorem unmixed_init {mem s : LegacyAgc} {minLevel maxLevel agcMode fs : Int}
    (h : (init mem minLevel maxLevel agcMode fs).val = (s, 0)) :
    s.initFlag = kInitCheck ∧ Unmixed s := by
  obtain ⟨-, -, i, t, hi, -, rfl⟩ := init_ok h
  subst hi
  exact ⟨rfl, .inl rfl⟩

/-- Every state of a run is in one of the two modes if and only if no
configuration takes effect in the slow mode. -/
theorem unmixed_iff {mem s : LegacyAgc} {minLevel maxLevel agcMode fs : Int}
    (hinit : (init mem minLevel maxLevel agcMode fs).val = (s, 0)) (ops : List Op) :
    (∀ pre t, pre <+: ops → Run OpStep s pre t → Unmixed t) ↔
      EveryStep OpStep s ops Timely := by
  obtain ⟨hflag, hstart⟩ := unmixed_init hinit
  have hflags : ∀ {pre t}, Run OpStep s pre t → t.initFlag = kInitCheck := fun hr =>
    hr.invariant hflag fun _ _ _ hs h => initFlag_step h hs
  constructor
  · rintro h pre op t hpre hr c rfl hl ht
    have hmixed := h (pre ++ [.setConfig c]) (setConfig t c).1 hpre
      (hr.snoc (a := Op.setConfig c) rfl)
    exact ((unmixed_setConfig (hflags hr) hl ht).mp hmixed).1
  · intro h pre t hpre hr
    induction hr with
    | nil => exact hstart
    | snoc hr hs ih =>
      have hbefore := ih ((List.prefix_append _ _).trans hpre)
      exact unmixed_step hs (hflags hr) hbefore (h _ _ _ hpre hr)

/-- A configuration right after `WebRtcAgc_Init` takes effect in the fast mode. -/
theorem unmixed_first_config :
    (init (create .cleared) 0 255 1 8000).val = (LegacyAgc.fresh 1, 0) ∧
    ∀ pre t, pre <+: [.setConfig defaultConfig] → Run OpStep (.fresh 1) pre t →
    Unmixed t := by
  have hinit : (init (create .cleared) 0 255 1 8000).val = (LegacyAgc.fresh 1, 0) := rfl
  refine ⟨hinit, (unmixed_iff hinit [.setConfig defaultConfig]).mpr ?_⟩
  intro pre op t hpre hr c _ _ _
  obtain rfl : pre = [] := by simpa using hpre.length_le
  have ht : t = .fresh 1 := hr.history (I := fun as t => as = [] → t = .fresh 1) (fun _ => rfl)
    (fun _ _ _ _ _ _ h => absurd h (by simp)) rfl
  rw [ht]
  decide

/-! ### Steady speech

A frame stays in the queue until the next one is added, so the same frame can
be processed again and again. If it is speech inside the limits, the analog
stage only counts the time, and after four seconds it is in the slow mode. -/

/-- The energy of the blocks of a frame. -/
def tone : Int := 10890000

/-- The instance hears the same frame of speech in every call, and its volume
and its averages have settled. -/
structure Steady (s : LegacyAgc) : Prop where
  agcMode : s.agcMode = kAgcModeAdaptiveAnalog
  fs : s.fs = 8000
  scale : s.scale = 0
  minLevel : s.minLevel = 0
  maxAnalog : s.maxAnalog = 255
  maxLevel : s.maxLevel = 318
  minOutput : s.minOutput = 12
  firstCall : s.firstCall = 1
  micVol : s.micVol = 127
  lastInMicLevel : s.lastInMicLevel = 127
  inQueue : s.inQueue = 0
  env : s.env0 = List.replicate 10 tone
  energies : s.Rxx16w32_array0 = List.replicate 5 tone
  envSum : s.envSum = 0
  msZero : s.msZero = 0
  muteGuardMs : s.muteGuardMs = 0
  vadThreshold : s.vadThreshold = kNormalVadThreshold
  speech : 4500 ≤ s.vadMic.stdLongTerm ∧ kNormalVadThreshold < s.vadMic.logRatio
  vector : s.Rxx16_vectorw32 = List.replicate 10 tone
  pos : 0 ≤ s.Rxx16pos ∧ s.Rxx16pos < 10
  short : 10000000 ≤ s.Rxx16_LPw32 ∧ s.Rxx16_LPw32 ≤ tone
  shortMax : 10000000 ≤ s.Rxx16_LPw32Max ∧ s.Rxx16_LPw32Max ≤ tone
  sum : 12500000 ≤ s.Rxx160w32 ∧ s.Rxx160w32 ≤ 14500000
  long : 12500000 ≤ s.Rxx160_LPw32 ∧ s.Rxx160_LPw32 ≤ 14500000
  secondary : s.upperSecondaryLimit = targetLimit 15 ∧ s.lowerSecondaryLimit = targetLimit 25
  fast : fast s = ⟨targetLimit 19, targetLimit 21, kMsecSpeechInner, kMsecSpeechOuter⟩
  slow : slow s = ⟨targetLimit 18, targetLimit 22, 1000, 500⟩

/-- The slow mode is on, or `k` ms of the time before it have been counted. -/
def Counted (k : Int) (s : LegacyAgc) : Prop :=
  speed s = slow s ∨
    (speed s = fast s ∧ k ≤ s.changeToSlowMode ∧ s.changeToSlowMode ≤ 4002)

/-- The level is the volume, so it is taken over as it is. -/
theorem levelIntake_steady {s : LegacyAgc} (h : Steady s) :
    (levelIntake s 127 127).val = (s, 127) := by
  have hfirst : firstLevel s 127 = pure (s, 127) := by
    rw [firstLevel, if_neg (by rw [h.firstCall]; decide)]
  have hdigital : digitalLevel s 127 = 127 := if_neg (by rw [h.maxAnalog]; omega)
  have hlow : raiseLowLevel s 127 = pure (s, 127) := by
    rw [raiseLowLevel, if_neg (by rw [h.micVol]; simp)]
  have hmatch : matchLevel s 127 127 = (s, 127) := by
    rw [matchLevel, if_neg (by rw [h.micVol]; simp)]
  have hlast : { s with lastInMicLevel := 127 } = s := by rw [← h.lastInMicLevel]
  simp only [levelIntake, hfirst, Chk.val_bind, Chk.val_pure, hdigital, hlow, hmatch]
  rw [if_neg (by rw [h.maxLevel]; decide), hlast]

theorem counted_trackSpeech {s : LegacyAgc} {k : Int} (h : Counted k s) (e : Int) :
    Counted k (trackSpeech (pushEnergy s e)) := by
  obtain ⟨_, _, _, hw⟩ := trackSpeech_writes (pushEnergy s e)
  rw [hw]
  exact h

/-- Nothing happens before the blocks: the frame neither saturates nor is it
silent. -/
theorem analogStart_steady {s : LegacyAgc} (h : Steady s) :
    (analogStart s 127 127).val = (s, 127, 127, false) := by
  have hsat : (saturationStage s 127).val = (s, 127, false) := by
    have hctrl : saturationCtrl s.envSum s.env0 = (0, false) := by
      rw [h.envSum, h.env]
      decide
    have hsum : { s with envSum := 0 } = s := by rw [← h.envSum]
    rw [saturationStage, hctrl]
    dsimp only
    rw [hsum]
    rfl
  have hzero : (zeroCtrl s 127).val = (s, 127) := by
    have hnext : msZeroNext s = 0 := by
      rw [msZeroNext, h.env]
      exact if_neg (by decide)
    have hmute : { s with msZero := 0, muteGuardMs := 0 } = s := by
      nth_rewrite 1 [← h.msZero]
      rw [← h.muteGuardMs]
    have hfires : ¬ zeroFires s := by
      unfold zeroFires
      rw [hnext]
      decide
    rw [zeroCtrl, if_neg hfires, hnext, h.muteGuardMs]
    exact congrArg (·, (127 : Int)) hmute
  have hspeaker : speakerInactiveCtrl s = s := by
    have hthreshold : { s with vadThreshold := kNormalVadThreshold } = s := by
      rw [← h.vadThreshold]
    have hstd := h.speech.1
    rw [speakerInactiveCtrl, if_neg (by omega), if_neg (by omega), h.vadThreshold]
    exact hthreshold
  simp only [analogStart, Chk.val_bind, Chk.val_pure, levelIntake_steady h, hsat, hzero,
    hspeaker, h.micVol]

/-- An average that takes a part of the distance to a value stays between
bounds of both. -/
theorem average_range {x y lo hi : Int} (n : ℕ) (h0 : 0 ≤ lo) (h1 : hi < 2 ^ 30)
    (hx : lo ≤ x ∧ x ≤ hi) (hy : lo ≤ y ∧ y ≤ hi) :
    lo ≤ i32 (x + i32 (y - x) / 2 ^ n) ∧ i32 (x + i32 (y - x) / 2 ^ n) ≤ hi := by
  have hstep := step_between (f := 1) (d := 2 ^ n) ⟨by decide, one_le_pow₀ (by decide)⟩
    (by positivity) hy hx
  rw [mul_one] at hstep
  rw [i32_of (x := y - x) ⟨by omega, by omega⟩, i32_of ⟨by omega, by omega⟩]
  exact hstep

theorem pushEnergy_steady {s : LegacyAgc} (h : Steady s) : Steady (pushEnergy s tone) := by
  obtain ⟨hp0, hp1⟩ := h.pos
  obtain ⟨hs0, hs1⟩ := h.sum
  have hold : s.Rxx16_vectorw32.getD s.Rxx16pos.toNat 0 = tone := by
    rw [h.vector, List.getD_eq_getElem _ _ (by simp; omega), List.getElem_replicate]
  have hsum : (pushEnergy s tone).Rxx160w32 = s.Rxx160w32 := by
    have hzero : i32 0 / 2 ^ 3 = 0 := by decide
    simp only [pushEnergy, hold, sub_self, hzero, add_zero]
    exact i32_of ⟨by omega, by omega⟩
  refine { h with vector := ?_, pos := ?_, short := ?_, sum := ?_ }
  · simp only [pushEnergy, h.vector, List.set_replicate_self]
  · have hlen : RXX_BUFFER_LEN = 10 := rfl
    simp only [pushEnergy]
    split <;> omega
  · exact average_range 6 (by decide) (by decide) h.short ⟨by decide, le_rfl⟩
  · rw [hsum]
    exact h.sum

theorem trackSpeech_steady {s : LegacyAgc} (h : Steady s) : Steady (trackSpeech s) := by
  have hmove : ∀ {x : Int}, 12500000 ≤ x ∧ x ≤ 14500000 →
      12500000 ≤ i32 (x + i32 (s.Rxx160w32 - x) / 2 ^ 10) ∧
        i32 (x + i32 (s.Rxx160w32 - x) / 2 ^ 10) ≤ 14500000 :=
    fun hx => average_range 10 (by decide) (by decide) hx h.sum
  have hstart : 12500000 ≤ i32 (s.Rxx16_LPw32Max / 2 ^ 3 * RXX_BUFFER_LEN) ∧
      i32 (s.Rxx16_LPw32Max / 2 ^ 3 * RXX_BUFFER_LEN) ≤ 14500000 := by
    obtain ⟨hm0, hm1⟩ := h.shortMax
    have htone : tone = 10890000 := rfl
    rw [show RXX_BUFFER_LEN = 10 from rfl, i32_of ⟨by omega, by omega⟩]
    omega
  unfold trackSpeech
  dsimp only
  split
  · refine { h with shortMax := ?_, long := hmove h.long }
    dsimp only
    split
    · exact h.short
    · exact h.shortMax
  split
  · exact { h with long := hmove hstart }
  · exact { h with long := hmove h.long }

theorem limits_steady {s : LegacyAgc} (h : Steady s) {k : Int} (hk : Counted k s) :
    s.lowerLimit ≤ 10660640 ∧ 16895980 ≤ s.upperLimit := by
  rcases hk with hs | ⟨hf, -⟩
  · rw [h.slow] at hs
    obtain ⟨hu, hl, -, -⟩ := Speed.mk.inj hs
    rw [hu, hl]
    decide
  · rw [h.fast] at hf
    obtain ⟨hu, hl, -, -⟩ := Speed.mk.inj hf
    rw [hu, hl]
    decide

theorem adaptLevel_steady {s : LegacyAgc} (h : Steady s) {k : Int} (h0 : 0 ≤ k)
    (hk : Counted k s) :
    ∃ t, (adaptLevel s 127 127).val = (t, 127) ∧ Steady t ∧ Counted (k + 2) t := by
  obtain ⟨hg0, hg1⟩ := h.long
  obtain ⟨hlo, hup⟩ := limits_steady h hk
  have hup2 : s.upperSecondaryLimit = 42440780 := h.secondary.1.trans (by decide)
  have hlo2 : s.lowerSecondaryLimit = 4244080 := h.secondary.2.trans (by decide)
  rw [adaptLevel, if_neg (by omega), if_neg (by omega), if_neg (by omega), if_neg (by omega)]
  dsimp only
  by_cases hc : s.changeToSlowMode > 4000
  · rw [if_pos hc]
    exact ⟨_, rfl, { h with micVol := rfl }, .inl rfl⟩
  · rw [if_neg hc]
    refine ⟨_, rfl, { h with micVol := rfl }, ?_⟩
    rcases hk with hs | ⟨hf, hk0, hk1⟩
    · exact .inl hs
    · have hnext : i16 (s.changeToSlowMode + 2) = s.changeToSlowMode + 2 :=
        i16_of ⟨by omega, by omega⟩
      refine .inr ⟨hf, ?_, ?_⟩
      · show k + 2 ≤ i16 (s.changeToSlowMode + 2)
        omega
      · show i16 (s.changeToSlowMode + 2) ≤ 4002
        omega

theorem analogBlocks_steady {vadLogRatio : Int} (hv : kNormalVadThreshold < vadLogRatio) :
    ∀ (n : ℕ) {s : LegacyAgc}
    {k : Int}, 0 ≤ k → Steady s → Counted k s →
    ∃ t, (analogBlocks vadLogRatio 127 (s, 127) (List.replicate n tone)).val = (t, 127) ∧
      Steady t ∧ Counted (k + 2 * n) t
  | 0, s, k, _, h, hk => ⟨s, rfl, h, by simpa using hk⟩
  | n + 1, s, k, h0, h, hk => by
    have hpush := pushEnergy_steady h
    obtain ⟨t, ht, hst, hct⟩ := adaptLevel_steady (trackSpeech_steady hpush) h0
      (counted_trackSpeech hk tone)
    obtain ⟨u, hu, hsu, hcu⟩ := analogBlocks_steady hv n (by omega) hst hct
    have hblock : (analogBlock vadLogRatio 127 (s, 127) tone).val = (t, 127) := by
      rw [analogBlock, if_pos (by rw [hpush.vadThreshold]; exact hv), ht]
    refine ⟨u, ?_, hsu, ?_⟩
    · rw [List.replicate_succ, analogBlocks, Chk.val_bind, hblock, hu]
    · rw [show k + 2 * (n + 1 : ℕ) = k + 2 + 2 * n by push_cast; ring]
      exact hcu

/-- The digital stage returns for every frame. -/
def Returns (d : DigitalAgc) : Prop :=
  Bounded d.gainTable ∧ CapRange ⟨d.capacitorFast, d.capacitorSlow⟩

/-- Silence at the near end: the speech is what the microphone gave before. -/
def silence : List Int := List.replicate 80 0

/-- The call that is repeated, and the instance it leaves. -/
def call : Op := .process [silence] [silence] 127 0
def called (s : LegacyAgc) : LegacyAgc :=
  ((process s [silence] [silence] 127 0).val.map (·.agc)).getD s

theorem digital_returns {s : LegacyAgc} (hfs : s.fs = 8000) (h : Returns s.digitalAgc) :
    ∃ d o, (processDigital s.digitalAgc [silence] s.fs s.lowLevelSignal).val = .done d o ∧
      Returns d := by
  obtain ⟨d, o, hd, hcap⟩ := AdaptiveLoop.processDigital_bounded h.1 h.2
    (show subframeLength s.fs = some (8, 3) by rw [hfs]; rfl) s.lowLevelSignal
    (show ∀ x ∈ ([silence] : List (List Int)).headD [], InI16 x by decide)
  exact ⟨d, o, hd, (processDigital_done hd).1.symm ▸ h.1, hcap⟩

theorem called_step {s : LegacyAgc} (hfs : s.fs = 8000) (h : Returns s.digitalAgc) :
    OpStep s call (called s) ∧ (called s).fs = 8000 ∧ Returns (called s).digitalAgc := by
  obtain ⟨d, o, hd, hret⟩ := digital_returns hfs h
  obtain ⟨r, hr⟩ := process_returns hd [silence] 127 0
  have hcalled : called s = r.agc := by rw [called, hr]; rfl
  refine ⟨?_, ?_, ?_⟩
  · rw [OpStep, call, Op.run, hr, hcalled]
    rfl
  · rw [hcalled]
    exact (congrArg Ranges.fs (ranges_process hr)).trans hfs
  · rw [hcalled]
    rcases process_cases hr with ⟨-, rfl⟩ | ⟨-, d', o', hd', hr'⟩
    · exact h
    obtain ⟨rfl, rfl⟩ : d = d' ∧ o = o' := DigitalResult.done.inj (hd.symm.trans hd')
    rcases hr' with ⟨-, -, rfl⟩ | ⟨a, -, ha, rfl⟩ | ⟨-, rfl⟩
    · exact hret
    · have hdig := eq_of_untouched LegacyAgc.digitalAgc (fun _ => rfl) (untouched_processAnalog ha)
      exact hdig ▸ hret
    · exact hret

/-- The analog stage counts the 10 ms of its five blocks. -/
theorem processAnalog_steady {s : LegacyAgc} (h : Steady s) {k : Int} (h0 : 0 ≤ k)
    (hk : Counted k s) :
    ∃ a, (processAnalog s 127 s.vadMic.logRatio 0).val = some a ∧ Steady a.agc ∧
      Counted (k + 10) a.agc := by
  obtain ⟨t, ht, hst, hct⟩ := analogBlocks_steady h.speech.2 5 h0 h hk
  have hlevel : i32 (127 * 2 ^ s.scale.toNat) = 127 := by
    rw [h.scale]
    decide
  refine ⟨_, processAnalog_eq_some.mpr ⟨?_, rfl⟩, ?_⟩
  · rw [hlevel, h.minLevel, h.maxAnalog]
    decide
  have hclamp : guardAndClamp t 0 127 = t := by
    have hguard : ¬ guardActive t 0 := by
      unfold guardActive
      rw [hst.muteGuardMs]
      decide
    have hvol : { t with micVol := 127 } = t := by rw [← hst.micVol]
    rw [guardAndClamp, if_neg hguard, hst.micVol, if_neg (by rw [hst.maxLevel]; decide),
      if_neg (by rw [hst.minOutput]; decide), hvol]
  have hcall : (analogCall s 127 127 s.vadMic.logRatio 0).val.agc = t := by
    rw [analogCall, Chk.val_bind, analogStart_steady h, Chk.val_bind, Chk.val_pure]
    dsimp only
    rw [h.energies, List.take_replicate, min_self, ht]
    exact hclamp
  rw [hlevel, hcall]
  exact ⟨hst, hct⟩

theorem called_steady {s : LegacyAgc} (hret : Returns s.digitalAgc) {k : Int} (h0 : 0 ≤ k)
    (h : Steady s) (hk : Counted k s) : Steady (called s) ∧ Counted (k + 10) (called s) := by
  obtain ⟨d, o, hd, -⟩ := digital_returns h.fs hret
  obtain ⟨a, ha, hsa, hca⟩ := processAnalog_steady (s := { s with digitalAgc := d })
    { h with } h0 hk
  have hframe : getAddFarendError s ([silence].headD []).length = 0 := by
    rw [getAddFarendError, if_pos h.fs]
    decide
  have hruns : analogStageRuns s := by
    unfold analogStageRuns
    rw [h.agcMode]
    exact ⟨by decide, .inr (by decide)⟩
  have hpop : popQueue a.agc = a.agc := by
    rw [popQueue, if_neg (by rw [hsa.inQueue]; decide), if_neg (by rw [hsa.inQueue]; decide),
      if_neg (by rw [hsa.inQueue]; decide)]
  have hcalled : called s = a.agc := by
    rw [called, process_succeeds hframe hd hruns ha]
    exact hpop
  rw [hcalled]
  exact ⟨hsa, hca⟩

/-- Calls in a row, after any run that ends in steady speech. -/
theorem run_steady {s : LegacyAgc} {ops : List Op} (n : ℕ) {t : LegacyAgc} {k : Int}
    (hrun : Run OpStep s ops t) (hret : Returns t.digitalAgc) (h0 : 0 ≤ k) (h : Steady t)
    (hk : Counted k t) :
    ∃ u, Run OpStep s (ops ++ List.replicate n call) u ∧ Steady u ∧
      Counted (k + 10 * n) u := by
  induction n generalizing t k ops with
  | zero => exact ⟨t, by simpa using hrun, h, by simpa using hk⟩
  | succ n ih =>
    obtain ⟨hstep, -, hret'⟩ := called_step h.fs hret
    obtain ⟨h', hk'⟩ := called_steady hret h0 h hk
    obtain ⟨u, hu, hsu, hcu⟩ := ih (hrun.snoc hstep) hret' (by omega) h' hk'
    refine ⟨u, ?_, hsu, ?_⟩
    · rw [List.replicate_succ, ← List.singleton_append, ← List.append_assoc]
      exact hu
    · rw [show k + 10 * (n + 1 : ℕ) = k + 10 + 10 * n by push_cast; ring]
      exact hcu

/-- After four seconds the slow mode is on. -/
theorem Counted.slow {s : LegacyAgc} {k : Int} (h : Counted k s) (hk : 4002 < k) :
    speed s = slow s := by
  rcases h with hs | ⟨-, h0, h1⟩
  · exact hs
  · omega

/-! ### A mixed state -/

/-- A square wave of 1 kHz, and one with 2 ms of it much louder. -/
def square (a : Int) : List Int := (List.range 80).map fun i => if i / 4 % 2 = 0 then a else -a
def burst : List Int := (square 26000).take 16 ++ (square 3200).drop 16

/-- Frames of the microphone. The queue takes the first and the last of them;
the others are only heard by the voice activity detection. -/
def frames : List (List Int) := [burst, silence, silence, silence, square 30000, square 3300]

/-- The instance after a frame. -/
def heard (s : LegacyAgc) (x : List Int) : LegacyAgc := (addMic s [x]).val.agc

theorem heard_keeps (s : LegacyAgc) (x : List Int) :
    (heard s x).fs = s.fs ∧ (heard s x).digitalAgc = s.digitalAgc :=
  ⟨congrArg Ranges.fs (ranges_addMic s [x]), digitalAgc_addMic s [x]⟩

theorem run_heard {r : LegacyAgc} : ∀ (xs : List (List Int)) {s : LegacyAgc} {ops : List Op},
    Run OpStep r ops s → Run OpStep r (ops ++ xs.map fun x => .addMic [x]) (xs.foldl heard s) ∧
      (xs.foldl heard s).fs = s.fs ∧ (xs.foldl heard s).digitalAgc = s.digitalAgc
  | [], s, ops, h => ⟨by simpa using h, rfl, rfl⟩
  | x :: xs, s, ops, h => by
    have hstep : OpStep s (.addMic [x]) (heard s x) := rfl
    obtain ⟨hrun, hfs, hdig⟩ := run_heard xs (h.snoc hstep)
    obtain ⟨kfs, kdig⟩ := heard_keeps s x
    refine ⟨?_, hfs.trans kfs, hdig.trans kdig⟩
    rw [List.append_assoc] at hrun
    exact hrun

/-- The calls before the speech is steady, and the instance they leave. -/
def opening : List Op := frames.map (fun x => .addMic [x]) ++ [call] ++ [call] ++ [call]
def opened : LegacyAgc := called (called (called (frames.foldl heard (.fresh 1))))

theorem run_opening : Run OpStep (.fresh 1) opening opened ∧ Returns opened.digitalAgc := by
  have hfresh : Returns (LegacyAgc.fresh 1).digitalAgc :=
    ⟨⟨by decide +kernel, by decide +kernel⟩, ⟨by decide, by decide⟩,
      ⟨by decide, by decide⟩⟩
  obtain ⟨h0, hfs, hdig⟩ := run_heard frames (.nil : Run OpStep (.fresh 1) [] (.fresh 1))
  obtain ⟨h1, hfs1, hret1⟩ := called_step hfs (hdig ▸ hfresh)
  obtain ⟨h2, hfs2, hret2⟩ := called_step hfs1 hret1
  obtain ⟨h3, hfs3, hret3⟩ := called_step hfs2 hret2
  exact ⟨((h0.snoc h1).snoc h2).snoc h3, hret3⟩

theorem opened_steady : Steady opened ∧ Counted 0 opened := by
  have hvalues :
      [opened.agcMode, opened.fs, opened.scale, opened.minLevel, opened.maxAnalog, opened.maxLevel,
        opened.minOutput] = [kAgcModeAdaptiveAnalog, 8000, 0, 0, 255, 318, 12] ∧
      [opened.firstCall, opened.micVol, opened.lastInMicLevel, opened.inQueue, opened.envSum,
        opened.msZero, opened.muteGuardMs, opened.vadThreshold] =
          [1, 127, 127, 0, 0, 0, 0, kNormalVadThreshold] ∧
      [opened.vadMic.stdLongTerm, opened.vadMic.logRatio, opened.Rxx16pos, opened.Rxx16_LPw32,
        opened.Rxx16_LPw32Max, opened.Rxx160w32, opened.Rxx160_LPw32, opened.changeToSlowMode] =
        [22850, 468, 5, 10606250, 10606250, 13612500, 14165827, 30] ∧
      [opened.env0, opened.Rxx16w32_array0, opened.Rxx16_vectorw32] =
        [List.replicate 10 tone, List.replicate 5 tone, List.replicate 10 tone] ∧
      [opened.upperSecondaryLimit, opened.lowerSecondaryLimit] = [targetLimit 15,
        targetLimit 25] ∧
      [speed opened, fast opened, slow opened] =
        [⟨targetLimit 19, targetLimit 21, kMsecSpeechInner, kMsecSpeechOuter⟩,
          ⟨targetLimit 19, targetLimit 21, kMsecSpeechInner, kMsecSpeechOuter⟩,
          ⟨targetLimit 18, targetLimit 22, 1000, 500⟩] := by
    decide +kernel
  simp only [List.cons.injEq, and_true] at hvalues
  obtain ⟨⟨h1, h2, h3, h4, h5, h6, h7⟩, ⟨h8, h9, h10, h11, h12, h13, h14, h15⟩,
    ⟨h16, h17, h18, h19, h20, h21, h22, h23⟩, ⟨h24, h25, h26⟩, h27, h28, h29, h30⟩ :=
      hvalues
  refine ⟨⟨h1, h2, h3, h4, h5, h6, h7, h8, h9, h10, h11, h24, h25, h12, h13, h14, h15, ?_, h26,
    ?_, ?_, ?_, ?_, ?_, h27, h29, h30⟩, .inr ⟨h28.trans h29.symm, ?_, ?_⟩⟩
  all_goals simp only [h16, h17, h18, h19, h20, h21, h22, h23]; decide

/-- The slow mode comes after four seconds of steady speech. Setting the
default configuration then leaves the limits of the fast mode with the times
of the slow one. -/
theorem mixed_after_config :
    (init (create .cleared) 0 255 1 8000).val = (LegacyAgc.fresh 1, 0) ∧
    ∃ t, Run OpStep (.fresh 1) (opening ++ List.replicate 401 call ++ [.setConfig defaultConfig])
      t ∧
      ¬ Unmixed t := by
  have hinit : (init (create .cleared) 0 255 1 8000).val = (LegacyAgc.fresh 1, 0) := rfl
  obtain ⟨hrun, hret⟩ := run_opening
  obtain ⟨u, hu, hsu, hcu⟩ := run_steady 401 hrun hret le_rfl opened_steady.1 opened_steady.2
  have hslow : speed u = slow u := hcu.slow (by decide)
  have hflag : u.initFlag = kInitCheck :=
    hu.invariant (unmixed_init hinit).1 fun _ _ _ hs h => initFlag_step h hs
  refine ⟨hinit, (setConfig u defaultConfig).1, hu.snoc rfl, ?_⟩
  rw [unmixed_setConfig hflag (by decide) (by decide)]
  rintro ⟨hin, -⟩
  have hinner : u.msecSpeechInnerChange = 1000 := congrArg Speed.msecSpeechInnerChange hslow
  rw [hin] at hinner
  exact absurd hinner (by decide)

end SpeedMode
end AgcSpec
