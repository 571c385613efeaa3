/-
# The timers and indices of the level loop

The analog stage counts milliseconds in 16-bit fields: how long the level has
been too high or too low, how long it has been inside the limits, how long the
input has been zero, how long a mute event is ago, how much speech there was.
Each is advanced in one branch and set back in others, against thresholds that
change with the speed of the adaptation. With the index of the energy buffer,
the queue, the gain table and the threshold of the voice detector they make up
`InRange`, which every call keeps, whatever the samples, the levels and the
configuration; so none of them ever wraps (`timers_in_range`).

Two facts carry the bounds. The thresholds themselves are at most a second, so
a counter that has passed one is set back in the same block; and the timer of
the mute guard moves in steps of 10 ms from a multiple of 10, so it meets 0.
-/
import AgcSpec.Calls

namespace AgcSpec
namespace Timers

open FixedPoint Runs

/-- The counters and indices in their ranges. -/
structure InRange (s : LegacyAgc) : Prop where
  msTooHigh : -100 ≤ s.msTooHigh ∧ s.msTooHigh ≤ 1002
  msTooLow : 0 ≤ s.msTooLow ∧ s.msTooLow ≤ 1002
  changes : s.msecSpeechInnerChange ≤ 1000 ∧ s.msecSpeechOuterChange ≤ 1000
  changeToSlowMode : 0 ≤ s.changeToSlowMode ∧ s.changeToSlowMode ≤ 4002
  msZero : 0 ≤ s.msZero ∧ s.msZero ≤ 500
  muteGuardMs : 0 ≤ s.muteGuardMs ∧ s.muteGuardMs ≤ 8000
  muteGuard_tens : s.muteGuardMs % 10 = 0
  activeSpeech : 0 ≤ s.activeSpeech ∧ s.activeSpeech ≤ 252
  Rxx16pos : 0 ≤ s.Rxx16pos ∧ s.Rxx16pos < 10
  inQueue : 0 ≤ s.inQueue ∧ s.inQueue ≤ 2
  gainTableIdx : 0 ≤ s.gainTableIdx ∧ s.gainTableIdx ≤ 31
  vadThreshold : 400 ≤ s.vadThreshold ∧ s.vadThreshold ≤ 1500

theorem zero_range {top : Int} (h : 0 ≤ top) : (0 : Int) ≤ 0 ∧ 0 ≤ top := ⟨le_refl 0, h⟩

/-! ### Before the blocks -/

theorem timers_levelIntake {s : LegacyAgc} (h : InRange s) (inMicLevel lvl : Int) :
    InRange (levelIntake s inMicLevel lvl).val.1 := by
  obtain ⟨f, v, m, -, hw⟩ := levelIntake_writes s inMicLevel lvl
  rw [hw]
  exact { h with }

theorem timers_saturationStage {s : LegacyAgc} (h : InRange s) (lvl : Int) :
    InRange (saturationStage s lvl).val.1 := by
  unfold saturationStage
  dsimp only
  split
  · exact { h with
      msTooHigh := show (-100 : Int) ≤ -100 ∧ (-100 : Int) ≤ 1002 by decide
      changes := show kMsecSpeechInner ≤ 1000 ∧ kMsecSpeechOuter ≤ 1000 by decide
      changeToSlowMode := zero_range (by decide)
      muteGuardMs := zero_range (by decide)
      muteGuard_tens := rfl
      activeSpeech := zero_range (by decide) }
  · exact { h with }

theorem timers_zeroCtrl {s : LegacyAgc} (h : InRange s) (lvl : Int) :
    InRange (zeroCtrl s lvl).val.1 := by
  unfold zeroCtrl
  dsimp only
  split
  · exact { h with
      msZero := zero_range (by decide)
      muteGuardMs := show 0 ≤ kMuteGuardTimeMs ∧ kMuteGuardTimeMs ≤ 8000 by decide
      muteGuard_tens := rfl
      activeSpeech := zero_range (by decide) }
  · rename_i hfires
    have hzero := h.msZero
    have hguard := h.muteGuardMs
    have htens := h.muteGuard_tens
    have hnext : 0 ≤ msZeroNext s ∧ msZeroNext s ≤ 500 := by
      refine ⟨?_, not_lt.mp hfires⟩
      rw [msZeroNext]
      split
      · rw [i16_of ⟨by omega, by omega⟩]
        omega
      · exact le_refl _
    exact { h with
      msZero := hnext
      muteGuardMs := by dsimp only [Chk.val_pure]; split <;> omega
      muteGuard_tens := by dsimp only [Chk.val_pure]; split <;> omega }

theorem timers_speakerInactiveCtrl {s : LegacyAgc} (h : InRange s) :
    InRange (speakerInactiveCtrl s) := by
  have hthr := h.vadThreshold
  unfold speakerInactiveCtrl
  split
  · exact { h with vadThreshold := show (400 : Int) ≤ 1500 ∧ (1500 : Int) ≤ 1500 by decide }
  · rename_i hstd
    -- the new threshold is a mean of the old one and one between 400 and 1400
    have hnew : ∀ v : Int, 400 ≤ v → v ≤ 1400 →
        400 ≤ i16 ((v + 31 * s.vadThreshold) / 2 ^ 5) ∧
          i16 ((v + 31 * s.vadThreshold) / 2 ^ 5) ≤ 1500 := by
      intro v h0 h1
      rw [i16_of ⟨by omega, by omega⟩]
      omega
    refine { h with vadThreshold := ?_ }
    dsimp only
    split
    · have hq : (4500 - s.vadMic.stdLongTerm).tdiv 2 = (4500 - s.vadMic.stdLongTerm) / 2 :=
        Int.tdiv_eq_ediv_of_nonneg (by omega)
      have hthresh : i16 (400 + (4500 - s.vadMic.stdLongTerm) / 2) =
          400 + (4500 - s.vadMic.stdLongTerm) / 2 :=
        i16_of ⟨by omega, by omega⟩
      rw [hq, kNormalVadThreshold, hthresh]
      exact hnew _ (by omega) (by omega)
    · exact hnew _ (by decide) (by decide)

theorem timers_analogStart {s : LegacyAgc} (h : InRange s) (inMicLevel lvl : Int) :
    InRange (analogStart s inMicLevel lvl).val.1 := by
  simp only [analogStart, Chk.val_bind, Chk.val_pure]
  exact timers_speakerInactiveCtrl
    (timers_zeroCtrl (timers_saturationStage (timers_levelIntake h _ _) _) _)

/-! ### The blocks -/

theorem timers_pushEnergy {s : LegacyAgc} (h : InRange s) (Rxx16w32 : Int) :
    InRange (pushEnergy s Rxx16w32) := by
  have hpos := h.Rxx16pos
  have hlen : RXX_BUFFER_LEN = 10 := rfl
  refine { h with Rxx16pos := ?_ }
  by_cases hend : s.Rxx16pos + 1 = RXX_BUFFER_LEN
  · rw [pushEnergy, if_pos hend]
    exact show (0 : Int) ≤ 0 ∧ (0 : Int) < 10 by decide
  · rw [pushEnergy, if_neg hend]
    dsimp only
    omega

theorem timers_trackSpeech {s : LegacyAgc} (h : InRange s) : InRange (trackSpeech s) := by
  have hspeech := h.activeSpeech
  unfold trackSpeech
  split
  · exact { h with activeSpeech := by dsimp only; omega }
  · split
    · exact { h with activeSpeech := by dsimp only; omega }
    · exact { h with }

/-- A counter moved on by 2 ms, in a branch that sets it back above `change`. -/
theorem counter_next {c change : Int} (hc : -100 ≤ c ∧ c ≤ 1002) (hchange : change ≤ 1000)
    (hnot : ¬ i16 (c + 2) > change) :
    -100 ≤ i16 (c + 2) ∧ i16 (c + 2) ≤ 1002 ∧ c ≤ i16 (c + 2) := by
  rw [i16_of ⟨by omega, by omega⟩] at hnot ⊢
  omega

theorem InRange.tooHigh {s : LegacyAgc} (h : InRange s) {c : Int} (hc : -100 ≤ c ∧ c ≤ 1002) :
    InRange { s with msTooHigh := c, msTooLow := 0, changeToSlowMode := 0 } :=
  { h with
    msTooHigh := hc
    msTooLow := zero_range (by decide)
    changeToSlowMode := zero_range (by decide) }

theorem InRange.tooLow {s : LegacyAgc} (h : InRange s) {c : Int} (hc : 0 ≤ c ∧ c ≤ 1002) :
    InRange { s with msTooHigh := 0, msTooLow := c, changeToSlowMode := 0 } :=
  { h with
    msTooHigh := show (-100 : Int) ≤ 0 ∧ (0 : Int) ≤ 1002 by decide
    msTooLow := hc
    changeToSlowMode := zero_range (by decide) }

theorem timers_adaptLevel {s : LegacyAgc} (h : InRange s) (lvl lastMicVol : Int) :
    InRange (adaptLevel s lvl lastMicVol).val.1 := by
  have hlow := h.msTooLow
  have hslow := h.changeToSlowMode
  have hback : InRange { s with msTooHigh := 0, msTooLow := 0, changeToSlowMode := 0 } :=
    h.tooLow (zero_range (by decide))
  -- above the limits, below them, and between them; a counter past its threshold is set back
  unfold adaptLevel
  split
  · dsimp only
    split
    · exact { hback with activeSpeech := zero_range (by decide) }
    · rename_i hnot
      have hnext := counter_next h.msTooHigh h.changes.2 hnot
      exact { h.tooHigh ⟨hnext.1, hnext.2.1⟩ with }
  split
  · dsimp only
    split
    · exact { hback with }
    · rename_i hnot
      have hnext := counter_next h.msTooHigh h.changes.1 hnot
      exact { h.tooHigh ⟨hnext.1, hnext.2.1⟩ with }
  split
  · dsimp only
    split
    · exact { hback with }
    · rename_i hnot
      have hnext := counter_next ⟨by omega, hlow.2⟩ h.changes.2 hnot
      exact { h.tooLow ⟨hlow.1.trans hnext.2.2, hnext.2.1⟩ with }
  split
  · dsimp only
    split
    · exact { hback with }
    · rename_i hnot
      have hnext := counter_next ⟨by omega, hlow.2⟩ h.changes.1 hnot
      exact { h.tooLow ⟨hlow.1.trans hnext.2.2, hnext.2.1⟩ with }
  · dsimp only
    split
    · exact { hback with
        changes := show (1000 : Int) ≤ 1000 ∧ (500 : Int) ≤ 1000 by decide,
        changeToSlowMode := hslow }
    · rename_i hnot
      have hnext : i16 (s.changeToSlowMode + 2) = s.changeToSlowMode + 2 :=
        i16_of ⟨by omega, by omega⟩
      exact { hback with changeToSlowMode := by dsimp only [Chk.val_pure]; omega }

theorem timers_analogBlock {r : LegacyAgc × Int} (h : InRange r.1)
    (vadLogRatio lastMicVol e : Int) : InRange (analogBlock vadLogRatio lastMicVol r e).val.1 := by
  have hpush := timers_pushEnergy h e
  rw [analogBlock]
  split
  · exact timers_adaptLevel (timers_trackSpeech hpush) _ _
  · exact hpush

theorem timers_analogBlocks (vadLogRatio lastMicVol : Int) :
    ∀ (es : List Int) {r : LegacyAgc × Int}, InRange r.1 →
      InRange (analogBlocks vadLogRatio lastMicVol r es).val.1
  | [], _, h => h
  | e :: es, _, h =>
    timers_analogBlocks vadLogRatio lastMicVol es (timers_analogBlock h vadLogRatio lastMicVol e)

theorem timers_processAnalog {s : LegacyAgc} (h : InRange s) {inMicLevel vadLogRatio echo : Int}
    {a : AnalogResult}
    (ha : (processAnalog s inMicLevel vadLogRatio echo).val = some a) : InRange a.agc := by
  obtain ⟨lvl, r, b, -, -, hr, hb, hagc, -⟩ := processAnalog_cases ha
  have hstart : InRange r.1 := hr ▸ timers_analogStart h inMicLevel lvl
  have hblocks : InRange b.1 :=
    hb ▸ timers_analogBlocks vadLogRatio r.2.2.1 (r.1.Rxx16w32_array0.take 5)
      (r := (r.1, r.2.1)) hstart
  rw [hagc]
  exact { hblocks with }

/-! ### The calls -/

theorem timers_setConfig {s : LegacyAgc} (h : InRange s) (c : WebRtcAgcConfig) :
    InRange (setConfig s c).1 :=
  of_setConfig (P := InRange) (fun _ => ⟨fun h => { h with }, fun h => { h with }⟩) h c

/-- Every path of `WebRtcAgc_Init` behind the check of the mode writes them. -/
theorem timers_init (mem : LegacyAgc) (minLevel maxLevel : Int) {agcMode : Int}
    (hmode : 0 ≤ agcMode ∧ agcMode ≤ 3) (fs : Int) :
    InRange (init mem minLevel maxLevel agcMode fs).val.1 := by
  have hvalid : ¬ (agcMode < kAgcModeUnchanged ∨ agcMode > kAgcModeFixedDigital) := by
    simp only [kAgcModeUnchanged, kAgcModeFixedDigital]
    omega
  have hbuffers : ∀ i : LegacyAgc, InRange (initBuffers i) := fun i => by
    constructor <;> simp [initBuffers, kMsecSpeechInner,
    kMsecSpeechOuter, kNormalVadThreshold]
  rw [init, if_neg hvalid]
  simp only [initInstance, Chk.val_bind, Chk.val_pure]
  rw [initFinish]
  have hconfig := fun i c => timers_setConfig (hbuffers i) c
  split
  · exact { hconfig _ _ with }
  · exact { hconfig _ _ with }

theorem stepGainIdx_range {idx target : Int} (hidx : 0 ≤ idx ∧ idx ≤ 31)
    (htarget : 0 ≤ target ∧ target < 32) :
    0 ≤ stepGainIdx idx target ∧ stepGainIdx idx target ≤ 31 := by
  rw [stepGainIdx]
  split
  · omega
  split <;> omega

/-- The gain index moves towards a target that was checked against the table. -/
theorem micGain_range {s : LegacyAgc} (h : InRange s) {in_mic bands : List (List Int)} {idx : Int}
    (hg : (micGain s in_mic).val = some (idx, bands)) : 0 ≤ idx ∧ idx ≤ 31 := by
  rw [micGain] at hg
  split at hg
  · split at hg
    · cases hg
    · rw [Chk.val_bind] at hg
      have htarget : 0 ≤ (targetGainIdx s).val := Int.emod_nonneg _ (by decide)
      split at hg
      · cases hg
      · rename_i hlt
        cases hg
        exact stepGainIdx_range h.gainTableIdx ⟨htarget, not_not.mp hlt⟩
  · cases hg
    decide

theorem timers_addMic {s : LegacyAgc} (h : InRange s) (in_mic : List (List Int)) :
    InRange (addMic s in_mic).val.agc := by
  rcases addMic_cases s in_mic with he | ⟨idx, bands, -, hg, he⟩
  · rw [he]
    exact h
  · rw [he]
    exact { h with
      gainTableIdx := micGain_range h hg
      inQueue := by
        dsimp only [micAnalyse]
        split <;> decide }

theorem timers_virtualState {s : LegacyAgc} (h : InRange s) (in_near : List (List Int))
    (micLevelIn : Int) : InRange (virtualState s in_near micLevelIn) := by
  unfold virtualState virtualEntry virtualStart
  dsimp only
  split
  · exact { h with }
  · exact { h with }

theorem timers_addFarend {s : LegacyAgc} (h : InRange s) (in_far : List Int) :
    InRange (addFarend s in_far).1 := by
  rw [addFarend]
  split
  · exact h
  · exact { h with }

theorem timers_popQueue {s : LegacyAgc} (h : InRange s) : InRange (popQueue s) := by
  have hq := h.inQueue
  refine { h with inQueue := ?_ }
  dsimp only [popQueue]
  split <;> omega

theorem timers_process {s : LegacyAgc} (h : InRange s) {in_near out : List (List Int)}
    {inMicLevel echo : Int}
    {r : ProcessResult} (hr : (process s in_near out inMicLevel echo).val = some r) :
    InRange r.agc := by
  have hd : ∀ d, InRange { s with digitalAgc := d } := fun _ => { h with }
  rcases process_cases hr
    with ⟨-, rfl⟩ | ⟨-, d, o, -, ⟨-, -, rfl⟩ | ⟨a, -, ha, rfl⟩ | ⟨-, rfl⟩⟩
  · exact h
  · exact hd d
  · exact timers_popQueue (timers_processAnalog (hd d) ha)
  · exact timers_popQueue (hd d)

theorem timers_step {s t : LegacyAgc} {l : Op × Int} (h : InRange s) (hs : Step s l t) :
    InRange t := by
  obtain ⟨op, ret⟩ := l
  cases hs.outcome with
  | setConfig c => exact timers_setConfig h c
  | addMic x => exact timers_addMic h x
  | virtualMic x m => exact timers_addMic (timers_virtualState h x m) _
  | addFarend x => exact timers_addFarend h x
  | process hr => exact timers_process h hr

/-- After every run of calls from `WebRtcAgc_Init`, also one that rejects its
range, the timers and the indices are in their ranges. -/
theorem timers_in_range {mem t : LegacyAgc} {minLevel maxLevel agcMode fs : Int}
    {ls : List (Op × Int)} (hmode : 0 ≤ agcMode ∧ agcMode ≤ 3)
    (hrun : Run Step (init mem minLevel maxLevel agcMode fs).val.1 ls t) :
    (-100 ≤ t.msTooHigh ∧ t.msTooHigh ≤ 1002) ∧
      (0 ≤ t.msTooLow ∧ t.msTooLow ≤ 1002) ∧
      (0 ≤ t.changeToSlowMode ∧ t.changeToSlowMode ≤ 4002) ∧
      (0 ≤ t.msZero ∧ t.msZero ≤ 500) ∧
      (0 ≤ t.muteGuardMs ∧ t.muteGuardMs ≤ 8000) ∧
      (0 ≤ t.activeSpeech ∧ t.activeSpeech ≤ 252) ∧
      (0 ≤ t.Rxx16pos ∧ t.Rxx16pos < 10) ∧ (0 ≤ t.inQueue ∧ t.inQueue ≤ 2) ∧
      (0 ≤ t.gainTableIdx ∧ t.gainTableIdx ≤ 31) ∧ 400 ≤ t.vadThreshold ∧
      t.vadThreshold ≤ 1500 := by
  have h : InRange t := hrun.invariant (timers_init mem minLevel maxLevel hmode fs) fun _ _ _ =>
    timers_step
  exact ⟨h.msTooHigh, h.msTooLow, h.changeToSlowMode, h.msZero, h.muteGuardMs, h.activeSpeech,
    h.Rxx16pos, h.inQueue, h.gainTableIdx, h.vadThreshold⟩

/-- After two loud frames in the adaptive analog mode. -/
theorem timers_in_range_loud : ∃ t, Run Step (LegacyAgc.fresh 1) (loudCalls.map (·, 0)) t ∧
    (-100 ≤ t.msTooHigh ∧ t.msTooHigh ≤ 1002) ∧
    (0 ≤ t.msTooLow ∧ t.msTooLow ≤ 1002) ∧
    (0 ≤ t.muteGuardMs ∧ t.muteGuardMs ≤ 8000) ∧ 0 ≤ t.inQueue ∧ t.inQueue ≤ 2 := by
  obtain ⟨t, hrun⟩ := exists_loudRun
  obtain ⟨hhigh, hlow, -, -, hmute, -, -, hqueue, -, -⟩ :=
    @timers_in_range (create .cleared) t 0 255 1 8000 _ (by decide) hrun
  exact ⟨t, hrun, hhigh, hlow, hmute, hqueue⟩

end Timers
end AgcSpec
