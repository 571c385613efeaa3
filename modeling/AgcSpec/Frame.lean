/-
# What the analog stage leaves alone

`WebRtcAgc_ProcessAnalog` writes 23 fields of the instance, three of them the
energy buffer. `unlevelled` clears the other twenty and `untouched` all of
them, so that one equation says everything a stage does not write: equations
chain, and an unwritten field is read off with `eq_of_untouched` or
`eq_of_unlevelled`.
-/
import AgcSpec.ProcessAnalog

namespace AgcSpec

open FixedPoint

/-! ### Cleared instances -/

/-- An instance without the fields that the stages around the energy buffer
write. -/
def unlevelled (s : LegacyAgc) : LegacyAgc :=
  { s with
    Rxx16_LPw32 := 0
    Rxx160_LPw32 := 0
    Rxx16_LPw32Max := 0
    envSum := 0
    vadThreshold := 0
    msTooLow := 0
    msTooHigh := 0
    changeToSlowMode := 0
    firstCall := 0
    msZero := 0
    msecSpeechOuterChange := 0
    msecSpeechInnerChange := 0
    activeSpeech := 0
    muteGuardMs := 0
    micVol := 0
    maxLevel := 0
    zeroCtrlMax := 0
    lastInMicLevel := 0
    upperLimit := 0
    lowerLimit := 0 }

/-- An instance without the fields that `WebRtcAgc_ProcessAnalog` writes. -/
def untouched (s : LegacyAgc) : LegacyAgc :=
  { unlevelled s with Rxx160w32 := 0, Rxx16_vectorw32 := [], Rxx16pos := 0 }

/-- A field that is not cleared is the same in instances that agree. -/
theorem eq_of_untouched {β : Type} (f : LegacyAgc → β) (hf : ∀ s, f (untouched s) = f s)
    {s t : LegacyAgc} (h : untouched t = untouched s) : f t = f s := by
  rw [← hf t, ← hf s, h]

theorem eq_of_unlevelled {β : Type} (f : LegacyAgc → β) (hf : ∀ s, f (unlevelled s) = f s)
    {s t : LegacyAgc} (h : unlevelled t = unlevelled s) : f t = f s := by
  rw [← hf t, ← hf s, h]

/-! ### The stages -/

theorem firstLevel_writes (s : LegacyAgc) (lvl : Int) :
    ∃ f v, f ≠ 0 ∧ (firstLevel s lvl).val.1 = { s with firstCall := f, micVol := v } := by
  rw [firstLevel]
  split
  · exact ⟨1, _, by decide, rfl⟩
  · exact ⟨s.firstCall, s.micVol, ‹_›, rfl⟩

theorem raiseLowLevel_writes (s : LegacyAgc) (lvl : Int) :
    ∃ v, (raiseLowLevel s lvl).val.1 = { s with micVol := v } := by
  rw [raiseLowLevel]
  split
  · exact ⟨_, rfl⟩
  · exact ⟨s.micVol, rfl⟩

theorem matchLevel_writes (s : LegacyAgc) (inMicLevel lvl : Int) :
    ∃ v, (matchLevel s inMicLevel lvl).1 = { s with micVol := v } := by
  rw [matchLevel]
  split
  · split
    · exact ⟨s.micVol, rfl⟩
    · exact ⟨_, rfl⟩
  · exact ⟨s.micVol, rfl⟩

/-- The intake of the level writes these four fields, and marks the first call. -/
theorem levelIntake_writes (s : LegacyAgc) (inMicLevel lvl : Int) :
    ∃ f v m, f ≠ 0 ∧ (levelIntake s inMicLevel lvl).val.1 =
      { s with firstCall := f, micVol := v, maxLevel := m, lastInMicLevel := inMicLevel } := by
  rw [levelIntake, Chk.val_bind, Chk.val_bind, Chk.val_pure]
  obtain ⟨f, v1, hf, h1⟩ := firstLevel_writes s lvl
  set r1 := (firstLevel s lvl).val
  obtain ⟨v2, h2⟩ := raiseLowLevel_writes r1.1 (digitalLevel r1.1 r1.2)
  set r2 := (raiseLowLevel r1.1 (digitalLevel r1.1 r1.2)).val
  obtain ⟨v3, h3⟩ := matchLevel_writes r2.1 inMicLevel r2.2
  split
  · rw [h3, h2, h1]
    exact ⟨_, _, _, hf, rfl⟩
  · rw [h3, h2, h1]
    exact ⟨_, _, _, hf, rfl⟩

theorem unlevelled_levelIntake (s : LegacyAgc) (inMicLevel lvl : Int) :
    unlevelled (levelIntake s inMicLevel lvl).val.1 = unlevelled s := by
  obtain ⟨f, v, m, -, h⟩ := levelIntake_writes s inMicLevel lvl
  rw [h]
  rfl

theorem unlevelled_saturationStage (s : LegacyAgc) (lvl : Int) :
    unlevelled (saturationStage s lvl).val.1 = unlevelled s := by
  unfold saturationStage
  dsimp only
  split <;> rfl

theorem unlevelled_zeroCtrl (s : LegacyAgc) (lvl : Int) :
    unlevelled (zeroCtrl s lvl).val.1 = unlevelled s := by
  unfold zeroCtrl
  dsimp only
  split <;> rfl

theorem unlevelled_speakerInactiveCtrl (s : LegacyAgc) :
    unlevelled (speakerInactiveCtrl s) = unlevelled s := by
  unfold speakerInactiveCtrl
  split <;> rfl

theorem unlevelled_analogStart (s : LegacyAgc) (inMicLevel lvl : Int) :
    unlevelled (analogStart s inMicLevel lvl).val.1 = unlevelled s := by
  simp only [analogStart, Chk.val_bind, Chk.val_pure, unlevelled_speakerInactiveCtrl,
    unlevelled_zeroCtrl, unlevelled_saturationStage, unlevelled_levelIntake]

theorem trackSpeech_writes (s : LegacyAgc) : ∃ speech max lp,
    trackSpeech s = { s with
      activeSpeech := speech, Rxx16_LPw32Max := max, Rxx160_LPw32 := lp } := by
  unfold trackSpeech
  split
  · exact ⟨_, _, _, rfl⟩
  split
  · exact ⟨_, s.Rxx16_LPw32Max, _, rfl⟩
  · exact ⟨s.activeSpeech, s.Rxx16_LPw32Max, _, rfl⟩

theorem unlevelled_trackSpeech (s : LegacyAgc) : unlevelled (trackSpeech s) = unlevelled s := by
  obtain ⟨speech, max, lp, h⟩ := trackSpeech_writes s
  rw [h]
  rfl

/-- The decision on the speech level writes these fields; the last four, which
are the speed of the adaptation, stay as they are or go to the slow mode. -/
theorem adaptLevel_writes (s : LegacyAgc) (lvl lastMicVol : Int) :
    ∃ hi lo slow speech max lp level zero vol inner outer upper lower,
      (adaptLevel s lvl lastMicVol).val.1 =
        { s with
          msTooHigh := hi, msTooLow := lo, changeToSlowMode := slow, activeSpeech :=
  speech, Rxx16_LPw32Max := max
          Rxx160_LPw32 := lp, maxLevel := level, zeroCtrlMax := zero, micVol := vol
          msecSpeechInnerChange := inner, msecSpeechOuterChange := outer, upperLimit :=
            upper, lowerLimit := lower } ∧
      ((inner, outer, upper, lower) = (s.msecSpeechInnerChange, s.msecSpeechOuterChange,
        s.upperLimit, s.lowerLimit) ∨
        (inner, outer, upper, lower) = (1000, 500, s.upperPrimaryLimit, s.lowerPrimaryLimit)) := by
  unfold adaptLevel
  split
  · dsimp only
    split <;> exact ⟨_, _, _, _, _, _, _, _, _, _, _, _, _, rfl, .inl rfl⟩
  split
  · dsimp only
    split <;> exact ⟨_, _, _, _, _, _, _, _, _, _, _, _, _, rfl, .inl rfl⟩
  split
  · dsimp only
    split <;> exact ⟨_, _, _, _, _, _, _, _, _, _, _, _, _, rfl, .inl rfl⟩
  split
  · dsimp only
    split <;> exact ⟨_, _, _, _, _, _, _, _, _, _, _, _, _, rfl, .inl rfl⟩
  · dsimp only
    split
    · exact ⟨_, _, _, _, _, _, _, _, _, _, _, _, _, rfl, .inr rfl⟩
    · exact ⟨_, _, _, _, _, _, _, _, _, _, _, _, _, rfl, .inl rfl⟩

theorem unlevelled_adaptLevel (s : LegacyAgc) (lvl lastMicVol : Int) :
    unlevelled (adaptLevel s lvl lastMicVol).val.1 = unlevelled s := by
  obtain ⟨_, _, _, _, _, _, _, _, _, _, _, _, _, h, -⟩ := adaptLevel_writes s lvl lastMicVol
  rw [h]
  rfl

/-- A block is a new energy, and otherwise only moves levels. -/
theorem unlevelled_analogBlock (vadLogRatio lastMicVol : Int) (r : LegacyAgc × Int) (e : Int) :
    unlevelled (analogBlock vadLogRatio lastMicVol r e).val.1 = unlevelled (pushEnergy r.1 e) := by
  unfold analogBlock
  dsimp only
  split
  · rw [unlevelled_adaptLevel, unlevelled_trackSpeech]
  · rfl

theorem unlevelled_guardAndClamp (s : LegacyAgc) (echo lastMicVol : Int) :
    unlevelled (guardAndClamp s echo lastMicVol) = unlevelled s := rfl

/-! ### The call -/

theorem untouched_of_unlevelled {s t : LegacyAgc} (h : unlevelled t = unlevelled s) :
    untouched t = untouched s := by
  rw [untouched, untouched, h]

theorem untouched_analogBlocks (vadLogRatio lastMicVol : Int) :
    ∀ (es : List Int) (r : LegacyAgc × Int),
      untouched (analogBlocks vadLogRatio lastMicVol r es).val.1 = untouched r.1
  | [], _ => rfl
  | e :: es, r => by
    rw [analogBlocks, Chk.val_bind, untouched_analogBlocks vadLogRatio lastMicVol es,
      untouched_of_unlevelled (unlevelled_analogBlock vadLogRatio lastMicVol r e)]
    rfl

theorem untouched_analogCall (s : LegacyAgc) (inMicLevel lvl vadLogRatio echo : Int) :
    untouched (analogCall s inMicLevel lvl vadLogRatio echo).val.agc = untouched s := by
  rw [analogCall, Chk.val_bind, Chk.val_bind, Chk.val_pure,
    untouched_of_unlevelled (unlevelled_guardAndClamp _ _ _), untouched_analogBlocks,
    untouched_of_unlevelled (unlevelled_analogStart _ _ _)]

/-- A successful call of the analog stage writes no other field. -/
theorem untouched_processAnalog {s : LegacyAgc} {inMicLevel vadLogRatio echo : Int}
    {a : AnalogResult} (h : (processAnalog s inMicLevel vadLogRatio echo).val = some a) :
    untouched a.agc = untouched s := by
  obtain ⟨-, rfl⟩ := processAnalog_eq_some.mp h
  exact untouched_analogCall _ _ _ _ _

end AgcSpec
