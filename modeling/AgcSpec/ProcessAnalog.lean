/-
# The analog gain control

`WebRtcAgc_ProcessAnalog` of `digital_agc/analog_agc.c` and the functions it
is made of. A call takes the current microphone level and moves the volume
`micVol`: it accepts a manual change (`levelIntake`), lowers the volume on
saturation (`saturated`), raises it when the input has been zero for long
(`zeroCtrl`), follows the energy of five blocks and keeps the speech level
between its limits (`analogBlock`), and at last applies the guard against an
increase and the limits of the volume (`guardAndClamp`).

The source's local `inMicLevelTmp` goes along with the instance as the second
component of a pair. The flag is about the arithmetic on levels; the energies
are in wrapping 32-bit arithmetic.
-/
import AgcSpec.Mic

namespace AgcSpec

open FixedPoint

/-! ### Taking in the level -/

/-- About 10% of the range above the minimum: `minLevel + (range * 51 >> 9)`. -/
def tenPercentLevel (s : LegacyAgc) : Chk Int := do
  let d ← ck32 (s.maxLevel - s.minLevel)
  let p ← ck32 (d * 51)
  ck32 (s.minLevel + p / 2 ^ 9)

/-- The first call takes the level over, in the adaptive analog mode at least
10% of the range. -/
def firstLevel (s : LegacyAgc) (lvl : Int) : Chk (LegacyAgc × Int) :=
  if s.firstCall = 0 then do
    let v ← tenPercentLevel s
    let lvl := if lvl < v ∧ s.agcMode = kAgcModeAdaptiveAnalog then v else lvl
    pure ({ s with firstCall := 1, micVol := lvl }, lvl)
  else pure (s, lvl)

/-- A level at the analog maximum stands for the volume above it, if there is
digital gain. -/
def digitalLevel (s : LegacyAgc) (lvl : Int) : Int :=
  if lvl = s.maxAnalog ∧ s.micVol > s.maxAnalog then s.micVol else lvl

/-- A level that was manually changed to a very low value is raised. -/
def raiseLowLevel (s : LegacyAgc) (lvl : Int) : Chk (LegacyAgc × Int) :=
  if lvl ≠ s.micVol ∧ lvl < s.minOutput then do
    let v ← tenPercentLevel s
    pure ({ s with micVol := v }, v)
  else pure (s, lvl)

/-- A level that differs from the volume: if it is the one of the last call
the requested change did not happen, and the requested value is kept. -/
def matchLevel (s : LegacyAgc) (inMicLevel lvl : Int) : LegacyAgc × Int :=
  if lvl ≠ s.micVol then
    if inMicLevel = s.lastInMicLevel then (s, s.micVol) else ({ s with micVol := lvl }, lvl)
  else (s, lvl)

/-- The intake of the level, up to where `lastMicVol` is stored. -/
def levelIntake (s : LegacyAgc) (inMicLevel lvl : Int) : Chk (LegacyAgc × Int) := do
  let r ← firstLevel s lvl
  let r ← raiseLowLevel r.1 (digitalLevel r.1 r.2)
  let r := matchLevel r.1 inMicLevel r.2
  let s := if r.2 > r.1.maxLevel then { r.1 with maxLevel := r.2 } else r.1
  pure ({ s with lastInMicLevel := inMicLevel }, r.2)

/-! ### Saturation -/

/-- The loop of `WebRtcAgc_SaturationCtrl`: the scaled envelope values above
875 are added to the 16-bit `envSum`. -/
def envSumLoop (envSum : Int) : List Int → Int
  | [] => envSum
  | e :: env =>
    let tmpW16 := i16 (e / 2 ^ 20)
    envSumLoop (if tmpW16 > 875 then i16 (envSum + tmpW16) else envSum) env

/-- `WebRtcAgc_SaturationCtrl`: the new `envSum`, and whether `*saturated` is set. -/
def saturationCtrl (envSum : Int) (env : List Int) : Int × Bool :=
  let e := envSumLoop envSum env
  let e' := if e > 25000 then 0 else e
  (i16 (e' * 32440 / 2 ^ 15), decide (e > 25000))

/-- A level lowered by a factor in Q15 above the minimum, and by at least
`drop` below the last volume. The product is unsigned. -/
def loweredLevel (factor drop minLevel lvl lastMicVol : Int) : Chk Int := do
  let d ← ck32 (lvl - minLevel)
  let p ← cku32 (factor * u32 d)
  let v ← ck32 (p / 2 ^ 15 + minLevel)
  let cap ← ck32 (lastMicVol - drop)
  pure (if v > cap then cap else v)

/-- The branch of a saturated signal. The `Bool` is `*saturationWarning`. -/
def saturated (s : LegacyAgc) (lvl lastMicVol : Int) : Chk (LegacyAgc × Int × Bool) := do
  let v ← loweredLevel 29591 2 s.minLevel lvl lastMicVol
  pure ({ s with
    Rxx160_LPw32 := i32 (s.Rxx160_LPw32.tdiv 8 * 7)
    zeroCtrlMax := s.micVol
    micVol := v
    msTooHigh := -100
    activeSpeech := 0
    Rxx16_LPw32Max := 0
    msecSpeechInnerChange := kMsecSpeechInner
    msecSpeechOuterChange := kMsecSpeechOuter
    changeToSlowMode := 0
    muteGuardMs := 0
    upperLimit := s.startUpperLimit
    lowerLimit := s.startLowerLimit }, v, decide (v < s.minOutput))

/-- The saturation stage of a call. -/
def saturationStage (s : LegacyAgc) (lvl : Int) : Chk (LegacyAgc × Int × Bool) :=
  let r := saturationCtrl s.envSum s.env0
  let s := { s with envSum := r.1 }
  if r.2 then saturated s lvl s.micVol else pure (s, lvl, false)

/-! ### Zero input -/

/-- `msZero` after a frame: 10 ms more if the frame is nearly zero. -/
def msZeroNext (s : LegacyAgc) : Int := if s.env0.sum < 500 then i16 (s.msZero + 10) else 0

/-- Zero control fires: the input has been zero for more than 500 ms. -/
def zeroFires (s : LegacyAgc) : Prop := msZeroNext s > 500

instance (s : LegacyAgc) : Decidable (zeroFires s) := inferInstanceAs (Decidable (_ > _))

/-- The level after zero control has fired: 10% more if it is in the lower
half of the range, but not above `zeroCtrlMax`; `none` if it is left alone. -/
def zeroLevel (s : LegacyAgc) (lvl : Int) : Chk (Option Int) := do
  let m ← ck32 (s.maxAnalog + s.minLevel)
  let m ← ck32 (m + 1)
  if lvl < m.tdiv 2 then do
    let p ← ck32 (1126 * lvl)
    pure (some (if p / 2 ^ 10 < s.zeroCtrlMax then p / 2 ^ 10 else s.zeroCtrlMax))
  else pure none

/-- `WebRtcAgc_ZeroCtrl`. -/
def zeroCtrl (s : LegacyAgc) (lvl : Int) : Chk (LegacyAgc × Int) :=
  let guard := if s.muteGuardMs > 0 then s.muteGuardMs - 10 else s.muteGuardMs
  if zeroFires s then do
    let z ← zeroLevel s lvl
    pure ({ s with
      msZero := 0
      micVol := z.getD s.micVol
      activeSpeech := 0
      Rxx16_LPw32Max := 0
      muteGuardMs := kMuteGuardTimeMs }, z.getD lvl)
  else pure ({ s with msZero := msZeroNext s, muteGuardMs := guard }, lvl)

/-! ### The near end -/

/-- `WebRtcAgc_SpeakerInactiveCtrl`. -/
def speakerInactiveCtrl (s : LegacyAgc) : LegacyAgc :=
  if s.vadMic.stdLongTerm < 2500 then { s with vadThreshold := 1500 }
  else
    let vadThresh :=
      if s.vadMic.stdLongTerm < 4500 then
        i16 (kNormalVadThreshold + (4500 - s.vadMic.stdLongTerm).tdiv 2)
      else kNormalVadThreshold
    { s with vadThreshold := i16 ((vadThresh + 31 * s.vadThreshold) / 2 ^ 5) }

/-- A block's energy enters the circular buffer, its running sum and the
short-term average. -/
def pushEnergy (s : LegacyAgc) (Rxx16w32 : Int) : LegacyAgc :=
  let old := s.Rxx16_vectorw32.getD s.Rxx16pos.toNat 0
  let pos := s.Rxx16pos + 1
  { s with
    Rxx160w32 := i32 (s.Rxx160w32 + i32 (Rxx16w32 - old) / 2 ^ 3)
    Rxx16_vectorw32 := s.Rxx16_vectorw32.set s.Rxx16pos.toNat Rxx16w32
    Rxx16pos := if pos = RXX_BUFFER_LEN then 0 else pos
    Rxx16_LPw32 := i32 (s.Rxx16_LPw32 + i32 (Rxx16w32 - s.Rxx16_LPw32) / 2 ^ 6) }

/-- The speech level: in the first 250 ms of speech the largest short-term
average is kept, then it becomes the long-term one. -/
def trackSpeech (s : LegacyAgc) : LegacyAgc :=
  let s :=
    if s.activeSpeech < 250 then
      { s with
        activeSpeech := s.activeSpeech + 2
        Rxx16_LPw32Max := if s.Rxx16_LPw32 > s.Rxx16_LPw32Max then s.Rxx16_LPw32
          else s.Rxx16_LPw32Max }
    else if s.activeSpeech = 250 then
      { s with
        activeSpeech := s.activeSpeech + 2
        Rxx160_LPw32 := i32 (s.Rxx16_LPw32Max / 2 ^ 3 * RXX_BUFFER_LEN) }
    else s
  { s with Rxx160_LPw32 := i32 (s.Rxx160_LPw32 + i32 (s.Rxx160w32 - s.Rxx160_LPw32) / 2 ^ 10) }

/-! ### Lowering and raising the volume -/

/-- Lower the recording level by a factor in Q15. The maximum, digital gain
included, is reduced with it, but never below the analog maximum. -/
def lowerRecording (factor lp : Int) (s : LegacyAgc) (lvl lastMicVol : Int) :
    Chk (LegacyAgc × Int) := do
  let p ← ck32 (15 * s.maxLevel)
  let p ← ck32 (p + s.micVol)
  let m := p.tdiv 16
  let v ← loweredLevel factor 1 s.minLevel lvl lastMicVol
  pure ({ s with
    msTooHigh := 0
    Rxx160_LPw32 := lp
    maxLevel := if m > s.maxAnalog then m else s.maxAnalog
    zeroCtrlMax := s.micVol
    micVol := v }, v)

/-- `WebRtcAgc_ExpCurve`: the curve for a volume in Q14. -/
def expCurve (volume : Int) : Nat :=
  if volume > 5243 then
    if volume > 7864 then (if volume > 12124 then 7 else 6) else (if volume > 6554 then 5 else 4)
  else if volume > 2621 then (if volume > 3932 then 3 else 2)
  else (if volume > 1311 then 1 else 0)

/-- Slopes in Q13 and offsets in Q14 of the two increases. -/
def kSlope1 : List Int := [21793, 12517, 7189, 4129, 2372, 1362, 472, 78]
def kOffset1 : List Int := [25395, 23911, 22206, 20737, 19612, 18805, 17951, 17367]
def kSlope2 : List Int := [2063, 1731, 1452, 1218, 1021, 857, 597, 337]
def kOffset2 : List Int := [18432, 18379, 18290, 18177, 18052, 17920, 17670, 17286]

/-- `weightFIX`: the factor of an increase (Q14), from the volume relative to
the initial range. -/
def raiseWeight (kOffset kSlope : List Int) (s : LegacyAgc) (lvl : Int) : Chk Int := do
  let d ← ck32 (lvl - s.minLevel)
  let t ← ck32 (d * 2 ^ 14)
  let volNormFIX ←
    if s.maxInit ≠ s.minLevel then do
      let r ← ck32 (s.maxInit - s.minLevel)
      ck16 (t.tdiv r)
    else pure 16384
  let slope ← ck16 (kSlope.getD (expCurve volNormFIX) 0 * volNormFIX / 2 ^ 13)
  ck16 (kOffset.getD (expCurve volNormFIX) 0 - slope)

/-- Raise the recording level by a weight in Q14, and by at least `rise` above
the last volume. -/
def raiseRecording (kOffset kSlope : List Int) (rise : Int) (s : LegacyAgc) (lvl lastMicVol : Int) :
    Chk (LegacyAgc × Int) := do
  let weightFIX ← raiseWeight kOffset kSlope s lvl
  let d ← ck32 (lvl - s.minLevel)
  let p ← cku32 (u32 weightFIX * u32 d)
  let v ← ck32 (p / 2 ^ 14 + s.minLevel)
  let low ← ck32 (lastMicVol + rise)
  let v := if v < low then low else v
  pure ({ s with msTooLow := 0, Rxx160_LPw32 := i32 (s.Rxx160_LPw32.tdiv 64 * 67), micVol := v }, v)

/-- The decision on the speech level, against the secondary and the primary
limits: too high or too low for long enough, the volume moves. -/
def adaptLevel (s : LegacyAgc) (lvl lastMicVol : Int) : Chk (LegacyAgc × Int) :=
  if s.Rxx160_LPw32 > s.upperSecondaryLimit then
    let s := { s with msTooHigh := i16 (s.msTooHigh + 2), msTooLow := 0, changeToSlowMode := 0 }
    if s.msTooHigh > s.msecSpeechOuterChange then do
      let r ← lowerRecording 31130 (i32 (s.Rxx160_LPw32 / 2 ^ 6 * 53)) s lvl lastMicVol
      pure ({ r.1 with activeSpeech := 0, Rxx16_LPw32Max := 0 }, r.2)
    else pure (s, lvl)
  else if s.Rxx160_LPw32 > s.upperLimit then
    let s := { s with msTooHigh := i16 (s.msTooHigh + 2), msTooLow := 0, changeToSlowMode := 0 }
    if s.msTooHigh > s.msecSpeechInnerChange then
      lowerRecording 31621 (i32 (s.Rxx160_LPw32.tdiv 64 * 53)) s lvl lastMicVol
    else pure (s, lvl)
  else if s.Rxx160_LPw32 < s.lowerSecondaryLimit then
    let s := { s with msTooHigh := 0, changeToSlowMode := 0, msTooLow := i16 (s.msTooLow + 2) }
    if s.msTooLow > s.msecSpeechOuterChange then raiseRecording kOffset1 kSlope1 2 s lvl lastMicVol
    else pure (s, lvl)
  else if s.Rxx160_LPw32 < s.lowerLimit then
    let s := { s with msTooHigh := 0, changeToSlowMode := 0, msTooLow := i16 (s.msTooLow + 2) }
    if s.msTooLow > s.msecSpeechInnerChange then raiseRecording kOffset2 kSlope2 1 s lvl lastMicVol
    else pure (s, lvl)
  else
    -- inside the desired range: after 4 s of it, the limits get wider
    let s :=
      if s.changeToSlowMode > 4000 then
        { s with
          msecSpeechInnerChange := 1000
          msecSpeechOuterChange := 500
          upperLimit := s.upperPrimaryLimit
          lowerLimit := s.lowerPrimaryLimit }
      else { s with changeToSlowMode := i16 (s.changeToSlowMode + 2) }
    pure ({ s with msTooLow := 0, msTooHigh := 0, micVol := lvl }, lvl)

/-- One of the five blocks of a call. -/
def analogBlock (vadLogRatio lastMicVol : Int) (r : LegacyAgc × Int) (Rxx16w32 : Int) :
    Chk (LegacyAgc × Int) :=
  let s := pushEnergy r.1 Rxx16w32
  if vadLogRatio > s.vadThreshold then adaptLevel (trackSpeech s) r.2 lastMicVol
  else pure (s, r.2)

/-- The five blocks, over the energies in the first slot of the queue. -/
def analogBlocks (vadLogRatio lastMicVol : Int) :
    LegacyAgc × Int → List Int → Chk (LegacyAgc × Int)
  | r, [] => pure r
  | r, e :: es => do
    let r ← analogBlock vadLogRatio lastMicVol r e
    analogBlocks vadLogRatio lastMicVol r es

/-! ### The call -/

/-- The guard: no increase in the presence of echo or after a mute event. -/
def guardActive (s : LegacyAgc) (echo : Int) : Prop :=
  echo = 1 ∨ (s.muteGuardMs > 0 ∧ s.muteGuardMs < kMuteGuardTimeMs)

instance (s : LegacyAgc) (echo : Int) : Decidable (guardActive s echo) :=
  inferInstanceAs (Decidable (_ ∨ _))

/-- The guard and the limits of the volume. -/
def guardAndClamp (s : LegacyAgc) (echo lastMicVol : Int) : LegacyAgc :=
  let v := if guardActive s echo then (if s.micVol > lastMicVol then lastMicVol else s.micVol)
    else s.micVol
  { s with
    micVol := if v > s.maxLevel then s.maxLevel else if v < s.minOutput then s.minOutput else v }

/-- What a successful call leaves. -/
structure AnalogResult where
  agc : LegacyAgc
  outMicLevel : Int
  saturationWarning : Bool

/-- The stages before the blocks: the instance, `inMicLevelTmp`, `lastMicVol`
and the warning. -/
def analogStart (s : LegacyAgc) (inMicLevel lvl : Int) : Chk (LegacyAgc × Int × Int × Bool) := do
  let r ← levelIntake s inMicLevel lvl
  let sat ← saturationStage r.1 r.2
  let z ← zeroCtrl sat.1 sat.2.1
  pure (speakerInactiveCtrl z.1, z.2, r.1.micVol, sat.2.2)

/-- A call with a level in range: the stages, the blocks and the limits. -/
def analogCall (s : LegacyAgc) (inMicLevel lvl vadLogRatio echo : Int) : Chk AnalogResult := do
  let r ← analogStart s inMicLevel lvl
  let b ← analogBlocks vadLogRatio r.2.2.1 (r.1, r.2.1) (r.1.Rxx16w32_array0.take 5)
  let s := guardAndClamp b.1 echo r.2.2.1
  pure ⟨s, (if s.micVol < s.maxAnalog then s.micVol else s.maxAnalog) / 2 ^ s.scale.toNat,
    r.2.2.2⟩

/-- `WebRtcAgc_ProcessAnalog`; `none` for its return value -1, with which it
changes nothing. -/
def processAnalog (s : LegacyAgc) (inMicLevel vadLogRatio echo : Int) :
    Chk (Option AnalogResult) := do
  let lvl ← ck32 (inMicLevel * 2 ^ s.scale.toNat)
  if lvl > s.maxAnalog then pure none
  else if lvl < s.minLevel then pure none
  else do
    let a ← analogCall s inMicLevel lvl vadLogRatio echo
    pure (some a)

/-- A call succeeds if and only if the level is in range. -/
theorem processAnalog_eq_some {s : LegacyAgc} {inMicLevel vadLogRatio echo : Int}
    {a : AnalogResult} :
    (processAnalog s inMicLevel vadLogRatio echo).val = some a ↔
      (s.minLevel ≤ i32 (inMicLevel * 2 ^ s.scale.toNat) ∧
        i32 (inMicLevel * 2 ^ s.scale.toNat) ≤ s.maxAnalog) ∧
        a = (analogCall s inMicLevel (i32 (inMicLevel * 2 ^ s.scale.toNat)) vadLogRatio
          echo).val := by
  rw [processAnalog, Chk.val_bind, val_ck32]
  generalize i32 (inMicLevel * 2 ^ s.scale.toNat) = lvl
  by_cases hmax : lvl > s.maxAnalog
  · rw [if_pos hmax]
    exact ⟨fun h => (Option.some_ne_none _ h.symm).elim, fun h => by omega⟩
  rw [if_neg hmax]
  by_cases hmin : lvl < s.minLevel
  · rw [if_pos hmin]
    exact ⟨fun h => (Option.some_ne_none _ h.symm).elim, fun h => by omega⟩
  rw [if_neg hmin, Chk.val_bind, Chk.val_pure, Option.some.injEq]
  exact ⟨fun h => ⟨⟨by omega, by omega⟩, h.symm⟩, fun h => h.2.symm⟩

/-- The parts of a successful call: what the stages before the blocks leave,
what the blocks leave, and the guard and the limits on it. -/
theorem processAnalog_cases {s : LegacyAgc} {inMicLevel vadLogRatio echo : Int} {a : AnalogResult}
    (h : (processAnalog s inMicLevel vadLogRatio echo).val = some a) :
    ∃ lvl r b, lvl = i32 (inMicLevel * 2 ^ s.scale.toNat) ∧
      (s.minLevel ≤ lvl ∧ lvl ≤ s.maxAnalog) ∧ (analogStart s inMicLevel lvl).val = r ∧
      (analogBlocks vadLogRatio r.2.2.1 (r.1, r.2.1) (r.1.Rxx16w32_array0.take 5)).val = b ∧
      a.agc = guardAndClamp b.1 echo r.2.2.1 ∧
      a.outMicLevel = (if a.agc.micVol < a.agc.maxAnalog then a.agc.micVol else a.agc.maxAnalog) /
        2 ^ a.agc.scale.toNat := by
  obtain ⟨hl, rfl⟩ := processAnalog_eq_some.mp h
  exact ⟨_, _, _, rfl, hl, rfl, rfl, rfl, rfl⟩

/-! ### `WebRtcAgc_Process` -/

/-- The result of a call that returns: the code, the instance, the out
buffers, and what was written to `*outMicLevel` and `*saturationWarning`. -/
structure ProcessResult where
  ret : Int
  agc : LegacyAgc
  out : List (List Int)
  outMicLevel : Option Int
  saturationWarning : Option Bool

/-- The analog stage runs in the modes below the fixed digital one; in the
adaptive digital mode not for a low-level signal. -/
def analogStageRuns (s : LegacyAgc) : Prop :=
  s.agcMode < kAgcModeFixedDigital ∧
    (s.lowLevelSignal = 0 ∨ s.agcMode ≠ kAgcModeAdaptiveDigital)

instance (s : LegacyAgc) : Decidable (analogStageRuns s) := inferInstanceAs (Decidable (_ ∧ _))

/-- The processed frame leaves the queue. -/
def popQueue (s : LegacyAgc) : LegacyAgc :=
  { s with
    env0 := if s.inQueue > 1 then s.env1 else s.env0
    Rxx16w32_array0 := if s.inQueue > 1 then s.Rxx16w32_array1 else s.Rxx16w32_array0
    inQueue := if s.inQueue > 0 then s.inQueue - 1 else s.inQueue }

/-- `WebRtcAgc_Process`, for a valid instance. `out` are the contents of the
out buffers before the call. The digital stage runs first, on the frame and
into the out buffers; `none` if it does not return. -/
def process (s : LegacyAgc) (in_near out : List (List Int)) (inMicLevel echo : Int) :
    Chk (Option ProcessResult) :=
  if getAddFarendError s (in_near.headD []).length ≠ 0
    then pure (some ⟨-1, s, out, none, none⟩)
  else do
    let d ← processDigital s.digitalAgc in_near s.fs s.lowLevelSignal
    match d with
    | .never => pure none
    | .error => pure (some ⟨-1, s, out, some inMicLevel, some false⟩)
    | .done agc out =>
      let s := { s with digitalAgc := agc }
      if analogStageRuns s then do
        let a ← processAnalog s inMicLevel s.vadMic.logRatio echo
        match a with
        | none => pure (some ⟨-1, s, out, some inMicLevel, some false⟩)
        | some a =>
          pure (some ⟨0, popQueue a.agc, out, some a.outMicLevel, some a.saturationWarning⟩)
      else pure (some ⟨0, popQueue s, out, some inMicLevel, some false⟩)

end AgcSpec
