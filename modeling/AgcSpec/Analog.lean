/-
# The gain control instance: configuration and initialisation

`LegacyAgc` of `digital_agc/analog_agc.h` and the functions of
`digital_agc/analog_agc.c` that set it up: `WebRtcAgc_Create`,
`WebRtcAgc_Init`, `WebRtcAgc_set_config`, `WebRtcAgc_get_config` and
`WebRtcAgc_UpdateAgcThresholds`, as built without `MIC_LEVEL_FEEDBACK` and
without the debug dump. A function that returns a code is modelled by the
pair of the new state and the code; the instance pointer is never null.

The field `inActive` is set once and never read; it is left out.
-/
import AgcSpec.Digital

namespace AgcSpec

open FixedPoint

/-! ### Constants -/

def AGC_UNSPECIFIED_ERROR : Int := 18000
def AGC_UNINITIALIZED_ERROR : Int := 18002
def AGC_BAD_PARAMETER_ERROR : Int := 18004

def kAgcFalse : Int := 0
def kAgcTrue : Int := 1

def kMuteGuardTimeMs : Int := 8000
def kInitCheck : Int := 42

def AGC_DEFAULT_TARGET_LEVEL : Int := 3
def AGC_DEFAULT_COMP_GAIN : Int := 9
def ANALOG_TARGET_LEVEL : Int := 11
def ANALOG_TARGET_LEVEL_2 : Int := 5
def OFFSET_ENV_TO_RMS : Int := 9
def DIGITAL_REF_AT_0_COMP_GAIN : Int := 4
def DIFF_REF_TO_ANALOG : Int := 5

def RXX_BUFFER_LEN : Int := 10
def kMsecSpeechInner : Int := 520
def kMsecSpeechOuter : Int := 340
def kNormalVadThreshold : Int := 400

/-- Target energy levels, in Q(-7). -/
def kTargetLevelTable : List Int := [
  134209536, 106606424, 84680493, 67264106, 53429779, 42440782, 33711911,
  26778323,  21270778,  16895980, 13420954, 10660642, 8468049,  6726411,
  5342978,   4244078,   3371191,  2677832,  2127078,  1689598,  1342095,
  1066064,   846805,    672641,   534298,   424408,   337119,   267783,
  212708,    168960,    134210,   106606,   84680,    67264,    53430,
  42441,     33712,     26778,    21271,    16896,    13421,    10661,
  8468,      6726,      5343,     4244,     3371,     2678,     2127,
  1690,      1342,      1066,     847,      673,      534,      424,
  337,       268,       213,      169,      134,      107,      85,
  67]

/-! ### The instance -/

/-- `WebRtcAgcConfig`. -/
structure WebRtcAgcConfig where
  targetLevelDbfs : Int
  compressionGaindB : Int
  limiterEnable : Int
deriving DecidableEq, Repr

/-- `LegacyAgc`. The two slots of `Rxx16w32_array` and of `env` are fields of
their own. -/
structure LegacyAgc where
  fs : Int
  compressionGaindB : Int
  targetLevelDbfs : Int
  agcMode : Int
  limiterEnable : Int
  defaultConfig : WebRtcAgcConfig
  usedConfig : WebRtcAgcConfig
  initFlag : Int
  lastError : Int
  analogTargetLevel : Int
  startUpperLimit : Int
  startLowerLimit : Int
  upperPrimaryLimit : Int
  lowerPrimaryLimit : Int
  upperSecondaryLimit : Int
  lowerSecondaryLimit : Int
  targetIdx : Int
  analogTarget : Int
  filterState : FiltState
  upperLimit : Int
  lowerLimit : Int
  Rxx160w32 : Int
  Rxx16_LPw32 : Int
  Rxx160_LPw32 : Int
  Rxx16_LPw32Max : Int
  Rxx16_vectorw32 : List Int
  Rxx16w32_array0 : List Int
  Rxx16w32_array1 : List Int
  env0 : List Int
  env1 : List Int
  Rxx16pos : Int
  envSum : Int
  vadThreshold : Int
  msTooLow : Int
  msTooHigh : Int
  changeToSlowMode : Int
  firstCall : Int
  msZero : Int
  msecSpeechOuterChange : Int
  msecSpeechInnerChange : Int
  activeSpeech : Int
  muteGuardMs : Int
  inQueue : Int
  micRef : Int
  gainTableIdx : Int
  micGainIdx : Int
  micVol : Int
  maxLevel : Int
  maxAnalog : Int
  maxInit : Int
  minLevel : Int
  minOutput : Int
  zeroCtrlMax : Int
  lastInMicLevel : Int
  scale : Int
  vadMic : AgcVad
  digitalAgc : DigitalAgc
  lowLevelSignal : Int

/-- `WebRtcAgc_Create`. The rest of the allocated memory is not written. -/
def create (mem : LegacyAgc) : LegacyAgc := { mem with initFlag := 0, lastError := 0 }

/-! ### The configuration -/

/-- The digital reference level in the envelope scale, from the compression
gain and the mode. -/
def analogTargetOf (agcMode compressionGaindB : Int) : Int :=
  if agcMode = kAgcModeFixedDigital then compressionGaindB
  else
    let t := i16 (DIFF_REF_TO_ANALOG * compressionGaindB + ANALOG_TARGET_LEVEL_2)
    let a := i16 (DIGITAL_REF_AT_0_COMP_GAIN + divW32W16ResW16 t ANALOG_TARGET_LEVEL)
    if a < DIGITAL_REF_AT_0_COMP_GAIN then DIGITAL_REF_AT_0_COMP_GAIN else a

/-- A limit of the analog adaptation: ten sub-frames at a table level. -/
def targetLimit (idx : Int) : Int := i32 (RXX_BUFFER_LEN * kTargetLevelTable.getD idx.toNat 0)

/-- `WebRtcAgc_UpdateAgcThresholds`. -/
def updateAgcThresholds (s : LegacyAgc) : LegacyAgc :=
  let targetIdx := ANALOG_TARGET_LEVEL + OFFSET_ENV_TO_RMS
  { s with
    analogTarget := analogTargetOf s.agcMode s.compressionGaindB
    targetIdx := targetIdx
    analogTargetLevel := targetLimit targetIdx
    startUpperLimit := targetLimit (targetIdx - 1)
    startLowerLimit := targetLimit (targetIdx + 1)
    upperPrimaryLimit := targetLimit (targetIdx - 2)
    lowerPrimaryLimit := targetLimit (targetIdx + 2)
    upperSecondaryLimit := targetLimit (targetIdx - 5)
    lowerSecondaryLimit := targetLimit (targetIdx + 5)
    upperLimit := targetLimit (targetIdx - 1)
    lowerLimit := targetLimit (targetIdx + 1) }

/-- The compression gain the instance works with: in the fixed digital mode
the target level is added to it. -/
def effectiveGain (agcMode : Int) (c : WebRtcAgcConfig) : Int :=
  if agcMode = kAgcModeFixedDigital then i16 (c.compressionGaindB + c.targetLevelDbfs)
  else c.compressionGaindB

/-- The table `WebRtcAgc_CalculateGainTable` makes of a configuration, for an
instance of the given mode. -/
def tableOf (agcMode : Int) (c : WebRtcAgcConfig) : Option (List Int) :=
  (calculateGainTable (effectiveGain agcMode c) c.targetLevelDbfs c.limiterEnable
    (analogTargetOf agcMode (effectiveGain agcMode c))).val

/-- `WebRtcAgc_set_config`. The working copies are written as the checks go
along, the table and `usedConfig` only on success. -/
def setConfig (s : LegacyAgc) (c : WebRtcAgcConfig) : LegacyAgc × Int :=
  if s.initFlag ≠ kInitCheck then ({ s with lastError := AGC_UNINITIALIZED_ERROR }, -1)
  else if c.limiterEnable ≠ kAgcFalse ∧ c.limiterEnable ≠ kAgcTrue then
    ({ s with lastError := AGC_BAD_PARAMETER_ERROR }, -1)
  else
    let s := { s with limiterEnable := c.limiterEnable, compressionGaindB := c.compressionGaindB }
    if c.targetLevelDbfs < 0 ∨ c.targetLevelDbfs > 31 then
      ({ s with lastError := AGC_BAD_PARAMETER_ERROR }, -1)
    else
      let s := { s with targetLevelDbfs := c.targetLevelDbfs }
      let s :=
        if s.agcMode = kAgcModeFixedDigital then
          { s with compressionGaindB := i16 (s.compressionGaindB + c.targetLevelDbfs) }
        else s
      let s := updateAgcThresholds s
      match (calculateGainTable s.compressionGaindB s.targetLevelDbfs s.limiterEnable
        s.analogTarget).val with
      | none => (s, -1)
      | some t =>
        ({ s with
          digitalAgc := { s.digitalAgc with gainTable := t }
          usedConfig := ⟨c.targetLevelDbfs, c.compressionGaindB, c.limiterEnable⟩ }, 0)

/-- `WebRtcAgc_get_config`: the configuration last stored, `none` for its
return value -1. -/
def getConfig (s : LegacyAgc) : Option WebRtcAgcConfig :=
  if s.initFlag ≠ kInitCheck then none else some s.usedConfig

/-! ### Initialisation -/

/-- The volume levels of an instance, from the range it is given. The maximum
is raised by a quarter of the range, the digital part of the volume. -/
def initLevels (s : LegacyAgc) (minLevel maxLevel : Int) : Chk LegacyAgc := do
  let range ← ck32 (maxLevel - minLevel)
  let top ← ck32 (maxLevel + range.tdiv 4)
  let micVol := if s.agcMode = kAgcModeAdaptiveDigital then 127 else maxLevel
  let span ← ck32 (top - minLevel)
  let p ← ck32 (span * 10)
  let minOutput ← ck32 (minLevel + p / 2 ^ 8)
  pure { s with
    minLevel := minLevel
    maxAnalog := maxLevel
    maxLevel := top
    maxInit := top
    zeroCtrlMax := maxLevel
    lastInMicLevel := 0
    micVol := micVol
    micRef := micVol
    micGainIdx := 127
    minOutput := minOutput }

/-- The counters, timers and buffers of an instance. `Rxx16w32_array[1]` is
not written. -/
def initBuffers (s : LegacyAgc) : LegacyAgc :=
  { s with
    msTooLow := 0
    msTooHigh := 0
    changeToSlowMode := 0
    firstCall := 0
    msZero := 0
    muteGuardMs := 0
    gainTableIdx := 0
    msecSpeechInnerChange := kMsecSpeechInner
    msecSpeechOuterChange := kMsecSpeechOuter
    activeSpeech := 0
    Rxx16_LPw32Max := 0
    vadThreshold := kNormalVadThreshold
    Rxx16_vectorw32 := List.replicate 10 1000
    Rxx160w32 := 125 * RXX_BUFFER_LEN
    Rxx16pos := 0
    Rxx16_LPw32 := 16284
    Rxx16w32_array0 := List.replicate 5 0
    env0 := List.replicate 10 0
    env1 := List.replicate 10 0
    inQueue := 0
    filterState := .zero
    initFlag := kInitCheck
    defaultConfig := ⟨AGC_DEFAULT_TARGET_LEVEL, AGC_DEFAULT_COMP_GAIN, kAgcTrue⟩ }

/-- What `WebRtcAgc_Init` writes before the configuration. The scale computed
from `maxLevel` is overwritten with 0. -/
def initInstance (s : LegacyAgc) (minLevel maxLevel agcMode fs : Int) : Chk LegacyAgc := do
  let s := { s with
    digitalAgc := initDigital s.digitalAgc agcMode
    envSum := 0
    agcMode := agcMode
    fs := fs
    vadMic := initVad
    scale := 0 }
  let s ← initLevels s minLevel maxLevel
  pure (initBuffers s)

/-- The default configuration is set, and the range is checked last, after
everything is written. -/
def initFinish (s : LegacyAgc) (minLevel maxLevel : Int) : LegacyAgc × Int :=
  let r := setConfig s s.defaultConfig
  if r.2 = -1 then ({ r.1 with lastError := AGC_UNSPECIFIED_ERROR }, -1)
  else
    ({ r.1 with Rxx160_LPw32 := r.1.analogTargetLevel, lowLevelSignal := 0 },
      if minLevel ≥ maxLevel ∨ u32 maxLevel ≥ 2 ^ 26 then -1 else 0)

/-- The levels an instance works with: the adaptive digital mode has the range
0 to 255 whatever it is given. -/
def lowestLevel (agcMode minLevel : Int) : Int :=
  if agcMode = kAgcModeAdaptiveDigital then 0 else minLevel
def highestLevel (agcMode maxLevel : Int) : Int := if agcMode = kAgcModeAdaptiveDigital then 255
    else maxLevel

/-- `WebRtcAgc_Init`. -/
def init (s : LegacyAgc) (minLevel maxLevel agcMode fs : Int) : Chk (LegacyAgc × Int) :=
  if agcMode < kAgcModeUnchanged ∨ agcMode > kAgcModeFixedDigital then
    pure ({ s with digitalAgc := initDigital s.digitalAgc agcMode, envSum := 0 }, -1)
  else do
    let s ← initInstance s (lowestLevel agcMode minLevel)
      (highestLevel agcMode maxLevel) agcMode fs
    pure (initFinish s (lowestLevel agcMode minLevel) (highestLevel agcMode maxLevel))

/-! ### Instances to evaluate -/

/-- Cleared memory. -/
def LegacyAgc.cleared : LegacyAgc :=
  ⟨0, 0, 0, 0, 0, ⟨0, 0, 0⟩, ⟨0, 0, 0⟩, 0, 0, 0, 0, 0, 0, 0, 0, 0, 0, 0, .zero, 0, 0, 0,
    0, 0, 0, [], [], [], [], [], 0, 0, 0, 0, 0, 0, 0, 0, 0, 0, 0, 0, 0, 0, 0, 0, 0, 0, 0, 0, 0, 0,
    0, 0, 0, initVad, ⟨0, 0, 0, [], 0, 0, initVad, initVad⟩, 0⟩

/-- An instance as created and initialised in cleared memory, for 8 kHz and
the levels 0 to 255. -/
def LegacyAgc.fresh (agcMode : Int) : LegacyAgc := (init (create .cleared) 0 255 agcMode 8000).val.1

end AgcSpec
