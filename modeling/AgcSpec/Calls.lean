/-
# The calls of the interface

The functions of `digital_agc/gain_control.h` that work on an instance, as one
labelled step relation: a label is a call with its arguments and the value it
returned. What a call can do is said once for each function, as a case
distinction on its outcome (`addMic_cases`, `virtualMic_eq`,
`process_cases`); what it leaves alone follows from these (`Settings`). A run
of given calls can be computed (`run_of_runAll`).
-/
import AgcSpec.Lib.Run
import AgcSpec.Frame

namespace AgcSpec

open FixedPoint Runs

/-! ### Outcomes -/

/-- The outcomes of `WebRtcAgc_AddMic`: it fails and changes nothing, or the
frame is scaled and analysed. -/
theorem addMic_cases (s : LegacyAgc) (in_mic : List (List Int)) :
    (addMic s in_mic).val = ⟨-1, s, in_mic⟩ ∨
      ∃ idx bands, (in_mic.headD []).length = 10 * micSubframe s.fs ∧
        (micGain s in_mic).val = some (idx, bands) ∧
        (addMic s in_mic).val = ⟨0, micAnalyse { s with gainTableIdx := idx } bands,
          bands⟩ := by
  by_cases hlen : (in_mic.headD []).length ≠ 10 * micSubframe s.fs
  · exact .inl (by rw [addMic, if_pos hlen]; rfl)
  rw [addMic, if_neg hlen, Chk.val_bind]
  rcases (micGain s in_mic).val with _ | ⟨idx, bands⟩
  · exact .inl rfl
  · exact .inr ⟨idx, bands, not_not.mp hlen, rfl, rfl⟩

/-- The target in the gain table, for a volume between the analog maximum and
the largest level. -/
theorem targetGainIdx_eq {s : LegacyAgc} (hv : s.maxAnalog < s.micVol)
    (hl : s.micVol ≤ s.maxLevel) (hd : s.maxLevel - s.maxAnalog ≤ 32767) :
    ∃ q, targetGainIdx s = pure q ∧ 0 ≤ q ∧ q ≤ 31 := by
  have hnn : 0 ≤ 31 * (s.micVol - s.maxAnalog) := by omega
  have hq0 : 0 ≤ 31 * (s.micVol - s.maxAnalog) / (s.maxLevel - s.maxAnalog) :=
    Int.ediv_nonneg hnn (by omega)
  have hq1 : 31 * (s.micVol - s.maxAnalog) / (s.maxLevel - s.maxAnalog) ≤ 31 :=
    Int.ediv_le_of_le_mul (by omega) (by omega)
  refine ⟨31 * (s.micVol - s.maxAnalog) / (s.maxLevel - s.maxAnalog), ?_, hq0, hq1⟩
  rw [targetGainIdx, show GAIN_TBL_LEN - 1 = 31 from rfl, ck32_eq ⟨by omega, by omega⟩,
    pure_bind, ck16_eq ⟨by omega, by omega⟩, pure_bind, ck32_eq ⟨by omega, by omega⟩,
    pure_bind, ck32_eq ⟨by omega, by omega⟩, pure_bind, ck16_eq ⟨by omega, by omega⟩,
    pure_bind, flag_eq (by omega), pure_bind, Int.tdiv_eq_ediv_of_nonneg hnn, u16,
    Int.emod_eq_of_lt hq0 (by omega)]

/-- Where `WebRtcAgc_VirtualMic` starts: the instance, and the gain index. -/
def virtualEntry (s : LegacyAgc) (in_near : List (List Int)) (micLevelIn : Int) :
    LegacyAgc × Int :=
  virtualStart { s with lowLevelSignal := lowLevelOf s.fs (in_near.headD []) }
    (i32 (micLevelIn * 2 ^ s.scale.toNat))

/-- What its loop leaves: the gain index, the samples of band 0 and the gains. -/
def virtualRun (s : LegacyAgc) (in_near : List (List Int)) (micLevelIn : Int) :
    Int × List Int × List Int :=
  let idx := (virtualEntry s in_near micLevelIn).2
  (virtualLoop idx (virtualGainStart idx).val (in_near.headD [])).val

/-- The instance on which `WebRtcAgc_VirtualMic` calls `WebRtcAgc_AddMic`. -/
def virtualState (s : LegacyAgc) (in_near : List (List Int)) (micLevelIn : Int) : LegacyAgc :=
  { (virtualEntry s in_near micLevelIn).1 with micGainIdx := (virtualRun s in_near micLevelIn).1 }

/-- The frame it calls it with. -/
def virtualBands (s : LegacyAgc) (in_near : List (List Int)) (micLevelIn : Int) : List (List Int) :=
  (virtualRun s in_near micLevelIn).2.1 ::
    in_near.tail.map (virtualBand (virtualRun s in_near micLevelIn).2.2)

/-- `WebRtcAgc_VirtualMic` is a call of `WebRtcAgc_AddMic` with a scaled frame,
and reports the gain index as the level. -/
theorem virtualMic_eq (s : LegacyAgc) (in_near : List (List Int)) (micLevelIn : Int) :
    (virtualMic s in_near micLevelIn).val =
      ⟨(addMic (virtualState s in_near micLevelIn) (virtualBands s in_near micLevelIn)).val.ret,
        (addMic (virtualState s in_near micLevelIn) (virtualBands s in_near micLevelIn)).val.agc,
        (addMic (virtualState s in_near micLevelIn) (virtualBands s in_near micLevelIn)).val.bands,
        (virtualState s in_near micLevelIn).micGainIdx / 2 ^
          (virtualState s in_near micLevelIn).scale.toNat⟩ := rfl

/-- The digital stage keeps its table, its mode and the far-end statistics. -/
theorem processDigital_done {s d : DigitalAgc} {in_near out : List (List Int)} {FS low : Int}
    (h : (processDigital s in_near FS low).val = .done d out) :
    d.gainTable = s.gainTable ∧ d.agcMode = s.agcMode ∧ d.vadFarend = s.vadFarend := by
  rw [processDigital] at h
  split at h
  · cases h
  · rw [Chk.val_bind] at h
    split at h
    · cases h
    · cases h
      exact ⟨rfl, rfl, rfl⟩

/-- A rate that `WebRtcAgc_Process` accepts is one the digital stage has. -/
theorem processDigital_ne_error {s : LegacyAgc} {n : ℕ} (h : getAddFarendError s n = 0)
    (in_near : List (List Int)) :
    (processDigital s.digitalAgc in_near s.fs s.lowLevelSignal).val ≠ .error := by
  have hfs : ∃ p, subframeLength s.fs = some p := by
    rw [getAddFarendError] at h
    rw [subframeLength]
    split
    · exact ⟨_, rfl⟩
    · rename_i h8
      rw [if_neg h8] at h
      split
      · exact ⟨_, rfl⟩
      · rename_i hrest
        rw [if_neg hrest] at h
        omega
  obtain ⟨⟨L, L2⟩, hL⟩ := hfs
  rw [processDigital, hL]
  dsimp only
  rw [Chk.val_bind]
  split
  · exact fun h => by cases h
  · exact fun h => by cases h

/-- The outcomes of a call of `WebRtcAgc_Process` that returns. A frame of a
wrong size or rate is rejected at once. Otherwise the digital stage runs, and
after it the analog stage, if it has to: it fails on the level, or succeeds. -/
theorem process_cases {s : LegacyAgc} {in_near out : List (List Int)} {inMicLevel echo : Int}
    {r : ProcessResult} (h : (process s in_near out inMicLevel echo).val = some r) :
    (getAddFarendError s (in_near.headD []).length ≠ 0 ∧ r = ⟨-1, s, out, none, none⟩) ∨
    (getAddFarendError s (in_near.headD []).length = 0 ∧ ∃ d o,
      (processDigital s.digitalAgc in_near s.fs s.lowLevelSignal).val = .done d o ∧
      ((analogStageRuns s ∧
          (processAnalog { s with digitalAgc := d } inMicLevel s.vadMic.logRatio echo).val =
            none ∧
          r = ⟨-1, { s with digitalAgc := d }, o, some inMicLevel, some false⟩) ∨
        (∃ a, analogStageRuns s ∧
          (processAnalog { s with digitalAgc := d } inMicLevel s.vadMic.logRatio echo).val =
            some a ∧
          r = ⟨0, popQueue a.agc, o, some a.outMicLevel, some a.saturationWarning⟩) ∨
        (¬ analogStageRuns s ∧ r = ⟨0, popQueue { s with digitalAgc := d }, o, some inMicLevel,
          some false⟩))) := by
  by_cases hfs : getAddFarendError s (in_near.headD []).length ≠ 0
  · rw [process, if_pos hfs] at h
    exact .inl ⟨hfs, (Option.some.inj h).symm⟩
  refine .inr ⟨not_not.mp hfs, ?_⟩
  rw [process, if_neg hfs, Chk.val_bind] at h
  have herr := processDigital_ne_error (not_not.mp hfs) in_near
  rcases hd : (processDigital s.digitalAgc in_near s.fs s.lowLevelSignal).val
    with _ | _ | ⟨d, o⟩
  · rw [hd] at h
    cases h
  · exact absurd hd herr
  refine ⟨d, o, rfl, ?_⟩
  rw [hd] at h
  dsimp only at h
  by_cases hrun : analogStageRuns { s with digitalAgc := d }
  · rw [if_pos hrun, Chk.val_bind] at h
    rcases ha : (processAnalog { s with digitalAgc := d } inMicLevel s.vadMic.logRatio echo).val
      with _ | a
    · rw [ha] at h
      exact .inl ⟨hrun, rfl, (Option.some.inj h).symm⟩
    · rw [ha] at h
      exact .inr (.inl ⟨a, hrun, rfl, (Option.some.inj h).symm⟩)
  · rw [if_neg hrun] at h
    exact .inr (.inr ⟨hrun, (Option.some.inj h).symm⟩)

theorem process_returns {s : LegacyAgc} {in_near o : List (List Int)} {d : DigitalAgc}
    (hd : (processDigital s.digitalAgc in_near s.fs s.lowLevelSignal).val = .done d o)
    (out : List (List Int))
    (inMicLevel echo : Int) : ∃ r, (process s in_near out inMicLevel echo).val = some r := by
  rw [process]
  split
  · exact ⟨_, rfl⟩
  rw [Chk.val_bind, hd]
  dsimp only
  split
  · rw [Chk.val_bind]
    split <;> exact ⟨_, rfl⟩
  · exact ⟨_, rfl⟩

theorem process_succeeds {s : LegacyAgc} {in_near o : List (List Int)} {inMicLevel echo : Int}
    {d : DigitalAgc} {a : AnalogResult} (hframe : getAddFarendError s (in_near.headD []).length = 0)
    (hd : (processDigital s.digitalAgc in_near s.fs s.lowLevelSignal).val = .done d o)
    (hrun : analogStageRuns s)
    (ha : (processAnalog { s with digitalAgc := d } inMicLevel s.vadMic.logRatio echo).val = some a)
    (out : List (List Int)) :
    (process s in_near out inMicLevel echo).val =
      some ⟨0, popQueue a.agc, o, some a.outMicLevel, some a.saturationWarning⟩ := by
  have hrun' : analogStageRuns { s with digitalAgc := d } := hrun
  rw [process, if_neg (not_not.mpr hframe), Chk.val_bind, hd]
  dsimp only
  rw [if_pos hrun', Chk.val_bind, ha]
  rfl

/-! ### The step relation -/

/-- A call with its arguments. -/
inductive Op where
  | setConfig (c : WebRtcAgcConfig)
  | addMic (in_mic : List (List Int))
  | virtualMic (in_near : List (List Int)) (micLevelIn : Int)
  | addFarend (in_far : List Int)
  | process (in_near out : List (List Int)) (inMicLevel echo : Int)

/-- The instance a call leaves and the value it returns; `none` if it does not
return. -/
def Op.run (s : LegacyAgc) : Op → Option (LegacyAgc × Int)
  | .setConfig c => some (AgcSpec.setConfig s c)
  | .addMic x => some ((AgcSpec.addMic s x).val.agc, (AgcSpec.addMic s x).val.ret)
  | .virtualMic x l => some ((AgcSpec.virtualMic s x l).val.agc, (AgcSpec.virtualMic s x l).val.ret)
  | .addFarend x => some (AgcSpec.addFarend s x)
  | .process x out l echo => (AgcSpec.process s x out l echo).val.map fun r => (r.agc, r.ret)

/-- A step: a call and the value it returned. -/
def Step (s : LegacyAgc) (l : Op × Int) (t : LegacyAgc) : Prop := l.1.run s = some (t, l.2)

/-- What a step does, call by call. -/
inductive Outcome (s : LegacyAgc) : Op → LegacyAgc → Prop
  | setConfig (c : WebRtcAgcConfig) : Outcome s (.setConfig c) (setConfig s c).1
  | addMic (x : List (List Int)) : Outcome s (.addMic x) (addMic s x).val.agc
  | virtualMic (x : List (List Int)) (m : Int) :
      Outcome s (.virtualMic x m) (AgcSpec.addMic (virtualState s x m) (virtualBands s x m)).val.agc
  | addFarend (x : List Int) : Outcome s (.addFarend x) (addFarend s x).1
  | process {x out : List (List Int)} {l echo : Int} {r : ProcessResult}
      (h : (process s x out l echo).val = some r) : Outcome s (.process x out l echo) r.agc

theorem Step.outcome {s t : LegacyAgc} {l : Op × Int} (h : Step s l t) : Outcome s l.1 t := by
  obtain ⟨op, ret⟩ := l
  cases op with
  | setConfig c =>
    obtain ⟨rfl, -⟩ := Prod.mk.inj (Option.some.inj h)
    exact .setConfig c
  | addMic x =>
    obtain ⟨rfl, -⟩ := Prod.mk.inj (Option.some.inj h)
    exact .addMic x
  | virtualMic x m =>
    obtain ⟨rfl, -⟩ := Prod.mk.inj (Option.some.inj h)
    rw [virtualMic_eq]
    exact .virtualMic x m
  | addFarend x =>
    obtain ⟨rfl, -⟩ := Prod.mk.inj (Option.some.inj h)
    exact .addFarend x
  | process x out l echo =>
    obtain ⟨r, hr, he⟩ := Option.map_eq_some_iff.mp h
    obtain ⟨rfl, -⟩ := Prod.mk.inj he
    exact .process hr

/-! ### Runs that are computed -/

/-- The calls of a list one after another: the instance they leave and the
values they return. -/
def runAll (s : LegacyAgc) : List Op → Option (LegacyAgc × List Int)
  | [] => some (s, [])
  | op :: ops => do
    let (t, ret) ← op.run s
    let (u, rets) ← runAll t ops
    pure (u, ret :: rets)

theorem run_of_runAll {ops : List Op} {s t : LegacyAgc} {rets : List Int}
    (h : runAll s ops = some (t, rets)) : Run Step s (ops.zip rets) t := by
  induction ops generalizing s rets with
  | nil =>
    obtain ⟨rfl, rfl⟩ := Prod.mk.inj (Option.some.inj h)
    exact .nil
  | cons op ops ih =>
    obtain ⟨⟨u, ret⟩, hop, h⟩ := Option.bind_eq_some_iff.mp h
    obtain ⟨⟨t', rets'⟩, hall, h⟩ := Option.bind_eq_some_iff.mp h
    obtain ⟨rfl, rfl⟩ := Prod.mk.inj (Option.some.inj h)
    exact (Run.one (show Step s (op, ret) u from hop)).append (ih hall)

/-- A frame of a square wave of 800 Hz at 8 kHz, 4 dB below full scale. -/
def loudTone : List (List Int) :=
  [(List.range 80).map fun i => if i % 10 < 5 then 20000 else -20000]

/-- Two frames, each analysed and then processed at the level 100. -/
def loudCalls : List Op :=
  [.addMic loudTone, .process loudTone loudTone 100 0, .addMic loudTone,
    .process loudTone loudTone 100 0]

/-- On a new instance of the adaptive analog mode all of them succeed. -/
theorem exists_loudRun : ∃ t, Run Step (LegacyAgc.fresh 1) (loudCalls.map (·, 0)) t := by
  have hrets : (runAll (LegacyAgc.fresh 1) loudCalls).map Prod.snd = some [0, 0, 0, 0] := by
    decide +kernel
  obtain ⟨⟨t, rets⟩, hall, rfl⟩ := Option.map_eq_some_iff.mp hrets
  exact ⟨t, run_of_runAll hall⟩

/-! ### What a configuration leaves alone -/

/-- An instance without the fields that `WebRtcAgc_set_config` writes. -/
def unconfigured (s : LegacyAgc) : LegacyAgc :=
  { s with
    compressionGaindB := 0
    targetLevelDbfs := 0
    limiterEnable := 0
    usedConfig := ⟨0, 0, 0⟩
    lastError := 0
    analogTargetLevel := 0
    startUpperLimit := 0
    startLowerLimit := 0
    upperPrimaryLimit := 0
    lowerPrimaryLimit := 0
    upperSecondaryLimit := 0
    lowerSecondaryLimit := 0
    targetIdx := 0
    analogTarget := 0
    upperLimit := 0
    lowerLimit := 0
    digitalAgc := { s.digitalAgc with gainTable := [] } }

theorem unconfigured_setConfig (s : LegacyAgc) (c : WebRtcAgcConfig) :
    unconfigured (setConfig s c).1 = unconfigured s := by
  rw [setConfig]
  split
  · rfl
  split
  · rfl
  dsimp only
  split
  · rfl
  split
  · split <;> rfl
  · split <;> rfl

/-- A call keeps, accepted or not, what does not depend on them. -/
theorem of_setConfig {P : LegacyAgc → Prop} (hP : ∀ s, P (unconfigured s) ↔ P s)
    {s : LegacyAgc} (h : P s) (c : WebRtcAgcConfig) : P (setConfig s c).1 := by
  rw [← hP, unconfigured_setConfig, hP]
  exact h

/-! ### The format and the range -/

/-- What only `WebRtcAgc_Init` writes. -/
structure Ranges where
  agcMode : Int
  fs : Int
  scale : Int
  minLevel : Int
  maxAnalog : Int
  maxInit : Int
  minOutput : Int

/-- The format and the range of an instance. -/
def LegacyAgc.ranges (s : LegacyAgc) : Ranges :=
  ⟨s.agcMode, s.fs, s.scale, s.minLevel, s.maxAnalog, s.maxInit, s.minOutput⟩

theorem ranges_setConfig (s : LegacyAgc) (c : WebRtcAgcConfig) :
    (setConfig s c).1.ranges = s.ranges :=
  of_setConfig (P := fun t => t.ranges = s.ranges) (fun _ => Iff.rfl) rfl c

theorem ranges_addMic (s : LegacyAgc) (in_mic : List (List Int)) :
    (addMic s in_mic).val.agc.ranges = s.ranges := by
  rcases addMic_cases s in_mic with h | ⟨idx, bands, -, -, h⟩
  · rw [h]
  · rw [h]
    rfl

theorem ranges_virtualState (s : LegacyAgc) (in_near : List (List Int)) (micLevelIn : Int) :
    (virtualState s in_near micLevelIn).ranges = s.ranges := by
  unfold virtualState virtualEntry virtualStart
  dsimp only
  split <;> rfl

theorem ranges_addFarend (s : LegacyAgc) (in_far : List Int) :
    (addFarend s in_far).1.ranges = s.ranges := by
  rw [addFarend]
  split <;> rfl

theorem ranges_process {s : LegacyAgc} {in_near out : List (List Int)} {inMicLevel echo : Int}
    {r : ProcessResult} (h : (process s in_near out inMicLevel echo).val = some r) :
    r.agc.ranges = s.ranges := by
  rcases process_cases h
    with ⟨-, rfl⟩ | ⟨-, d, o, -, ⟨-, -, rfl⟩ | ⟨a, -, ha, rfl⟩ | ⟨-, rfl⟩⟩
  · rfl
  · rfl
  · have hu := eq_of_untouched LegacyAgc.ranges (fun _ => rfl) (untouched_processAnalog ha)
    exact hu
  · rfl

/-- No call writes them. -/
theorem ranges_step {s t : LegacyAgc} {l : Op × Int} (h : Step s l t) : t.ranges = s.ranges := by
  obtain ⟨op, ret⟩ := l
  cases h.outcome with
  | setConfig c => exact ranges_setConfig s c
  | addMic x => exact ranges_addMic s x
  | virtualMic x m => exact (ranges_addMic _ _).trans (ranges_virtualState s x m)
  | addFarend x => exact ranges_addFarend s x
  | process hr => exact ranges_process hr

/-! ### The digital stage -/

theorem digitalAgc_addMic (s : LegacyAgc) (x : List (List Int)) :
    (addMic s x).val.agc.digitalAgc = s.digitalAgc := by
  rcases addMic_cases s x with h | ⟨idx, bands, -, -, h⟩
  · rw [h]
  · rw [h]
    rfl

theorem digitalAgc_virtualState (s : LegacyAgc) (x : List (List Int)) (l : Int) :
    (virtualState s x l).digitalAgc = s.digitalAgc := by
  unfold virtualState virtualEntry virtualStart
  dsimp only
  split <;> rfl

/-! ### The settings -/

/-- What only `WebRtcAgc_Init` and an accepted configuration write. -/
structure Settings where
  agcMode : Int
  initFlag : Int
  usedConfig : WebRtcAgcConfig
  gainTable : List Int

/-- The settings of an instance. -/
def LegacyAgc.settings (s : LegacyAgc) : Settings :=
  ⟨s.agcMode, s.initFlag, s.usedConfig, s.digitalAgc.gainTable⟩

/-- The settings are among what the analog stage leaves alone. -/
theorem settings_of_untouched {s t : LegacyAgc} (h : untouched t = untouched s) :
    t.settings = s.settings :=
  eq_of_untouched LegacyAgc.settings (fun _ => rfl) h

theorem settings_addMic (s : LegacyAgc) (in_mic : List (List Int)) :
    (addMic s in_mic).val.agc.settings = s.settings := by
  rcases addMic_cases s in_mic with h | ⟨idx, bands, -, -, h⟩
  · rw [h]
  · rw [h]
    rfl

theorem settings_virtualState (s : LegacyAgc) (in_near : List (List Int)) (micLevelIn : Int) :
    (virtualState s in_near micLevelIn).settings = s.settings := by
  unfold virtualState virtualEntry virtualStart
  dsimp only
  split <;> rfl

theorem settings_virtualMic (s : LegacyAgc) (in_near : List (List Int)) (micLevelIn : Int) :
    (virtualMic s in_near micLevelIn).val.agc.settings = s.settings := by
  rw [virtualMic_eq, settings_addMic, settings_virtualState]

theorem settings_addFarend (s : LegacyAgc) (in_far : List Int) :
    (addFarend s in_far).1.settings = s.settings := by
  rw [addFarend]
  split <;> rfl

theorem settings_process {s : LegacyAgc} {in_near out : List (List Int)} {inMicLevel echo : Int}
    {r : ProcessResult} (h : (process s in_near out inMicLevel echo).val = some r) :
    r.agc.settings = s.settings := by
  rcases process_cases h with ⟨-, rfl⟩ | ⟨-, d, o, hd, hr⟩
  · rfl
  have hset : LegacyAgc.settings { s with digitalAgc := d } = s.settings := by
    simp only [LegacyAgc.settings, (processDigital_done hd).1]
  rcases hr with ⟨-, -, rfl⟩ | ⟨a, -, ha, rfl⟩ | ⟨-, rfl⟩
  · exact hset
  · exact (settings_of_untouched (untouched_processAnalog ha)).trans hset
  · exact hset

/-- Every other call leaves the settings alone. -/
theorem settings_step {s t : LegacyAgc} {op : Op} {ret : Int} (h : Step s (op, ret) t)
    (hop : ∀ c, op ≠ .setConfig c) : t.settings = s.settings := by
  cases h.outcome with
  | setConfig c => exact absurd rfl (hop c)
  | addMic x => exact settings_addMic s x
  | virtualMic x m => exact (settings_addMic _ _).trans (settings_virtualState s x m)
  | addFarend x => exact settings_addFarend s x
  | process hr => exact settings_process hr

end AgcSpec
