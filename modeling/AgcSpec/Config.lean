/-
# The configuration in effect

`WebRtcAgc_set_config` writes the working copies of the parameters as it
checks them, and the gain table and `usedConfig` last. So what
`WebRtcAgc_get_config` reports always describes the table in effect, whatever
calls are made and however they fail (`table_of_config`); but a rejected
configuration can leave working copies that belong to no accepted one
(`setConfig_atomic_iff` says exactly when it does not).
-/
import AgcSpec.Calls

namespace AgcSpec
namespace Config

open FixedPoint Runs

/-! ### One call -/

/-- The flag of a configuration is one of the two truth values. -/
def LimiterOk (c : WebRtcAgcConfig) : Prop :=
  c.limiterEnable = kAgcFalse ∨ c.limiterEnable = kAgcTrue

/-- The target level is in its range. -/
def TargetOk (c : WebRtcAgcConfig) : Prop := 0 ≤ c.targetLevelDbfs ∧ c.targetLevelDbfs ≤ 31

/-- The compression gain has an entry in the generator table. -/
def GainOk (agcMode : Int) (c : WebRtcAgcConfig) : Prop :=
  0 ≤ diffDigitalGain (effectiveGain agcMode c) ∧
    diffDigitalGain (effectiveGain agcMode c) < kGenFuncTableSize

instance : DecidablePred LimiterOk := fun _ => inferInstanceAs (Decidable (_ ∨ _))
instance : DecidablePred TargetOk := fun _ => inferInstanceAs (Decidable (_ ∧ _))
instance (agcMode : Int) : DecidablePred (GainOk agcMode) :=
  fun _ => inferInstanceAs (Decidable (_ ∧ _))

/-- The instance with the working copies of a configuration. -/
def withParams (s : LegacyAgc) (c : WebRtcAgcConfig) : LegacyAgc :=
  updateAgcThresholds { s with
    limiterEnable := c.limiterEnable
    compressionGaindB := effectiveGain s.agcMode c
    targetLevelDbfs := c.targetLevelDbfs }

theorem setConfig_limiter {s : LegacyAgc} {c : WebRtcAgcConfig} (hs : s.initFlag = kInitCheck)
    (hl : ¬ LimiterOk c) :
    setConfig s c = ({ s with lastError := AGC_BAD_PARAMETER_ERROR }, -1) := by
  rw [setConfig, if_neg (not_not.mpr hs), if_pos (not_or.mp hl)]

theorem setConfig_target {s : LegacyAgc} {c : WebRtcAgcConfig} (hs : s.initFlag = kInitCheck)
    (hl : LimiterOk c) (ht : ¬ TargetOk c) :
    setConfig s c = ({ s with
      limiterEnable := c.limiterEnable
      compressionGaindB := c.compressionGaindB
      lastError := AGC_BAD_PARAMETER_ERROR }, -1) := by
  have hl' : ¬ (c.limiterEnable ≠ kAgcFalse ∧ c.limiterEnable ≠ kAgcTrue) :=
      not_and_or.mpr (by
    rcases hl with h | h
    · exact .inl (not_not.mpr h)
    · exact .inr (not_not.mpr h))
  have ht' : c.targetLevelDbfs < 0 ∨ c.targetLevelDbfs > 31 := by
    unfold TargetOk at ht; omega
  rw [setConfig, if_neg (not_not.mpr hs), if_neg hl']
  dsimp only
  rw [if_pos ht']

/-- A configuration with a good flag and target level: the working copies are
written, and the rest if there is a table. -/
theorem setConfig_table {s : LegacyAgc} {c : WebRtcAgcConfig} (hs : s.initFlag = kInitCheck)
    (hl : LimiterOk c) (ht : TargetOk c) :
    setConfig s c = match tableOf s.agcMode c with
      | none => (withParams s c, -1)
      | some t => ({ withParams s c with
          digitalAgc := { s.digitalAgc with gainTable := t }
          usedConfig := c }, 0) := by
  have hl' : ¬ (c.limiterEnable ≠ kAgcFalse ∧ c.limiterEnable ≠ kAgcTrue) :=
      not_and_or.mpr (by
    rcases hl with h | h
    · exact .inl (not_not.mpr h)
    · exact .inr (not_not.mpr h))
  have ht' : ¬ (c.targetLevelDbfs < 0 ∨ c.targetLevelDbfs > 31) := by
    unfold TargetOk at ht; omega
  rw [setConfig, if_neg (not_not.mpr hs), if_neg hl']
  dsimp only
  rw [if_neg ht']
  by_cases hm : s.agcMode = kAgcModeFixedDigital
  · have hg : effectiveGain s.agcMode c = i16 (c.compressionGaindB + c.targetLevelDbfs) :=
      if_pos hm
    simp only [withParams, tableOf, hg, if_pos hm]
    rfl
  · have hg : effectiveGain s.agcMode c = c.compressionGaindB := if_neg hm
    simp only [withParams, tableOf, hg, if_neg hm]
    rfl

theorem tableOf_eq_none {agcMode : Int} {c : WebRtcAgcConfig} :
    tableOf agcMode c = none ↔ ¬ GainOk agcMode c := by
  unfold tableOf calculateGainTable GainOk
  dsimp only
  split
  · rename_i h
    exact ⟨fun _ => by omega, fun _ => rfl⟩
  · rename_i h
    exact ⟨fun h' => (Option.some_ne_none _ h').elim, fun h' => by omega⟩

/-! ### A rejected configuration -/

/-- Nothing but `lastError` differs. -/
def SameButError (s t : LegacyAgc) : Prop := t = { s with lastError := t.lastError }

/-- A call that returns -1 has changed nothing but `lastError`. -/
def AtomicOn (s : LegacyAgc) (c : WebRtcAgcConfig) : Prop :=
  (setConfig s c).2 = -1 → SameButError s (setConfig s c).1

/-- The working copies of the instance are those of the configuration, and the
limits of the analog adaptation are where a configuration puts them. -/
structure Current (s : LegacyAgc) (c : WebRtcAgcConfig) : Prop where
  limiterEnable : s.limiterEnable = c.limiterEnable
  compressionGaindB : s.compressionGaindB = effectiveGain s.agcMode c
  targetLevelDbfs : s.targetLevelDbfs = c.targetLevelDbfs
  analogTarget : s.analogTarget = analogTargetOf s.agcMode (effectiveGain s.agcMode c)
  targetIdx : s.targetIdx = 20
  analogTargetLevel : s.analogTargetLevel = targetLimit 20
  startUpperLimit : s.startUpperLimit = targetLimit 19
  startLowerLimit : s.startLowerLimit = targetLimit 21
  upperPrimaryLimit : s.upperPrimaryLimit = targetLimit 18
  lowerPrimaryLimit : s.lowerPrimaryLimit = targetLimit 22
  upperSecondaryLimit : s.upperSecondaryLimit = targetLimit 15
  lowerSecondaryLimit : s.lowerSecondaryLimit = targetLimit 25
  upperLimit : s.upperLimit = targetLimit 19
  lowerLimit : s.lowerLimit = targetLimit 21

theorem withParams_eq_self {s : LegacyAgc} {c : WebRtcAgcConfig} :
    withParams s c = s ↔ Current s c := by
  constructor
  · intro h
    exact ⟨(congrArg LegacyAgc.limiterEnable h).symm,
      (congrArg LegacyAgc.compressionGaindB h).symm, (congrArg LegacyAgc.targetLevelDbfs h).symm,
      (congrArg LegacyAgc.analogTarget h).symm, (congrArg LegacyAgc.targetIdx h).symm,
      (congrArg LegacyAgc.analogTargetLevel h).symm, (congrArg LegacyAgc.startUpperLimit h).symm,
      (congrArg LegacyAgc.startLowerLimit h).symm, (congrArg LegacyAgc.upperPrimaryLimit h).symm,
      (congrArg LegacyAgc.lowerPrimaryLimit h).symm,
      (congrArg LegacyAgc.upperSecondaryLimit h).symm,
      (congrArg LegacyAgc.lowerSecondaryLimit h).symm, (congrArg LegacyAgc.upperLimit h).symm,
      (congrArg LegacyAgc.lowerLimit h).symm⟩
  · rintro ⟨h1, h2, h3, h4, h5, h6, h7, h8, h9, h10, h11, h12, h13, h14⟩
    cases s
    dsimp only at h1 h2 h3 h4 h5 h6 h7 h8 h9 h10 h11 h12 h13 h14
    subst h1 h2 h3 h4 h5 h6 h7 h8 h9 h10 h11 h12 h13 h14
    rfl

/-- A rejected configuration leaves the instance as it was if and only if it
is rejected for its flag, or the values it writes before the check that
rejects it are there already. -/
theorem setConfig_atomic_iff (s : LegacyAgc) (c : WebRtcAgcConfig) (hs : s.initFlag = kInitCheck) :
    AtomicOn s c ↔
      (¬ LimiterOk c ∨ (TargetOk c ∧ GainOk s.agcMode c) ∨
        (¬ TargetOk c ∧ s.limiterEnable = c.limiterEnable ∧
          s.compressionGaindB = c.compressionGaindB) ∨
        (TargetOk c ∧ Current s c)) := by
  by_cases hl : LimiterOk c
  swap
  · rw [AtomicOn, setConfig_limiter hs hl]
    exact ⟨fun _ => .inl hl, fun _ _ => rfl⟩
  by_cases ht : TargetOk c
  swap
  · rw [AtomicOn, setConfig_target hs hl ht]
    constructor
    · intro h
      have h := h rfl
      exact .inr (.inr (.inl ⟨ht, (congrArg LegacyAgc.limiterEnable h).symm,
        (congrArg LegacyAgc.compressionGaindB h).symm⟩))
    · rintro (h | h | ⟨-, h1, h2⟩ | h) -
      · exact absurd hl h
      · exact absurd h.1 ht
      · rw [SameButError, ← h1, ← h2]
      · exact absurd h.1 ht
  by_cases hg : GainOk s.agcMode c
  · obtain ⟨t, htab⟩ := Option.ne_none_iff_exists'.mp (mt tableOf_eq_none.mp (not_not.mpr hg))
    rw [AtomicOn, setConfig_table hs hl ht, htab]
    exact ⟨fun _ => .inr (.inl ⟨ht, hg⟩), fun _ h => by cases h⟩
  · rw [AtomicOn, setConfig_table hs hl ht, tableOf_eq_none.mpr hg]
    constructor
    · intro h
      exact .inr (.inr (.inr ⟨ht, withParams_eq_self.mp (h rfl)⟩))
    · rintro (h | h | h | h) -
      · exact absurd hl h
      · exact absurd h.2 hg
      · exact absurd ht h.1
      · exact withParams_eq_self.mpr h.2

/-- A configuration with a bad flag, on an initialised instance. -/
theorem setConfig_atomic_bad_flag :
    (LegacyAgc.fresh 1).initFlag = kInitCheck ∧ AtomicOn (LegacyAgc.fresh 1) ⟨3, 9, 2⟩ :=
  ⟨by decide, (setConfig_atomic_iff _ _ (by decide)).mpr (.inl (by unfold LimiterOk; decide))⟩

/-- A target level of 32 dB is rejected, and the limiter is off afterwards. -/
theorem setConfig_half_applied :
    (LegacyAgc.fresh 1).initFlag = kInitCheck ∧
    (setConfig (LegacyAgc.fresh 1) ⟨32, 20, 0⟩).2 = -1 ∧
    (LegacyAgc.fresh 1).limiterEnable = 1 ∧ (LegacyAgc.fresh 1).compressionGaindB = 9 ∧
    (setConfig (LegacyAgc.fresh 1) ⟨32, 20, 0⟩).1.limiterEnable = 0 ∧
    (setConfig (LegacyAgc.fresh 1) ⟨32, 20, 0⟩).1.compressionGaindB = 20 := by
  decide

/-! ### The table in effect -/

/-- The configuration an instance is initialised with. -/
def defaultConfig : WebRtcAgcConfig :=
  ⟨AGC_DEFAULT_TARGET_LEVEL, AGC_DEFAULT_COMP_GAIN, kAgcTrue⟩

/-- `WebRtcAgc_set_config` accepts a configuration, and the table is the one
made from it; or it rejects it, and the settings are what they were. -/
theorem setConfig_cases {s : LegacyAgc} (hs : s.initFlag = kInitCheck) (c : WebRtcAgcConfig) :
    ((setConfig s c).2 = -1 ∧ (setConfig s c).1.settings = s.settings) ∨
    ∃ t, tableOf s.agcMode c = some t ∧
      setConfig s c = ({ withParams s c with
        digitalAgc := { s.digitalAgc with gainTable := t }
        usedConfig := c }, 0) := by
  by_cases hl : LimiterOk c
  swap
  · rw [setConfig_limiter hs hl]
    exact .inl ⟨rfl, rfl⟩
  by_cases ht : TargetOk c
  swap
  · rw [setConfig_target hs hl ht]
    exact .inl ⟨rfl, rfl⟩
  rw [setConfig_table hs hl ht]
  rcases tableOf s.agcMode c with _ | t
  · exact .inl ⟨rfl, rfl⟩
  · exact .inr ⟨t, rfl, rfl⟩

theorem initFinish_ok {i s : LegacyAgc} {lo hi : Int} (hflag : i.initFlag = kInitCheck)
    (h : initFinish i lo hi = (s, 0)) :
    (lo < hi ∧ u32 hi < 2 ^ 26) ∧ ∃ t, tableOf i.agcMode i.defaultConfig = some t ∧
      s = { withParams i i.defaultConfig with
        digitalAgc := { i.digitalAgc with gainTable := t }
        usedConfig := i.defaultConfig
        Rxx160_LPw32 := targetLimit 20
        lowLevelSignal := 0 } := by
  rw [initFinish] at h
  rcases setConfig_cases hflag i.defaultConfig with ⟨hr, -⟩ | ⟨t, ht, hr⟩
  · rw [if_pos hr] at h
    cases h
  · rw [hr, if_neg (by simp)] at h
    obtain ⟨hs, hret⟩ := Prod.mk.inj h
    refine ⟨?_, t, ht, hs.symm⟩
    by_contra hlv
    rw [if_pos (by omega)] at hret
    cases hret

/-- What a successful `WebRtcAgc_Init` leaves: a valid mode and range, and an
instance with the default configuration. -/
theorem init_ok {mem s : LegacyAgc} {minLevel maxLevel agcMode fs : Int}
    (h : (init mem minLevel maxLevel agcMode fs).val = (s, 0)) :
    (0 ≤ agcMode ∧ agcMode ≤ 3) ∧
    (lowestLevel agcMode minLevel < highestLevel agcMode maxLevel ∧
      u32 (highestLevel agcMode maxLevel) < 2 ^ 26) ∧
    ∃ i t, i = (initInstance mem (lowestLevel agcMode minLevel) (highestLevel agcMode maxLevel)
      agcMode fs).val ∧ tableOf agcMode defaultConfig = some t ∧
      s = { withParams i defaultConfig with
        digitalAgc := { i.digitalAgc with gainTable := t }
        usedConfig := defaultConfig
        Rxx160_LPw32 := targetLimit 20
        lowLevelSignal := 0 } := by
  rw [init] at h
  split at h
  · cases h
  rename_i hmode
  obtain ⟨hlv, t, ht, hs⟩ := initFinish_ok rfl h
  refine ⟨?_, hlv, _, t, rfl, ht, hs⟩
  simp only [kAgcModeUnchanged, kAgcModeFixedDigital] at hmode
  omega

/-- `WebRtcAgc_Init` succeeds with a valid mode and range, as the default
configuration is a valid one. -/
theorem init_returns (mem : LegacyAgc) (minLevel maxLevel agcMode fs : Int)
    (hmode : 0 ≤ agcMode ∧ agcMode ≤ 3)
    (hlv : lowestLevel agcMode minLevel < highestLevel agcMode maxLevel ∧
      u32 (highestLevel agcMode maxLevel) < 2 ^ 26) :
    ∃ s, (init mem minLevel maxLevel agcMode fs).val = (s, 0) := by
  have hmode' : ¬ (agcMode < kAgcModeUnchanged ∨ agcMode > kAgcModeFixedDigital) := by
    simp only [kAgcModeUnchanged, kAgcModeFixedDigital]
    omega
  have hgain : tableOf agcMode defaultConfig ≠ none := by
    rw [Ne, tableOf_eq_none, not_not]
    rcases (by omega : agcMode = 0 ∨ agcMode = 1 ∨ agcMode = 2 ∨ agcMode = 3)
      with rfl | rfl | rfl | rfl <;> decide
  obtain ⟨t, ht⟩ := Option.ne_none_iff_exists'.mp hgain
  rw [init, if_neg hmode']
  generalize hi : initInstance mem (lowestLevel agcMode minLevel) (highestLevel agcMode maxLevel)
    agcMode fs = i
  have hflag : i.val.initFlag = kInitCheck := by rw [← hi]; rfl
  have hagc : i.val.agcMode = agcMode := by rw [← hi]; rfl
  have hdef : i.val.defaultConfig = defaultConfig := by rw [← hi]; rfl
  rw [Chk.val_bind, Chk.val_pure, initFinish, hdef, setConfig_table hflag (by decide) (by decide),
    hagc, ht]
  dsimp only
  rw [if_neg (by decide), if_neg (by omega)]
  exact ⟨_, rfl⟩

/-- The accepted configuration after a call. -/
def accept (c : WebRtcAgcConfig) : Op × Int → WebRtcAgcConfig
  | (.setConfig c', ret) => if ret = 0 then c' else c
  | _ => c

/-- The configuration that was accepted last in a history. -/
def lastAccepted (ls : List (Op × Int)) : WebRtcAgcConfig := ls.foldl accept defaultConfig

theorem lastAccepted_append (ls : List (Op × Int)) (l : Op × Int) :
    lastAccepted (ls ++ [l]) = accept (lastAccepted ls) l := by
  simp [lastAccepted]

/-- The settings are those of the configuration accepted last. -/
def Describes (agcMode : Int) (c : WebRtcAgcConfig) (s : LegacyAgc) : Prop :=
  s.agcMode = agcMode ∧ s.initFlag = kInitCheck ∧ s.usedConfig = c ∧
    tableOf agcMode c = some s.digitalAgc.gainTable

theorem describes_of_settings {agcMode : Int} {c : WebRtcAgcConfig} {s t : LegacyAgc}
    (h : t.settings = s.settings) (hs : Describes agcMode c s) : Describes agcMode c t := by
  obtain ⟨h1, h2, h3, h4⟩ := hs
  have e1 := congrArg Settings.agcMode h
  have e2 := congrArg Settings.initFlag h
  have e3 := congrArg Settings.usedConfig h
  have e4 := congrArg Settings.gainTable h
  exact ⟨e1.trans h1, e2.trans h2, e3.trans h3, h4.trans (congrArg some e4.symm)⟩

theorem describes_init {mem s : LegacyAgc} {minLevel maxLevel agcMode fs : Int}
    (h : (init mem minLevel maxLevel agcMode fs).val = (s, 0)) :
    Describes agcMode (lastAccepted []) s := by
  obtain ⟨-, -, i, t, hi, ht, rfl⟩ := init_ok h
  subst hi
  exact ⟨rfl, rfl, rfl, ht⟩

theorem describes_step {agcMode : Int} {ls : List (Op × Int)} {l : Op × Int} {s t : LegacyAgc}
    (hs : Describes agcMode (lastAccepted ls) s) (h : Step s l t) :
    Describes agcMode (lastAccepted (ls ++ [l])) t := by
  rw [lastAccepted_append]
  obtain ⟨op, ret⟩ := l
  cases op with
  | setConfig c =>
    have hst : setConfig s c = (t, ret) := Option.some.inj h
    rcases setConfig_cases hs.2.1 c with ⟨hr, hset⟩ | ⟨tab, htab, hr⟩
    · rw [hst] at hr hset
      rw [accept, if_neg (by dsimp only at hr; omega)]
      exact describes_of_settings hset hs
    · rw [hst] at hr
      obtain ⟨rfl, rfl⟩ := Prod.mk.inj hr
      exact ⟨hs.1, hs.2.1, rfl, hs.1 ▸ htab⟩
  | addMic x => exact describes_of_settings (settings_step h (by simp)) hs
  | virtualMic x lv => exact describes_of_settings (settings_step h (by simp)) hs
  | addFarend x => exact describes_of_settings (settings_step h (by simp)) hs
  | process x out lv echo => exact describes_of_settings (settings_step h (by simp)) hs

/-- After every history of calls, failed ones included, the gain table is the
one of the configuration that is reported, and that is the one accepted last. -/
theorem describes_run {mem s t : LegacyAgc} {minLevel maxLevel agcMode fs : Int}
    {ls : List (Op × Int)} (hinit : (init mem minLevel maxLevel agcMode fs).val = (s, 0))
    (hrun : Run Step s ls t) : Describes agcMode (lastAccepted ls) t :=
  hrun.history (I := fun ls t => Describes agcMode (lastAccepted ls) t) (describes_init hinit)
    fun _ _ _ _ hs h => describes_step hs h

/-- The reported configuration describes the table in effect, and two histories
of instances of one mode that end with the same accepted configuration end
with the same table. -/
theorem table_of_config {mem s t : LegacyAgc} {minLevel maxLevel agcMode fs : Int}
    {ls : List (Op × Int)} (hinit : (init mem minLevel maxLevel agcMode fs).val = (s, 0))
    (hrun : Run Step s ls t) :
    (∃ c, getConfig t = some c ∧ tableOf agcMode c = some t.digitalAgc.gainTable) ∧
    ∀ {mem' s' t' : LegacyAgc} {minLevel' maxLevel' fs' : Int} {ls' : List (Op × Int)},
      (init mem' minLevel' maxLevel' agcMode fs').val = (s', 0) → Run Step s' ls' t' →
      lastAccepted ls' = lastAccepted ls → t'.digitalAgc.gainTable = t.digitalAgc.gainTable := by
  obtain ⟨-, hflag, hused, htab⟩ := describes_run hinit hrun
  refine ⟨⟨lastAccepted ls, ?_, htab⟩, ?_⟩
  · rw [getConfig, if_neg (not_not.mpr hflag), hused]
  · intro mem' s' t' minLevel' maxLevel' fs' ls' hinit' hrun' hla
    obtain ⟨-, -, -, htab'⟩ := describes_run hinit' hrun'
    rw [hla, htab] at htab'
    exact (Option.some.inj htab').symm

/-- An instance whose second configuration is rejected keeps the table of the
first. -/
theorem table_of_config_rejected :
    (init (create .cleared) 0 255 3 8000).val = (LegacyAgc.fresh 3, 0) ∧
    (setConfig (LegacyAgc.fresh 3) ⟨32, 20, 0⟩).2 = -1 ∧
    (LegacyAgc.fresh 3).digitalAgc.gainTable =
      (setConfig (LegacyAgc.fresh 3) ⟨32, 20, 0⟩).1.digitalAgc.gainTable :=
  ⟨rfl, rfl, (@table_of_config (create .cleared) _ _ 0 255 3 8000
    [(.setConfig ⟨32, 20, 0⟩, -1)] rfl (.one rfl)).2 rfl .nil rfl⟩

end Config
end AgcSpec
