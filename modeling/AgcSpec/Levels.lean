/-
# The range of the volume

The analog stage rewrites the volume `micVol` in about ten places, some of
which leave it outside its limits for a while, and lowers the maximum
`maxLevel` in the same loop. What holds from call to call is `LevelInv`: the
levels are in order and the volume between the minimum and the maximum. Inside
a call the volume can be a little below the minimum, or, after it was raised,
anywhere above the maximum; but a raise clears both timers, so that no other
block of the call moves the levels again (`BlockInv`). The last step of the
call puts the volume back (`volume_range`).
-/
import AgcSpec.Config

namespace AgcSpec
namespace Levels

open FixedPoint Runs

/-! ### The invariant -/

/-- The levels of an instance are in order; the volume itself aside. -/
structure Ordered (s : LegacyAgc) : Prop where
  scale : s.scale = 0
  min_nonneg : 0 ≤ s.minLevel
  min_lt : s.minLevel < s.maxAnalog
  max_le : s.maxAnalog ≤ 65535
  minOutput : s.minLevel ≤ s.minOutput ∧ s.minOutput ≤ s.maxAnalog
  maxLevel : s.maxAnalog ≤ s.maxLevel ∧ s.maxLevel ≤ s.maxInit
  maxInit : s.maxInit ≤ 81918
  zeroCtrlMax : -3 ≤ s.zeroCtrlMax ∧ s.zeroCtrlMax ≤ s.maxInit
  changes : 340 ≤ s.msecSpeechOuterChange ∧ 340 ≤ s.msecSpeechInnerChange
  timers : InI16 s.msTooHigh ∧ InI16 s.msTooLow

/-- The invariant of an instance between calls. -/
structure LevelInv (s : LegacyAgc) : Prop extends Ordered s where
  micVol : s.minLevel ≤ s.micVol ∧ s.micVol ≤ s.maxLevel
  virtual : s.agcMode = kAgcModeAdaptiveDigital → s.minLevel = 0 ∧ s.maxAnalog = 255

/-! ### Taking in the level -/

theorem tenPercentLevel_eq {s : LegacyAgc} (h : Ordered s) :
    tenPercentLevel s = pure (s.minLevel + (s.maxLevel - s.minLevel) * 51 / 2 ^ 9) := by
  obtain ⟨-, h0, h1, -, -, ⟨h2, h3⟩, h4, -, -, -⟩ := h
  rw [tenPercentLevel, ck32_eq ⟨by omega, by omega⟩, pure_bind,
    ck32_eq ⟨by omega, by omega⟩, pure_bind, ck32_eq ⟨by omega, by omega⟩]

theorem tenPercentLevel_range {s : LegacyAgc} (h : Ordered s) :
    s.minLevel ≤ (tenPercentLevel s).val ∧ (tenPercentLevel s).val ≤ s.maxLevel := by
  rw [tenPercentLevel_eq h, Chk.val_pure]
  have h1 := h.min_lt
  have h2 := h.maxLevel.1
  omega

/-- A level that can stand for the volume. -/
def InLevels (s : LegacyAgc) (lvl : Int) : Prop := s.minLevel ≤ lvl ∧ lvl ≤ s.maxLevel

theorem firstLevel_spec {s : LegacyAgc} (h : LevelInv s) {lvl : Int} (hl : InLevels s lvl) :
    LevelInv (firstLevel s lvl).val.1 ∧ InLevels (firstLevel s lvl).val.1
      (firstLevel s lvl).val.2 := by
  have hten := tenPercentLevel_range h.toOrdered
  rw [firstLevel]
  split
  · rw [Chk.val_bind, Chk.val_pure]
    have hnew : InLevels s (if lvl < (tenPercentLevel s).val ∧ s.agcMode = kAgcModeAdaptiveAnalog
        then (tenPercentLevel s).val else lvl) := by
      split
      · exact hten
      · exact hl
    exact ⟨{ h with micVol := hnew }, hnew⟩
  · exact ⟨h, hl⟩

theorem digitalLevel_spec {s : LegacyAgc} (h : LevelInv s) {lvl : Int} (hl : InLevels s lvl) :
    InLevels s (digitalLevel s lvl) := by
  rw [digitalLevel]
  split
  · exact h.micVol
  · exact hl

theorem raiseLowLevel_spec {s : LegacyAgc} (h : LevelInv s) {lvl : Int} (hl : InLevels s lvl) :
    LevelInv (raiseLowLevel s lvl).val.1 ∧
      InLevels (raiseLowLevel s lvl).val.1 (raiseLowLevel s lvl).val.2 := by
  have hten := tenPercentLevel_range h.toOrdered
  rw [raiseLowLevel]
  split
  · exact ⟨{ h with micVol := hten }, hten⟩
  · exact ⟨h, hl⟩

theorem matchLevel_spec {s : LegacyAgc} (h : LevelInv s) {lvl : Int} (hl : InLevels s lvl)
    (inMicLevel : Int) :
    LevelInv (matchLevel s inMicLevel lvl).1 ∧
      (matchLevel s inMicLevel lvl).2 = (matchLevel s inMicLevel lvl).1.micVol := by
  rw [matchLevel]
  split
  · split
    · exact ⟨h, rfl⟩
    · exact ⟨{ h with micVol := hl }, rfl⟩
  · rename_i heq
    exact ⟨h, not_not.mp heq⟩

theorem levelIntake_spec {s : LegacyAgc} (h : LevelInv s) {lvl : Int} (hl : InLevels s lvl)
    (inMicLevel : Int) :
    LevelInv (levelIntake s inMicLevel lvl).val.1 ∧
      (levelIntake s inMicLevel lvl).val.2 = (levelIntake s inMicLevel lvl).val.1.micVol := by
  obtain ⟨h1, hl1⟩ := firstLevel_spec h hl
  obtain ⟨h2, hl2⟩ := raiseLowLevel_spec h1 (digitalLevel_spec h1 hl1)
  obtain ⟨h3, hl3⟩ := matchLevel_spec h2 hl2 inMicLevel
  simp only [levelIntake, Chk.val_bind, Chk.val_pure]
  have hmax := h3.micVol.2
  rw [← hl3] at hmax
  rw [if_neg (not_lt.mpr hmax)]
  exact ⟨{ h3 with }, hl3⟩

/-! ### Saturation and zero input -/

/-- A lowered level is below the last volume, and not far below the minimum.
Nothing is said of the factor: a wrong product is cut off by the last volume. -/
theorem loweredLevel_range (factor lvl drop minLevel lastMicVol : Int)
    (hd : 0 ≤ drop ∧ drop ≤ 2) (hm : 0 ≤ minLevel ∧ minLevel ≤ 65535)
    (hl : minLevel ≤ lastMicVol ∧ lastMicVol ≤ 81918) :
    minLevel - drop ≤ (loweredLevel factor drop minLevel lvl lastMicVol).val ∧
      (loweredLevel factor drop minLevel lvl lastMicVol).val ≤ lastMicVol - drop := by
  rw [loweredLevel, Chk.val_bind, Chk.val_bind, Chk.val_bind, Chk.val_bind, Chk.val_pure]
  obtain ⟨hp0, hp1⟩ := inU32_u32 (factor * u32 (ck32 (lvl - minLevel)).val)
  rw [← val_cku32] at hp0 hp1
  generalize (cku32 (factor * u32 (ck32 (lvl - minLevel)).val)).val = p at hp0 hp1
  rw [ck32_eq (x := p / 2 ^ 15 + minLevel) ⟨by omega, by omega⟩,
    ck32_eq (x := lastMicVol - drop) ⟨by omega, by omega⟩, Chk.val_pure, Chk.val_pure]
  split <;> omega

/-- The volume inside a call: equal to the level, and not far out of range. -/
def Loose (b : Int) (s : LegacyAgc) (lvl : Int) : Prop :=
  lvl = s.micVol ∧ b ≤ lvl ∧ lvl ≤ s.maxInit

theorem saturationStage_spec {s : LegacyAgc} (h : LevelInv s) {lvl : Int} (hl : lvl = s.micVol) :
    Ordered (saturationStage s lvl).val.1 ∧
      Loose (-2) (saturationStage s lvl).val.1 (saturationStage s lvl).val.2.1 := by
  obtain ⟨hv0, hv1⟩ := h.micVol
  obtain ⟨hm0, hm1⟩ := h.maxLevel
  have h0 := h.min_nonneg
  have h1 := h.min_lt
  have h2 := h.max_le
  have h3 := h.maxInit
  rw [saturationStage]
  dsimp only
  split
  · have hlow := loweredLevel_range 29591 lvl 2 s.minLevel s.micVol ⟨by omega, by omega⟩
      ⟨by omega, by omega⟩
      ⟨by omega, by omega⟩
    rw [saturated, Chk.val_bind, Chk.val_pure]
    refine ⟨{ h.toOrdered with
      zeroCtrlMax := ⟨by dsimp only; omega, by dsimp only; omega⟩
      changes := (by decide : 340 ≤ kMsecSpeechOuter ∧ 340 ≤ kMsecSpeechInner)
      timers := ⟨(by decide : InI16 (-100)), h.timers.2⟩ }, rfl, ?_, ?_⟩
    · dsimp only at hlow ⊢; omega
    · dsimp only at hlow ⊢; omega
  · exact ⟨{ h.toOrdered with }, hl, by rw [Chk.val_pure]; dsimp only; omega,
      by rw [Chk.val_pure]; dsimp only; omega⟩

theorem zeroLevel_range {s : LegacyAgc} (h : Ordered s) {lvl z : Int}
    (hl : -2 ≤ lvl ∧ lvl ≤ s.maxInit)
    (hz : (zeroLevel s lvl).val = some z) : -3 ≤ z ∧ z ≤ s.maxInit := by
  obtain ⟨hz0, hz1⟩ := h.zeroCtrlMax
  have h3 := h.maxInit
  rw [zeroLevel, Chk.val_bind, Chk.val_bind] at hz
  split at hz
  · rw [ck32_eq (x := 1126 * lvl) ⟨by omega, by omega⟩, pure_bind, Chk.val_pure] at hz
    cases hz
    split <;> omega
  · cases hz

theorem zeroCtrl_spec {s : LegacyAgc} (h : Ordered s) {lvl : Int} (hl : Loose (-2) s lvl) :
    Ordered (zeroCtrl s lvl).val.1 ∧ Loose (-3) (zeroCtrl s lvl).val.1
      (zeroCtrl s lvl).val.2 := by
  obtain ⟨hv, hl0, hl1⟩ := hl
  rw [zeroCtrl]
  split
  · rw [Chk.val_bind, Chk.val_pure]
    have hz := fun z => zeroLevel_range h ⟨hl0, hl1⟩ (z := z)
    rcases hzl : (zeroLevel s lvl).val with _ | z
    · exact ⟨{ h with }, hv, by dsimp only [Option.getD]; omega,
        by dsimp only [Option.getD]; omega⟩
    · exact ⟨{ h with }, rfl, (hz z hzl).1, (hz z hzl).2⟩
  · exact ⟨{ h with }, hv, by rw [Chk.val_pure]; dsimp only; omega,
      by rw [Chk.val_pure]; dsimp only; omega⟩

theorem speakerInactiveCtrl_spec {s : LegacyAgc} (h : Ordered s) {lvl b : Int}
    (hl : Loose b s lvl) :
    Ordered (speakerInactiveCtrl s) ∧ Loose b (speakerInactiveCtrl s) lvl := by
  rw [speakerInactiveCtrl]
  split
  · exact ⟨{ h with }, hl⟩
  · exact ⟨{ h with }, hl⟩

/-! ### The blocks -/

/-- The invariant after `i` blocks. Either the volume is still near its range,
or it was raised, and the timers have run for no more than these blocks. -/
structure BlockInv (lastMicVol : Int) (i : ℕ) (r : LegacyAgc × Int) :
    Prop extends Ordered r.1 where
  last : r.1.minLevel ≤ lastMicVol ∧ lastMicVol ≤ r.1.maxInit
  level : r.2 = r.1.micVol
  volume : (-3 ≤ r.2 ∧ r.2 ≤ r.1.maxInit) ∨
    (r.1.msTooHigh ≤ 2 * i ∧ r.1.msTooLow ≤ 2 * i)

/-- A timer that has run for `i` blocks at most, after one more. -/
theorem timer_le {x : Int} {i : ℕ} (hx : InI16 x) (h : x ≤ 2 * i) (hi : i ≤ 4) :
    i16 (x + 2) ≤ 2 * (i + 1 : ℕ) := by
  obtain ⟨h0, h1⟩ := hx
  rw [i16_of ⟨by omega, by omega⟩]
  omega

/-- The new maximum when the level is lowered: between the analog maximum and
the initial one. -/
theorem lowerRecording_spec {s : LegacyAgc} {lastMicVol : Int} (factor lp lvl : Int) (h : Ordered s)
    (hlast : s.minLevel ≤ lastMicVol ∧ lastMicVol ≤ s.maxInit)
    (hvol : -3 ≤ s.micVol ∧ s.micVol ≤ s.maxInit) :
    Ordered (lowerRecording factor lp s lvl lastMicVol).val.1 ∧
      Loose (-3) (lowerRecording factor lp s lvl lastMicVol).val.1
        (lowerRecording factor lp s lvl lastMicVol).val.2 := by
  have h0 := h.min_nonneg
  have h1 := h.min_lt
  have h2 := h.max_le
  have h3 := h.maxInit
  obtain ⟨hm0, hm1⟩ := h.maxLevel
  have hlow := loweredLevel_range factor lvl 1 s.minLevel lastMicVol ⟨by omega, by omega⟩
    ⟨by omega, by omega⟩
    ⟨by omega, by omega⟩
  rw [lowerRecording, ck32_eq (x := 15 * s.maxLevel) ⟨by omega, by omega⟩, pure_bind,
    ck32_eq (x := 15 * s.maxLevel + s.micVol) ⟨by omega, by omega⟩, pure_bind, Chk.val_bind,
    Chk.val_pure]
  have hm : (15 * s.maxLevel + s.micVol).tdiv 16 ≤ s.maxInit := by
    rw [tdiv_eq, if_pos (by omega)]
    omega
  refine ⟨{ h with
    maxLevel := ?_
    zeroCtrlMax := hvol
    timers := ⟨(by decide : InI16 0), h.timers.2⟩ }, rfl, ?_, ?_⟩
  · dsimp only
    split <;> omega
  · dsimp only
    omega
  · dsimp only
    omega

theorem raiseRecording_eq (kOffset kSlope : List Int) (rise : Int) (s : LegacyAgc)
    (lvl lastMicVol : Int) :
    ∃ v lp, (raiseRecording kOffset kSlope rise s lvl lastMicVol).val =
      ({ s with msTooLow := 0, Rxx160_LPw32 := lp, micVol := v }, v) :=
  ⟨_, _, rfl⟩

/-- A level above its limits: the timer runs, and at its end the level is
lowered. It does not come to that after a raise. -/
theorem tooHigh_spec (factor lp : Int) {lastMicVol change lvl : Int} {i : ℕ} {s : LegacyAgc}
    (h : BlockInv lastMicVol i (s, lvl)) (hi : i ≤ 4) (hc : 340 ≤ change) :
    BlockInv lastMicVol (i + 1)
      (if i16 (s.msTooHigh + 2) > change then
        lowerRecording factor lp
          { s with msTooHigh := i16 (s.msTooHigh + 2), msTooLow := 0, changeToSlowMode := 0 }
            lvl lastMicVol
      else pure ({ s with
        msTooHigh := i16 (s.msTooHigh + 2), msTooLow := 0, changeToSlowMode := 0 }, lvl)).val := by
  have ho : Ordered { s with
      msTooHigh := i16 (s.msTooHigh + 2), msTooLow := 0, changeToSlowMode := 0 } :=
    { h.toOrdered with timers := ⟨inI16_i16 _, (by decide : InI16 0)⟩ }
  have hlv : lvl = s.micVol := h.level
  split
  · rename_i hfire
    have hvol : -3 ≤ s.micVol ∧ s.micVol ≤ s.maxInit := by
      rcases h.volume with hv | ⟨hv, -⟩
      · rw [hlv] at hv
        exact hv
      · have := timer_le h.timers.1 hv hi
        push_cast at this
        omega
    obtain ⟨ho', hl, hl0, hl1⟩ := lowerRecording_spec factor lp lvl ho h.last hvol
    exact { ho' with last := h.last, level := hl, volume := .inl ⟨hl0, hl1⟩ }
  · refine { ho with last := h.last, level := hlv, volume := ?_ }
    rcases h.volume with hv | ⟨hv, -⟩
    · exact .inl hv
    · exact .inr ⟨timer_le h.timers.1 hv hi, (by omega : (0 : Int) ≤ 2 * (i + 1 : ℕ))⟩

/-- A level below its limits: the timer runs, and at its end the level is
raised. -/
theorem tooLow_spec {lastMicVol change rise lvl : Int} {kOffset kSlope : List Int} {i : ℕ}
    {s : LegacyAgc} (h : BlockInv lastMicVol i (s, lvl)) (hi : i ≤ 4) :
    BlockInv lastMicVol (i + 1)
      (if i16 (s.msTooLow + 2) > change then
        raiseRecording kOffset kSlope rise
          { s with msTooHigh := 0, changeToSlowMode := 0, msTooLow := i16 (s.msTooLow + 2) }
            lvl lastMicVol
      else pure ({ s with msTooHigh := 0, changeToSlowMode := 0, msTooLow := i16 (s.msTooLow + 2) },
        lvl)).val := by
  have hn : (0 : Int) ≤ 2 * (i + 1 : ℕ) := by omega
  have ho : Ordered { s with
      msTooHigh := 0, changeToSlowMode := 0, msTooLow := i16 (s.msTooLow + 2) } :=
    { h.toOrdered with timers := ⟨(by decide : InI16 0), inI16_i16 _⟩ }
  have hlv : lvl = s.micVol := h.level
  split
  · obtain ⟨v, lp, hr⟩ := raiseRecording_eq kOffset kSlope rise
      { s with msTooHigh := 0, changeToSlowMode := 0, msTooLow := i16 (s.msTooLow + 2) }
        lvl lastMicVol
    rw [hr]
    exact { ho with
      timers := ⟨(by decide : InI16 0), (by decide : InI16 0)⟩
      last := h.last, level := rfl, volume := .inr ⟨hn, hn⟩ }
  · refine { ho with last := h.last, level := hlv, volume := ?_ }
    rcases h.volume with hv | ⟨-, hv⟩
    · exact .inl hv
    · exact .inr ⟨hn, timer_le h.timers.2 hv hi⟩

theorem adaptLevel_spec {lastMicVol lvl : Int} {i : ℕ} {s : LegacyAgc}
    (h : BlockInv lastMicVol i (s, lvl))
    (hi : i ≤ 4) : BlockInv lastMicVol (i + 1) (adaptLevel s lvl lastMicVol).val := by
  rw [adaptLevel]
  split
  · -- above the secondary limit: a lowered level also ends the active speech
    have key := tooHigh_spec 31130 (i32 (s.Rxx160_LPw32 / 2 ^ 6 * 53)) h hi h.changes.1
    dsimp only
    by_cases hc : i16 (s.msTooHigh + 2) > s.msecSpeechOuterChange
    · rw [if_pos hc] at key ⊢
      exact { key with }
    · rw [if_neg hc] at key ⊢
      exact key
  split
  · exact tooHigh_spec _ _ h hi h.changes.2
  split
  · exact tooLow_spec h hi
  split
  · exact tooLow_spec h hi
  · -- inside the desired range the timers are cleared
    have hn : (0 : Int) ≤ 2 * (i + 1 : ℕ) := by omega
    have h0 : InI16 0 := by decide
    dsimp only
    split
    · exact { h.toOrdered with
        changes := (by decide : (340 : Int) ≤ 500 ∧ (340 : Int) ≤ 1000)
        timers := ⟨h0, h0⟩, last := h.last, level := rfl, volume := .inr ⟨hn, hn⟩ }
    · exact { h.toOrdered with
        timers := ⟨h0, h0⟩, last := h.last, level := rfl, volume := .inr ⟨hn, hn⟩ }

theorem trackSpeech_spec {lastMicVol lvl : Int} {i : ℕ} {s : LegacyAgc}
    (h : BlockInv lastMicVol i (s, lvl)) : BlockInv lastMicVol i (trackSpeech s, lvl) := by
  obtain ⟨_, _, _, hw⟩ := trackSpeech_writes s
  rw [hw]
  exact { h with }

theorem analogBlock_spec {lastMicVol : Int} {i : ℕ} {r : LegacyAgc × Int}
    (h : BlockInv lastMicVol i r) (hi : i ≤ 4) (vadLogRatio e : Int) :
    BlockInv lastMicVol (i + 1) (analogBlock vadLogRatio lastMicVol r e).val := by
  have hp : BlockInv lastMicVol i (pushEnergy r.1 e, r.2) := { h with }
  rw [analogBlock]
  split
  · exact adaptLevel_spec (trackSpeech_spec hp) hi
  · refine { hp with volume := ?_ }
    rcases hp.volume with hv | ⟨h1, h2⟩
    · exact .inl hv
    · exact .inr ⟨by push_cast; exact h1.trans (by omega),
        by push_cast; exact h2.trans (by omega)⟩

theorem analogBlocks_spec {lastMicVol : Int} (vadLogRatio : Int) :
    ∀ (es : List Int) {i : ℕ} {r : LegacyAgc × Int}, BlockInv lastMicVol i r →
    i + es.length ≤ 5 →
    BlockInv lastMicVol (i + es.length) (analogBlocks vadLogRatio lastMicVol r es).val
  | [], _, _, h, _ => h
  | e :: es, i, r, h, hi => by
    rw [List.length_cons] at hi ⊢
    have hb := analogBlock_spec h (by omega) vadLogRatio e
    have := analogBlocks_spec vadLogRatio es hb (by omega)
    rw [show i + (es.length + 1) = i + 1 + es.length by omega]
    exact this

/-! ### The call -/

/-- The stages before the blocks. `lastMicVol` is the volume taken in. -/
theorem analogStart_spec {s : LegacyAgc} (h : LevelInv s) {lvl : Int} (hl : InLevels s lvl)
    (inMicLevel : Int) :
    BlockInv (analogStart s inMicLevel lvl).val.2.2.1 0
      ((analogStart s inMicLevel lvl).val.1, (analogStart s inMicLevel lvl).val.2.1) := by
  obtain ⟨h1, hl1⟩ := levelIntake_spec h hl inMicLevel
  obtain ⟨h2, hl2⟩ := saturationStage_spec h1 hl1
  obtain ⟨h3, hl3⟩ := zeroCtrl_spec h2 hl2
  obtain ⟨h4, hl4, hl5, hl6⟩ := speakerInactiveCtrl_spec h3 hl3
  simp only [analogStart, Chk.val_bind, Chk.val_pure]
  set r := (levelIntake s inMicLevel lvl).val
  set sat := (saturationStage r.1 r.2).val
  set z := (zeroCtrl sat.1 sat.2.1).val
  have hu : unlevelled (speakerInactiveCtrl z.1) = unlevelled r.1 := by
    rw [unlevelled_speakerInactiveCtrl, unlevelled_zeroCtrl, unlevelled_saturationStage]
  have hmin := eq_of_unlevelled LegacyAgc.minLevel (fun _ => rfl) hu
  have hmax := eq_of_unlevelled LegacyAgc.maxInit (fun _ => rfl) hu
  refine { h4 with last := ?_, level := hl4, volume := .inl ⟨hl5, hl6⟩ }
  have hv := h1.micVol
  have hm := h1.maxLevel
  dsimp only
  omega

theorem guardAndClamp_spec {s : LegacyAgc} (h : Ordered s) (echo lastMicVol : Int) :
    Ordered (guardAndClamp s echo lastMicVol) ∧
      (guardAndClamp s echo lastMicVol).minOutput ≤ (guardAndClamp s echo lastMicVol).micVol ∧
      (guardAndClamp s echo lastMicVol).micVol ≤ (guardAndClamp s echo lastMicVol).maxLevel := by
  have h1 := h.minOutput.2
  have h2 := h.maxLevel.1
  refine ⟨{ h with }, ?_⟩
  simp only [guardAndClamp]
  generalize (if guardActive s echo then if s.micVol > lastMicVol then lastMicVol else s.micVol
    else s.micVol) = v
  constructor
  · split
    · omega
    · split <;> omega
  · split
    · omega
    · split <;> omega

/-- A successful call ends with the volume in its limits, and puts out the
volume, cut off at the analog maximum. -/
theorem processAnalog_spec {s : LegacyAgc} (h : LevelInv s) {inMicLevel vadLogRatio echo : Int}
    {a : AnalogResult} (ha : (processAnalog s inMicLevel vadLogRatio echo).val = some a) :
    LevelInv a.agc ∧ a.agc.minOutput ≤ a.agc.micVol ∧
      a.outMicLevel = min a.agc.micVol a.agc.maxAnalog := by
  have hu := untouched_processAnalog ha
  have hmode := eq_of_untouched LegacyAgc.agcMode (fun _ => rfl) hu
  have hmin := eq_of_untouched LegacyAgc.minLevel (fun _ => rfl) hu
  have hmax := eq_of_untouched LegacyAgc.maxAnalog (fun _ => rfl) hu
  obtain ⟨lvl, r, b, -, ⟨h1, h2⟩, rfl, rfl, hagc, hout⟩ := processAnalog_cases ha
  have hst := analogStart_spec h ⟨h1, h2.trans h.maxLevel.1⟩ inMicLevel
  have hb := analogBlocks_spec vadLogRatio
    ((analogStart s inMicLevel lvl).val.1.Rxx16w32_array0.take 5) hst
    (by rw [List.length_take]; omega)
  obtain ⟨ho, hv0, hv1⟩ :=
    guardAndClamp_spec hb.toOrdered echo (analogStart s inMicLevel lvl).val.2.2.1
  rw [← hagc] at ho hv0 hv1
  refine ⟨{ ho with
    micVol := ⟨ho.minOutput.1.trans hv0, hv1⟩
    virtual := fun hm => ?_ }, hv0, ?_⟩
  · rw [hmin, hmax]
    exact h.virtual (hmode.symm.trans hm)
  · rw [hout, ho.scale, Int.toNat_zero, pow_zero, Int.ediv_one]
    split <;> omega

/-! ### Runs -/

/-- The calls of an instance: the virtual microphone is for the adaptive
digital mode only. -/
def VStep (agcMode : Int) (s : LegacyAgc) (l : Op × Int) (t : LegacyAgc) : Prop :=
  Step s l t ∧ ∀ x m, l.1 = .virtualMic x m → agcMode = kAgcModeAdaptiveDigital

/-- The levels `WebRtcAgc_Init` sets: a quarter of the range above the maximum
is for the digital gain. -/
theorem initLevels_eq (s : LegacyAgc) {lo hi : Int} (h0 : 0 ≤ lo) (h1 : lo ≤ hi)
    (h2 : hi < 2 ^ 26) :
    initLevels s lo hi = pure { s with
      minLevel := lo
      maxAnalog := hi
      maxLevel := hi + (hi - lo) / 4
      maxInit := hi + (hi - lo) / 4
      zeroCtrlMax := hi
      lastInMicLevel := 0
      micVol := if s.agcMode = kAgcModeAdaptiveDigital then 127 else hi
      micRef := if s.agcMode = kAgcModeAdaptiveDigital then 127 else hi
      micGainIdx := 127
      minOutput := lo + (hi + (hi - lo) / 4 - lo) * 10 / 2 ^ 8 } := by
  have hq : (hi - lo).tdiv 4 = (hi - lo) / 4 := Int.tdiv_eq_ediv_of_nonneg (by omega)
  rw [initLevels, ck32_eq ⟨by omega, by omega⟩, pure_bind, hq, ck32_eq ⟨by omega, by omega⟩,
    pure_bind, ck32_eq ⟨by omega, by omega⟩, pure_bind, ck32_eq ⟨by omega, by omega⟩,
    pure_bind, ck32_eq ⟨by omega, by omega⟩, pure_bind]

theorem levels_range (agcMode : Int) {minLevel maxLevel : Int} (h0 : 0 ≤ minLevel)
    (h1 : minLevel < maxLevel) (h2 : maxLevel ≤ 65535) :
    0 ≤ lowestLevel agcMode minLevel ∧
      lowestLevel agcMode minLevel < highestLevel agcMode maxLevel ∧
        highestLevel agcMode maxLevel ≤ 65535 ∧ (agcMode = kAgcModeAdaptiveDigital →
        lowestLevel agcMode minLevel = 0 ∧ highestLevel agcMode maxLevel = 255) := by
  rw [lowestLevel, highestLevel]
  split
  · exact ⟨by decide, by decide, by decide, fun _ => ⟨rfl, rfl⟩⟩
  · rename_i hm
    exact ⟨h0, h1, h2, fun h => absurd h hm⟩

theorem levelInv_init {mem s : LegacyAgc} {minLevel maxLevel agcMode fs : Int}
    (hl : 0 ≤ lowestLevel agcMode minLevel ∧
      lowestLevel agcMode minLevel < highestLevel agcMode maxLevel ∧
        highestLevel agcMode maxLevel ≤ 65535 ∧
          (agcMode = kAgcModeAdaptiveDigital →
            lowestLevel agcMode minLevel = 0 ∧ highestLevel agcMode maxLevel = 255))
    (h : (init mem minLevel maxLevel agcMode fs).val = (s, 0)) :
    LevelInv s ∧ s.agcMode = agcMode := by
  obtain ⟨-, -, i, t, hi, -, rfl⟩ := Config.init_ok h
  obtain ⟨hl0, hl1, hl2, hlv⟩ := hl
  generalize lowestLevel agcMode minLevel = lo at *
  generalize highestLevel agcMode maxLevel = hi' at *
  rw [initInstance, initLevels_eq _ hl0 hl1.le (by omega), pure_bind, Chk.val_pure] at hi
  subst hi
  have h0' : InI16 0 := by decide
  refine ⟨⟨⟨rfl, hl0, hl1, hl2, ?_, ?_, ?_, ?_, ?_, h0', h0'⟩, ?_, hlv⟩, rfl⟩
  · show lo ≤ lo + (hi' + (hi' - lo) / 4 - lo) * 10 / 2 ^ 8 ∧
      lo + (hi' + (hi' - lo) / 4 - lo) * 10 / 2 ^ 8 ≤ hi'
    omega
  · show hi' ≤ hi' + (hi' - lo) / 4 ∧ hi' + (hi' - lo) / 4 ≤ hi' + (hi' - lo) / 4
    omega
  · show hi' + (hi' - lo) / 4 ≤ 81918
    omega
  · show -3 ≤ hi' ∧ hi' ≤ hi' + (hi' - lo) / 4
    omega
  · exact (by decide : 340 ≤ kMsecSpeechOuter ∧ 340 ≤ kMsecSpeechInner)
  · show lo ≤ (if agcMode = kAgcModeAdaptiveDigital then 127 else hi') ∧
      (if agcMode = kAgcModeAdaptiveDigital then 127 else hi') ≤ hi' + (hi' - lo) / 4
    split
    · rename_i hm
      obtain ⟨hv0, hv1⟩ := hlv hm
      omega
    · omega

theorem levelInv_addMic {s : LegacyAgc} (h : LevelInv s) (in_mic : List (List Int)) :
    LevelInv (addMic s in_mic).val.agc := by
  rcases addMic_cases s in_mic with hr | ⟨idx, bands, -, -, hr⟩
  · rw [hr]
    exact h
  · rw [hr]
    exact { h with }

theorem levelInv_virtualState {s : LegacyAgc} (h : LevelInv s)
    (hm : s.agcMode = kAgcModeAdaptiveDigital) (in_near : List (List Int)) (micLevelIn : Int) :
    LevelInv (virtualState s in_near micLevelIn) := by
  obtain ⟨hv0, hv1⟩ := h.virtual hm
  have hml := h.maxLevel.1
  rw [virtualState, virtualEntry, virtualStart]
  dsimp only
  split
  · exact { h with micVol := ⟨by dsimp only; omega, by dsimp only; omega⟩ }
  · exact { h with }

theorem levelInv_setConfig {s : LegacyAgc} (h : LevelInv s) (c : WebRtcAgcConfig) :
    LevelInv (setConfig s c).1 :=
  of_setConfig (fun _ => ⟨fun h => { h with }, fun h => { h with }⟩) h c

theorem levelInv_addFarend {s : LegacyAgc} (h : LevelInv s) (in_far : List Int) :
    LevelInv (addFarend s in_far).1 := by
  rw [addFarend]
  split
  · exact h
  · exact { h with }

theorem levelInv_process {s : LegacyAgc} (h : LevelInv s) {in_near out : List (List Int)}
    {inMicLevel echo : Int}
    {r : ProcessResult} (hr : (process s in_near out inMicLevel echo).val = some r) :
    LevelInv r.agc := by
  rcases process_cases hr
    with ⟨-, rfl⟩ | ⟨-, d, o, -, ⟨-, -, rfl⟩ | ⟨a, -, ha, rfl⟩ | ⟨-, rfl⟩⟩
  · exact h
  · exact { h with }
  · have hd : LevelInv { s with digitalAgc := d } := { h with }
    exact { (processAnalog_spec hd ha).1 with }
  · exact { h with }

theorem levelInv_step {agcMode : Int} {s t : LegacyAgc} {l : Op × Int}
    (h : LevelInv s ∧ s.agcMode = agcMode)
    (hs : VStep agcMode s l t) : LevelInv t ∧ t.agcMode = agcMode := by
  obtain ⟨hs, hv⟩ := hs
  obtain ⟨hi, hm⟩ := h
  have hmode : t.agcMode = agcMode := (congrArg Ranges.agcMode (ranges_step hs)).trans hm
  refine ⟨?_, hmode⟩
  obtain ⟨op, ret⟩ := l
  cases hs.outcome with
  | setConfig c => exact levelInv_setConfig hi c
  | addMic x => exact levelInv_addMic hi x
  | virtualMic x m => exact levelInv_addMic (levelInv_virtualState hi (hm.trans (hv x m rfl)) x m) _
  | addFarend x => exact levelInv_addFarend hi x
  | process hr => exact levelInv_process hi hr

/-- In every mode, for every range and after every run of calls the levels are
in order, and after a successful call of the analog stage the volume and the
level it puts out are in their ranges. -/
theorem volume_range {mem s t : LegacyAgc} {minLevel maxLevel agcMode fs : Int}
    {ls : List (Op × Int)} (h0 : 0 ≤ minLevel) (h1 : minLevel < maxLevel)
    (h2 : maxLevel ≤ 65535) (hinit : (init mem minLevel maxLevel agcMode fs).val = (s, 0))
    (hrun : Run (VStep agcMode) s ls t) :
    (t.minLevel ≤ t.minOutput ∧ t.minOutput ≤ t.maxAnalog ∧ t.maxAnalog ≤ t.maxLevel ∧
      t.maxLevel ≤ t.maxInit ∧ t.micVol ≤ t.maxLevel) ∧
    ∀ (d : DigitalAgc) (inMicLevel vadLogRatio echo : Int) (a : AnalogResult),
      (processAnalog { t with digitalAgc := d } inMicLevel vadLogRatio echo).val = some a →
      (a.agc.minOutput ≤ a.agc.micVol ∧ a.agc.micVol ≤ a.agc.maxLevel) ∧
        a.agc.minLevel ≤ a.outMicLevel ∧ a.outMicLevel ≤ a.agc.maxAnalog := by
  obtain ⟨h, -⟩ := hrun.invariant (I := fun t => LevelInv t ∧ t.agcMode = agcMode)
    (levelInv_init (levels_range agcMode h0 h1 h2) hinit) fun _ _ _ => levelInv_step
  refine ⟨⟨h.minOutput.1, h.minOutput.2, h.maxLevel.1, h.maxLevel.2, h.micVol.2⟩, ?_⟩
  intro d inMicLevel vadLogRatio echo a ha
  obtain ⟨hi, hv, hout⟩ := processAnalog_spec (s := { t with digitalAgc := d }) { h with } ha
  have hmo := hi.minOutput
  refine ⟨⟨hv, hi.micVol.2⟩, ?_, ?_⟩ <;> omega

theorem exists_loudVRun : ∃ t, Run (VStep 1) (LegacyAgc.fresh 1) (loudCalls.map (·, 0)) t := by
  obtain ⟨t, hrun⟩ := exists_loudRun
  refine ⟨t, hrun.mono fun _ l hl _ hs => ⟨hs, fun x m hv => ?_⟩⟩
  simp only [loudCalls, List.map_cons, List.map_nil, List.mem_cons, List.not_mem_nil, or_false]
    at hl
  rcases hl with rfl | rfl | rfl | rfl <;> cases hv

/-- After two loud frames in the adaptive analog mode. -/
theorem volume_range_loud :
    (init (create .cleared) 0 255 1 8000).val = (LegacyAgc.fresh 1, 0) ∧
    ∃ t, Run (VStep 1) (LegacyAgc.fresh 1) (loudCalls.map (·, 0)) t ∧
      t.micVol ≤ t.maxLevel ∧
        ∀ (d : DigitalAgc) (inMicLevel vadLogRatio echo : Int) (a : AnalogResult),
          (processAnalog { t with digitalAgc := d } inMicLevel vadLogRatio echo).val = some a →
        a.agc.minLevel ≤ a.outMicLevel ∧ a.outMicLevel ≤ a.agc.maxAnalog := by
  obtain ⟨t, hrun⟩ := exists_loudVRun
  obtain ⟨hlevels, hout⟩ := @volume_range (create .cleared) _ t 0 255 1 8000 _
    (by decide) (by decide) (by decide) rfl hrun
  exact ⟨rfl, t, hrun, hlevels.2.2.2.2, fun d l r e a ha => (hout d l r e a ha).2⟩

end Levels
end AgcSpec
