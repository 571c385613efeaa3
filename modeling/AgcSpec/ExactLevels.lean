/-
# Exact arithmetic on levels

The flag of `Chk` says that no computation on levels wrapped. `WebRtcAgc_Init`
accepts levels up to `2^26`, and already the first call of the analog stage
wraps for the widest of these ranges (`first_call_wraps`). For a range of 42
to 104857 levels nothing wraps in any run (`levels_exact`): the distance of a
level to the minimum then fits every product, and the lowest output level
`minOutput` is two levels above the minimum, so that no branch of a call takes
the level below the minimum before another one multiplies its distance.

What one stage leaves for the next is said with the result itself: a stage is
`pure` of a result that has the invariant (`Taken`, `Near`, `Held`), which
gives the flag and the value at once.
-/
import AgcSpec.Guard

namespace AgcSpec
namespace ExactLevels

open FixedPoint Runs Levels

/-! ### The range -/

/-- The levels of an instance fit the computations; the volume itself aside. -/
structure Fits (s : LegacyAgc) : Prop where
  scale : s.scale = 0
  min_nonneg : 0 ≤ s.minLevel
  span : 42 ≤ s.maxAnalog - s.minLevel ∧ s.maxAnalog - s.minLevel ≤ 104857
  sum : s.minLevel + s.maxAnalog ≤ 3814360
  maxInit : s.maxInit = s.maxAnalog + (s.maxAnalog - s.minLevel) / 4
  minOutput : s.minOutput = s.minLevel + (s.maxInit - s.minLevel) * 10 / 2 ^ 8
  maxLevel : s.maxAnalog ≤ s.maxLevel ∧ s.maxLevel ≤ s.maxInit
  zeroCtrlMax : s.minLevel ≤ s.zeroCtrlMax ∧ s.zeroCtrlMax ≤ s.maxInit
  changes : 340 ≤ s.msecSpeechOuterChange ∧ 340 ≤ s.msecSpeechInnerChange
  timers : InI16 s.msTooHigh ∧ InI16 s.msTooLow

theorem Fits.bounds {s : LegacyAgc} (h : Fits s) :
    s.minLevel ≤ 1907159 ∧ s.maxInit - s.minLevel ≤ 131071 ∧
      s.minLevel + 2 ≤ s.minOutput ∧
      s.minOutput ≤ s.minLevel + (s.maxLevel - s.minLevel) * 51 / 2 ^ 9 := by
  obtain ⟨-, h0, ⟨h1, h2⟩, h3, h4, h5, ⟨h6, -⟩, -, -, -⟩ := h
  omega

/-- The volume between calls and on the way in: between the levels, and not
below the lowest output if `p` holds. -/
structure Taken (p : Prop) (s : LegacyAgc) : Prop extends Fits s where
  micVol : InLevels s s.micVol
  floor : p → s.minOutput ≤ s.micVol

/-! ### Taking in the level -/

theorem tenPercentLevel_exact {s : LegacyAgc} (h : Fits s) :
    ∃ v, tenPercentLevel s = pure v ∧ s.minOutput ≤ v ∧ v ≤ s.maxLevel := by
  obtain ⟨hb0, hb1, hb2, hb3⟩ := h.bounds
  obtain ⟨hm0, hm1⟩ := h.maxLevel
  have h0 := h.min_nonneg
  have h1 := h.span.1
  refine ⟨s.minLevel + (s.maxLevel - s.minLevel) * 51 / 2 ^ 9, ?_, hb3, by omega⟩
  rw [tenPercentLevel, ck32_eq ⟨by omega, by omega⟩, pure_bind,
    ck32_eq ⟨by omega, by omega⟩, pure_bind, ck32_eq ⟨by omega, by omega⟩]

theorem firstLevel_exact {s : LegacyAgc} (h : Taken (s.firstCall ≠ 0) s) {lvl : Int}
    (hl : InLevels s lvl) :
    ∃ r, firstLevel s lvl = pure r ∧ Taken (s.firstCall ≠ 0) r.1 ∧ InLevels r.1 r.2 := by
  by_cases hf : s.firstCall = 0
  · obtain ⟨v, hv, hv0, hv1⟩ := tenPercentLevel_exact h.toFits
    have hmin := h.bounds.2.2.1
    rw [firstLevel, if_pos hf, hv, pure_bind]
    have hnew : InLevels s (if lvl < v ∧ s.agcMode = kAgcModeAdaptiveAnalog then v else lvl) := by
      split
      · exact ⟨by omega, hv1⟩
      · exact hl
    exact ⟨_, rfl, { h.toFits with micVol := hnew, floor := fun hp => absurd hf hp }, hnew⟩
  · rw [firstLevel, if_neg hf]
    exact ⟨_, rfl, h, hl⟩

theorem digitalLevel_exact {p : Prop} {s : LegacyAgc} (h : Taken p s) {lvl : Int}
    (hl : InLevels s lvl) : InLevels s (digitalLevel s lvl) := by
  rw [digitalLevel]
  split
  · exact h.micVol
  · exact hl

/-- A level that differs from the volume is not below the lowest output then. -/
theorem raiseLowLevel_exact {p : Prop} {s : LegacyAgc} (h : Taken p s) {lvl : Int}
    (hl : InLevels s lvl) :
    ∃ r, raiseLowLevel s lvl = pure r ∧ Taken p r.1 ∧ InLevels r.1 r.2 ∧
      (r.2 ≠ r.1.micVol → r.1.minOutput ≤ r.2) := by
  by_cases hc : lvl ≠ s.micVol ∧ lvl < s.minOutput
  · obtain ⟨v, hv, hv0, hv1⟩ := tenPercentLevel_exact h.toFits
    have hmin := h.bounds.2.2.1
    have hnew : InLevels s v := ⟨by omega, hv1⟩
    rw [raiseLowLevel, if_pos hc, hv, pure_bind]
    exact ⟨_, rfl, { h with micVol := hnew, floor := fun _ => hv0 }, hnew, fun _ => hv0⟩
  · rw [raiseLowLevel, if_neg hc]
    exact ⟨_, rfl, h, hl, fun hne => by dsimp only at hne ⊢; omega⟩

theorem matchLevel_exact {p : Prop} {s : LegacyAgc} (h : Taken p s) {lvl : Int}
    (hl : InLevels s lvl) (hlow : lvl ≠ s.micVol → s.minOutput ≤ lvl) (inMicLevel : Int) :
    Taken p (matchLevel s inMicLevel lvl).1 ∧
      (matchLevel s inMicLevel lvl).2 = (matchLevel s inMicLevel lvl).1.micVol := by
  rw [matchLevel]
  split
  · rename_i hne
    split
    · exact ⟨h, rfl⟩
    · exact ⟨{ h with micVol := hl, floor := fun _ => hlow hne }, rfl⟩
  · rename_i heq
    exact ⟨h, not_not.mp heq⟩

theorem levelIntake_exact {s : LegacyAgc} (h : Taken (s.firstCall ≠ 0) s) {lvl : Int}
    (hl : InLevels s lvl) (inMicLevel : Int) :
    ∃ r, levelIntake s inMicLevel lvl = pure r ∧ Taken (s.firstCall ≠ 0) r.1 ∧
      r.2 = r.1.micVol := by
  obtain ⟨r1, e1, h1, hl1⟩ := firstLevel_exact h hl
  obtain ⟨r2, e2, h2, hl2, hlow⟩ := raiseLowLevel_exact h1 (digitalLevel_exact h1 hl1)
  obtain ⟨h3, hl3⟩ := matchLevel_exact h2 hl2 hlow inMicLevel
  have hmax := h3.micVol.2
  rw [← hl3] at hmax
  rw [levelIntake, e1, pure_bind, e2, pure_bind]
  dsimp only
  rw [if_neg (not_lt.mpr hmax)]
  exact ⟨_, rfl, { h3 with }, hl3⟩

/-! ### Saturation and zero input -/

/-- A lowered level, exactly: its distance to the minimum fits the product. -/
theorem loweredLevel_exact (factor drop minLevel lvl lastMicVol : Int)
    (hf : 0 ≤ factor ∧ factor ≤ 32767) (hd : 0 ≤ drop ∧ drop ≤ 2)
    (hm : 0 ≤ minLevel ∧ minLevel ≤ 1907159)
    (hl : minLevel ≤ lvl ∧ lvl - minLevel ≤ 131071)
    (hlast : minLevel ≤ lastMicVol ∧ lastMicVol - minLevel ≤ 131071) :
    ∃ v, loweredLevel factor drop minLevel lvl lastMicVol = pure v ∧ minLevel - drop ≤ v ∧
      v ≤ lastMicVol - drop ∧
      (minLevel + drop ≤ lastMicVol → minLevel ≤ v) := by
  obtain ⟨hl0, hl1⟩ := hl
  have hp0 : 0 ≤ factor * (lvl - minLevel) := mul_nonneg hf.1 (by omega)
  have hp1 : factor * (lvl - minLevel) ≤ 32767 * 131071 :=
    mul_le_mul hf.2 hl1 (by omega) (by omega)
  rw [loweredLevel, ck32_eq ⟨by omega, by omega⟩, pure_bind, u32_of ⟨by omega, by omega⟩,
    cku32_eq ⟨hp0, by omega⟩, pure_bind, ck32_eq ⟨by omega, by omega⟩, pure_bind,
    ck32_eq ⟨by omega, by omega⟩, pure_bind]
  refine ⟨_, rfl, ?_⟩
  split <;> omega

/-- The level between the saturation and the zero control. It can be below the
minimum in the first call only, and the timers have not run then. -/
structure Near (lastMicVol : Int) (s : LegacyAgc) (lvl : Int) : Prop extends Fits s where
  level : lvl = s.micVol
  near : s.minLevel - 2 ≤ lvl ∧ lvl ≤ s.maxInit
  last : lastMicVol ≤ s.maxInit
  room : (s.minLevel ≤ lvl ∧ s.minLevel + 2 ≤ lastMicVol) ∨
    (s.msTooHigh ≤ 0 ∧ s.msTooLow ≤ 0)

theorem saturationStage_exact {p : Prop} {s : LegacyAgc} (h : Taken p s)
    (hnew : ¬ p → s.msTooHigh ≤ 0 ∧ s.msTooLow ≤ 0) :
    ∃ r, saturationStage s s.micVol = pure r ∧ Near s.micVol r.1 r.2.1 := by
  obtain ⟨hb0, hb1, hb2, -⟩ := h.bounds
  obtain ⟨hv0, hv1⟩ := h.micVol
  have h0 := h.min_nonneg
  have hmax := h.maxLevel.2
  -- a volume that is not new is at least the lowest output
  have hroom : s.minLevel + 2 ≤ s.micVol ∨ (s.msTooHigh ≤ 0 ∧ s.msTooLow ≤ 0) := by
    by_cases hp : p
    · exact .inl (hb2.trans (h.floor hp))
    · exact .inr (hnew hp)
  rw [saturationStage]
  dsimp only
  split
  · obtain ⟨v, hv, hlo, hhi, hmin⟩ := loweredLevel_exact 29591 2 s.minLevel s.micVol s.micVol
      ⟨by decide, by decide⟩ ⟨by decide, by decide⟩ ⟨h0, hb0⟩ ⟨hv0, by omega⟩
        ⟨hv0, by omega⟩
    rw [saturated, hv, pure_bind]
    refine ⟨_, rfl, { h.toFits with
      zeroCtrlMax := ⟨hv0, hv1.trans hmax⟩
      changes := (by decide : 340 ≤ kMsecSpeechOuter ∧ 340 ≤ kMsecSpeechInner)
      timers := ⟨(by decide : InI16 (-100)), h.timers.2⟩
      level := rfl
      near := ⟨hlo, (by omega : v ≤ s.maxInit)⟩
      last := hv1.trans hmax
      room := ?_ }⟩
    rcases hroom with hr | ⟨-, ht⟩
    · exact .inl ⟨hmin hr, hr⟩
    · exact .inr ⟨(by decide : (-100 : Int) ≤ 0), ht⟩
  · refine ⟨_, rfl, { h.toFits with
      level := rfl
      near := ⟨(by omega : s.minLevel - 2 ≤ s.micVol), hv1.trans hmax⟩
      last := hv1.trans hmax
      room := ?_ }⟩
    rcases hroom with hr | ht
    · exact .inl ⟨hv0, hr⟩
    · exact .inr ht

/-- The level during the blocks, of which `i` are done: either there is room
for a change, or the timers have run for these blocks only, and no change
comes. -/
structure Held (lastMicVol : Int) (i : ℕ) (r : LegacyAgc × Int) : Prop extends Fits r.1 where
  level : r.2 = r.1.micVol
  room : (r.1.minLevel ≤ r.2 ∧ r.2 ≤ r.1.maxInit ∧ r.1.minLevel + 2 ≤ lastMicVol ∧
    lastMicVol ≤ r.1.maxInit) ∨ (r.1.msTooHigh ≤ 2 * i ∧ r.1.msTooLow ≤ 2 * i)

theorem zeroLevel_exact {lastMicVol : Int} {s : LegacyAgc} {lvl : Int} (h : Near lastMicVol s lvl) :
    ∃ z, zeroLevel s lvl = pure z ∧ ∀ v, z = some v →
      v ≤ s.maxInit ∧ (s.minLevel ≤ lvl → s.minLevel ≤ v) := by
  obtain ⟨hz0, hz1⟩ := h.zeroCtrlMax
  obtain ⟨hn0, hn1⟩ := h.near
  have h0 := h.min_nonneg
  have h1 := h.sum
  have h2 := h.span.1
  have hhalf : (s.maxAnalog + s.minLevel + 1).tdiv 2 = (s.maxAnalog + s.minLevel + 1) / 2 :=
    Int.tdiv_eq_ediv_of_nonneg (by omega)
  rw [zeroLevel, ck32_eq ⟨by omega, by omega⟩, pure_bind, ck32_eq ⟨by omega, by omega⟩,
    pure_bind, hhalf]
  split
  · rename_i hlow
    rw [ck32_eq ⟨by omega, by omega⟩, pure_bind]
    refine ⟨_, rfl, fun v hv => ?_⟩
    cases hv
    split <;> omega
  · exact ⟨_, rfl, fun v hv => by cases hv⟩

theorem zeroCtrl_exact {lastMicVol : Int} {s : LegacyAgc} {lvl : Int} (h : Near lastMicVol s lvl) :
    ∃ r, zeroCtrl s lvl = pure r ∧ Held lastMicVol 0 r := by
  have hroom : (s.minLevel ≤ lvl ∧ lvl ≤ s.maxInit ∧ s.minLevel + 2 ≤ lastMicVol ∧
    lastMicVol ≤ s.maxInit) ∨
      (s.msTooHigh ≤ 2 * (0 : ℕ) ∧ s.msTooLow ≤ 2 * (0 : ℕ)) := by
    rcases h.room with ⟨h1, h2⟩ | ht
    · exact .inl ⟨h1, h.near.2, h2, h.last⟩
    · exact .inr ht
  rw [zeroCtrl]
  split
  · obtain ⟨z, hz, hrange⟩ := zeroLevel_exact h
    rw [hz, pure_bind]
    refine ⟨_, rfl, ?_⟩
    rcases z with _ | v
    · exact { h.toFits with level := h.level, room := hroom }
    · obtain ⟨hv1, hv0⟩ := hrange v rfl
      refine { h.toFits with level := rfl, room := ?_ }
      rcases hroom with ⟨h1, -, h2, h3⟩ | ht
      · exact .inl ⟨hv0 h1, hv1, h2, h3⟩
      · exact .inr ht
  · exact ⟨_, rfl, { h.toFits with level := h.level, room := hroom }⟩

theorem speakerInactiveCtrl_exact {lastMicVol : Int} {s : LegacyAgc} {lvl : Int}
    (h : Held lastMicVol 0 (s, lvl)) : Held lastMicVol 0 (speakerInactiveCtrl s, lvl) := by
  rw [speakerInactiveCtrl]
  split
  · exact { h with }
  · exact { h with }

/-! ### The blocks -/

theorem lowerRecording_exact {s : LegacyAgc} {lastMicVol lvl : Int} (factor lp : Int)
    (hf : 0 ≤ factor ∧ factor ≤ 32767) (h : Fits s) (hlv : lvl = s.micVol)
    (hl : s.minLevel ≤ lvl ∧ lvl ≤ s.maxInit)
    (hlast : s.minLevel + 2 ≤ lastMicVol ∧ lastMicVol ≤ s.maxInit) :
    ∃ r, lowerRecording factor lp s lvl lastMicVol = pure r ∧ Fits r.1 ∧ r.2 = r.1.micVol ∧
      r.1.msTooHigh = 0 ∧ r.1.msTooLow = s.msTooLow := by
  obtain ⟨hb0, hb1, -, -⟩ := h.bounds
  obtain ⟨hm0, hm1⟩ := h.maxLevel
  have h0 := h.min_nonneg
  have h1 := h.span.1
  obtain ⟨v, hv, -, -, -⟩ := loweredLevel_exact factor 1 s.minLevel lvl lastMicVol hf
    ⟨by decide, by decide⟩ ⟨h0, hb0⟩
    ⟨hl.1, by omega⟩ ⟨by omega, by omega⟩
  rw [lowerRecording, ck32_eq ⟨by omega, by omega⟩, pure_bind, ck32_eq ⟨by omega, by omega⟩,
    pure_bind, hv, pure_bind]
  have hm : (15 * s.maxLevel + s.micVol).tdiv 16 ≤ s.maxInit := by
    rw [Int.tdiv_eq_ediv_of_nonneg (by omega)]
    omega
  refine ⟨_, rfl, { h with
    maxLevel := ?_
    zeroCtrlMax := hlv ▸ hl
    timers := ⟨(by decide : InI16 0), h.timers.2⟩ }, rfl, rfl, rfl⟩
  dsimp only
  split <;> omega

/-- The two pairs of tables of an increase: for a volume in Q14 the weight is
positive and fits 16 bits. -/
theorem weight_range {kOffset kSlope : List Int} (ht : (kOffset, kSlope) = (kOffset1, kSlope1) ∨
    (kOffset, kSlope) = (kOffset2, kSlope2)) {v : Int} (hv : 0 ≤ v ∧ v ≤ 16384) :
    InI16 (kSlope.getD (expCurve v) 0 * v / 2 ^ 13) ∧
      0 ≤ kOffset.getD (expCurve v) 0 - kSlope.getD (expCurve v) 0 * v / 2 ^ 13 ∧
      kOffset.getD (expCurve v) 0 - kSlope.getD (expCurve v) 0 * v / 2 ^ 13 ≤ 32767 := by
  obtain ⟨hv0, hv1⟩ := hv
  unfold InI16 expCurve
  rcases ht with ht | ht
  · obtain ⟨rfl, rfl⟩ := Prod.mk.inj ht
    split_ifs <;> simp only [kOffset1, kSlope1, List.getD_cons_zero, List.getD_cons_succ] <;> omega
  · obtain ⟨rfl, rfl⟩ := Prod.mk.inj ht
    split_ifs <;> simp only [kOffset2, kSlope2, List.getD_cons_zero, List.getD_cons_succ] <;> omega

theorem raiseWeight_exact {kOffset kSlope : List Int}
    (ht : (kOffset, kSlope) = (kOffset1, kSlope1) ∨ (kOffset, kSlope) = (kOffset2, kSlope2))
    {s : LegacyAgc} (h : Fits s) {lvl : Int} (hl : s.minLevel ≤ lvl ∧ lvl ≤ s.maxInit) :
    ∃ w, raiseWeight kOffset kSlope s lvl = pure w ∧ 0 ≤ w ∧ w ≤ 32767 := by
  obtain ⟨hb0, hb1, -, -⟩ := h.bounds
  have h0 := h.min_nonneg
  have h1 := h.span.1
  have h2 := h.maxLevel
  -- the volume relative to the initial range is at most one, in Q14
  have hv : 0 ≤ ((lvl - s.minLevel) * 2 ^ 14).tdiv (s.maxInit - s.minLevel) ∧
      ((lvl - s.minLevel) * 2 ^ 14).tdiv (s.maxInit - s.minLevel) ≤ 16384 := by
    rw [Int.tdiv_eq_ediv_of_nonneg (by omega)]
    exact ⟨Int.ediv_nonneg (by omega) (by omega), Int.ediv_le_of_le_mul (by omega) (by omega)⟩
  obtain ⟨hs, hw0, hw1⟩ := weight_range ht hv
  rw [raiseWeight, ck32_eq ⟨by omega, by omega⟩, pure_bind, ck32_eq ⟨by omega, by omega⟩,
    pure_bind, if_pos (by omega), ck32_eq ⟨by omega, by omega⟩, pure_bind,
    ck16_eq ⟨by omega, by omega⟩, pure_bind]
  dsimp only
  rw [ck16_eq hs, pure_bind, ck16_eq ⟨by omega, by omega⟩]
  exact ⟨_, rfl, hw0, hw1⟩

theorem raiseRecording_exact {kOffset kSlope : List Int}
    (ht : (kOffset, kSlope) = (kOffset1, kSlope1) ∨ (kOffset, kSlope) = (kOffset2, kSlope2))
    {rise : Int} (hrise : 0 ≤ rise ∧ rise ≤ 2) {s : LegacyAgc} (h : Fits s)
    {lvl lastMicVol : Int} (hl : s.minLevel ≤ lvl ∧ lvl ≤ s.maxInit)
    (hlast : s.minLevel + 2 ≤ lastMicVol ∧ lastMicVol ≤ s.maxInit) :
    ∃ v lp, raiseRecording kOffset kSlope rise s lvl lastMicVol =
      pure ({ s with msTooLow := 0, Rxx160_LPw32 := lp, micVol := v }, v) := by
  obtain ⟨hb0, hb1, -, -⟩ := h.bounds
  have h0 := h.min_nonneg
  obtain ⟨w, hw, hw0, hw1⟩ := raiseWeight_exact ht h hl
  have hp0 : 0 ≤ w * (lvl - s.minLevel) := mul_nonneg hw0 (by omega)
  have hp1 : w * (lvl - s.minLevel) ≤ 32767 * 131071 :=
    mul_le_mul hw1 (by omega) (by omega) (by omega)
  rw [raiseRecording, hw, pure_bind, ck32_eq ⟨by omega, by omega⟩, pure_bind,
    u32_of ⟨hw0, by omega⟩, u32_of ⟨by omega, by omega⟩, cku32_eq ⟨hp0, by omega⟩,
    pure_bind, ck32_eq ⟨by omega, by omega⟩, pure_bind, ck32_eq ⟨by omega, by omega⟩,
    pure_bind]
  exact ⟨_, _, rfl⟩

/-- A timer that has run for these blocks only is not at its end, so there is
room for the change. -/
theorem Held.fires {lastMicVol change timer : Int} {i : ℕ} {r : LegacyAgc × Int}
    (h : Held lastMicVol i r) (hi : i ≤ 4) (hc : 340 ≤ change)
    (ht : timer = r.1.msTooHigh ∨ timer = r.1.msTooLow) (hfire : i16 (timer + 2) > change) :
    (r.1.minLevel ≤ r.2 ∧ r.2 ≤ r.1.maxInit) ∧ r.1.minLevel + 2 ≤ lastMicVol ∧
      lastMicVol ≤ r.1.maxInit := by
  rcases h.room with ⟨h1, h2, h3, h4⟩ | ⟨h1, h2⟩
  · exact ⟨⟨h1, h2⟩, h3, h4⟩
  · have htimer : InI16 timer ∧ timer ≤ 2 * i := by
      rcases ht with rfl | rfl
      · exact ⟨h.timers.1, h1⟩
      · exact ⟨h.timers.2, h2⟩
    have := timer_le htimer.1 htimer.2 hi
    push_cast at this
    omega

theorem tooHigh_exact (factor lp : Int) (hf : 0 ≤ factor ∧ factor ≤ 32767)
    {lastMicVol change lvl : Int} {i : ℕ} {s : LegacyAgc} (h : Held lastMicVol i (s, lvl))
    (hi : i ≤ 4) (hc : 340 ≤ change) :
    ∃ r, (if i16 (s.msTooHigh + 2) > change then
        lowerRecording factor lp
          { s with msTooHigh := i16 (s.msTooHigh + 2), msTooLow := 0, changeToSlowMode := 0 }
            lvl lastMicVol
      else pure ({ s with
        msTooHigh := i16 (s.msTooHigh + 2), msTooLow := 0, changeToSlowMode := 0 }, lvl)) =
          pure r ∧
      Held lastMicVol (i + 1) r := by
  have hn : (0 : Int) ≤ 2 * (i + 1 : ℕ) := by omega
  have ho : Fits { s with
      msTooHigh := i16 (s.msTooHigh + 2), msTooLow := 0, changeToSlowMode := 0 } :=
    { h.toFits with timers := ⟨inI16_i16 _, (by decide : InI16 0)⟩ }
  split
  · rename_i hfire
    obtain ⟨hl, hlast⟩ := h.fires hi hc (.inl rfl) hfire
    obtain ⟨r, hr, hfit, hlv, ht1, ht2⟩ := lowerRecording_exact factor lp hf ho h.level hl hlast
    exact ⟨r, hr, { hfit with
      level := hlv, room := .inr ⟨ht1.trans_le hn, ht2.trans_le hn⟩ }⟩
  · refine ⟨_, rfl, { ho with level := h.level, room := ?_ }⟩
    rcases h.room with hr | ⟨ht, -⟩
    · exact .inl hr
    · exact .inr ⟨timer_le h.timers.1 ht hi, hn⟩

theorem tooLow_exact {kOffset kSlope : List Int} (ht : (kOffset, kSlope) = (kOffset1, kSlope1) ∨
    (kOffset, kSlope) = (kOffset2, kSlope2)) {rise : Int} (hrise : 0 ≤ rise ∧ rise ≤ 2)
      {lastMicVol change lvl : Int}
    {i : ℕ} {s : LegacyAgc} (h : Held lastMicVol i (s, lvl)) (hi : i ≤ 4)
    (hc : 340 ≤ change) :
    ∃ r, (if i16 (s.msTooLow + 2) > change then
        raiseRecording kOffset kSlope rise
          { s with msTooHigh := 0, changeToSlowMode := 0, msTooLow := i16 (s.msTooLow + 2) }
            lvl lastMicVol
      else pure ({ s with msTooHigh := 0, changeToSlowMode := 0, msTooLow := i16 (s.msTooLow + 2) },
        lvl)) = pure r ∧
      Held lastMicVol (i + 1) r := by
  have hn : (0 : Int) ≤ 2 * (i + 1 : ℕ) := by omega
  have ho : Fits { s with
      msTooHigh := 0, changeToSlowMode := 0, msTooLow := i16 (s.msTooLow + 2) } :=
    { h.toFits with timers := ⟨(by decide : InI16 0), inI16_i16 _⟩ }
  split
  · rename_i hfire
    obtain ⟨hl, hlast⟩ := h.fires hi hc (.inr rfl) hfire
    obtain ⟨v, lp, hr⟩ := raiseRecording_exact ht hrise ho hl hlast
    exact ⟨_, hr, { ho with
      timers := ⟨(by decide : InI16 0), (by decide : InI16 0)⟩
      level := rfl, room := .inr ⟨hn, hn⟩ }⟩
  · refine ⟨_, rfl, { ho with level := h.level, room := ?_ }⟩
    rcases h.room with hr | ⟨-, ht⟩
    · exact .inl hr
    · exact .inr ⟨hn, timer_le h.timers.2 ht hi⟩

theorem adaptLevel_exact {lastMicVol lvl : Int} {i : ℕ} {s : LegacyAgc}
    (h : Held lastMicVol i (s, lvl)) (hi : i ≤ 4) :
    ∃ r, adaptLevel s lvl lastMicVol = pure r ∧ Held lastMicVol (i + 1) r := by
  rw [adaptLevel]
  split
  · -- above the secondary limit: a lowered level also ends the active speech
    obtain ⟨r, hr, hh⟩ := tooHigh_exact 31130 (i32 (s.Rxx160_LPw32 / 2 ^ 6 * 53))
      ⟨by decide, by decide⟩ h hi h.changes.1
    dsimp only
    by_cases hc : i16 (s.msTooHigh + 2) > s.msecSpeechOuterChange
    · rw [if_pos hc] at hr ⊢
      rw [hr, pure_bind]
      exact ⟨_, rfl, { hh with }⟩
    · rw [if_neg hc] at hr ⊢
      exact ⟨r, hr, hh⟩
  split
  · exact tooHigh_exact _ _ ⟨by decide, by decide⟩ h hi h.changes.2
  split
  · exact tooLow_exact (.inl rfl) ⟨by decide, by decide⟩ h hi h.changes.1
  split
  · exact tooLow_exact (.inr rfl) ⟨by decide, by decide⟩ h hi h.changes.2
  · -- inside the desired range the timers are cleared
    have hn : (0 : Int) ≤ 2 * (i + 1 : ℕ) := by omega
    have h0 : InI16 0 := by decide
    dsimp only
    split
    · exact ⟨_, rfl, { h.toFits with
        changes := (by decide : (340 : Int) ≤ 500 ∧ (340 : Int) ≤ 1000)
        timers := ⟨h0, h0⟩, level := rfl, room := .inr ⟨hn, hn⟩ }⟩
    · exact ⟨_, rfl, { h.toFits with
        timers := ⟨h0, h0⟩, level := rfl, room := .inr ⟨hn, hn⟩ }⟩

theorem trackSpeech_exact {lastMicVol lvl : Int} {i : ℕ} {s : LegacyAgc}
    (h : Held lastMicVol i (s, lvl)) : Held lastMicVol i (trackSpeech s, lvl) := by
  obtain ⟨_, _, _, hw⟩ := trackSpeech_writes s
  rw [hw]
  exact { h with }

theorem analogBlock_exact {lastMicVol : Int} {i : ℕ} {r : LegacyAgc × Int}
    (h : Held lastMicVol i r) (hi : i ≤ 4) (vadLogRatio e : Int) :
    ∃ r', analogBlock vadLogRatio lastMicVol r e = pure r' ∧ Held lastMicVol (i + 1) r' := by
  have hp : Held lastMicVol i (pushEnergy r.1 e, r.2) := { h with }
  rw [analogBlock]
  split
  · exact adaptLevel_exact (trackSpeech_exact hp) hi
  · refine ⟨_, rfl, { hp with room := ?_ }⟩
    rcases hp.room with hr | ⟨h1, h2⟩
    · exact .inl hr
    · exact .inr ⟨by push_cast; exact h1.trans (by omega),
        by push_cast; exact h2.trans (by omega)⟩

theorem analogBlocks_exact {lastMicVol : Int} (vadLogRatio : Int) :
    ∀ (es : List Int) {i : ℕ} {r : LegacyAgc × Int}, Held lastMicVol i r →
    i + es.length ≤ 5 →
    ∃ r', analogBlocks vadLogRatio lastMicVol r es = pure r' ∧ Fits r'.1
  | [], _, r, h, _ => ⟨r, rfl, h.toFits⟩
  | e :: es, i, r, h, hi => by
    rw [List.length_cons] at hi
    obtain ⟨r', hr, hh⟩ := analogBlock_exact h (by omega) vadLogRatio e
    rw [analogBlocks, hr, pure_bind]
    exact analogBlocks_exact vadLogRatio es hh (by omega)

/-! ### The call -/

/-- The invariant of an instance between calls. Before the first call of the
analog stage the timers have not run. -/
structure Inv (s : LegacyAgc) : Prop extends Taken (s.firstCall ≠ 0) s where
  unheard : s.firstCall = 0 → s.msTooHigh ≤ 0 ∧ s.msTooLow ≤ 0
  index : 0 ≤ s.gainTableIdx ∧ s.gainTableIdx ≤ 31
  virtual : s.agcMode = kAgcModeAdaptiveDigital → s.minLevel = 0 ∧ s.maxAnalog = 255

theorem analogStart_exact {s : LegacyAgc} (h : Inv s) {lvl : Int} (hl : InLevels s lvl)
    (inMicLevel : Int) :
    ∃ r, analogStart s inMicLevel lvl = pure r ∧ Held r.2.2.1 0 (r.1, r.2.1) := by
  obtain ⟨r, hr, h1, hlv⟩ := levelIntake_exact h.toTaken hl inMicLevel
  have hnew : ¬ s.firstCall ≠ 0 → r.1.msTooHigh ≤ 0 ∧ r.1.msTooLow ≤ 0 := by
    intro hf
    obtain ⟨f, v, m, -, hw⟩ := levelIntake_writes s inMicLevel lvl
    rw [hr, Chk.val_pure] at hw
    rw [hw]
    exact h.unheard (not_not.mp hf)
  obtain ⟨sat, hsat, h2⟩ := saturationStage_exact h1 hnew
  obtain ⟨z, hz, h3⟩ := zeroCtrl_exact h2
  rw [analogStart, hr, pure_bind, hlv, hsat, pure_bind, hz, pure_bind]
  exact ⟨_, rfl, speakerInactiveCtrl_exact h3⟩

theorem guardAndClamp_exact {s : LegacyAgc} (h : Fits s) (echo lastMicVol : Int) :
    Taken True (guardAndClamp s echo lastMicVol) := by
  obtain ⟨-, -, hb2, hb3⟩ := h.bounds
  obtain ⟨hm0, hm1⟩ := h.maxLevel
  have h1 := h.span.1
  have hrange : s.minOutput ≤ (guardAndClamp s echo lastMicVol).micVol ∧
      (guardAndClamp s echo lastMicVol).micVol ≤ s.maxLevel := by
    simp only [guardAndClamp]
    split <;> split <;> omega
  exact { h with
    micVol := ⟨(show s.minLevel ≤ _ by omega), hrange.2⟩
    floor := fun _ => hrange.1 }

theorem analogCall_exact {s : LegacyAgc} (h : Inv s) {lvl : Int} (hl : InLevels s lvl)
    (inMicLevel vadLogRatio echo : Int) :
    ∃ a, analogCall s inMicLevel lvl vadLogRatio echo = pure a ∧ Taken True a.agc := by
  obtain ⟨r, hr, h1⟩ := analogStart_exact h hl inMicLevel
  obtain ⟨b, hb, h2⟩ := analogBlocks_exact vadLogRatio (r.1.Rxx16w32_array0.take 5) h1
    (by rw [List.length_take]; omega)
  rw [analogCall, hr, pure_bind, hb, pure_bind]
  exact ⟨_, rfl, guardAndClamp_exact h2 _ _⟩

/-- `WebRtcAgc_ProcessAnalog`, for every level of 32 bits. -/
theorem processAnalog_exact {s : LegacyAgc} (h : Inv s) {inMicLevel : Int} (hm : InI32 inMicLevel)
    (vadLogRatio echo : Int) : (processAnalog s inMicLevel vadLogRatio echo).ok = true := by
  rw [processAnalog, h.scale, Int.toNat_zero, pow_zero, mul_one, ck32_eq hm, pure_bind]
  split
  · rfl
  split
  · rfl
  · rename_i hmax hmin
    have hl : InLevels s inMicLevel := ⟨not_lt.mp hmin, (not_lt.mp hmax).trans h.maxLevel.1⟩
    obtain ⟨a, ha, -⟩ := analogCall_exact h hl inMicLevel vadLogRatio echo
    rw [ha]
    rfl

theorem inv_processAnalog {s : LegacyAgc} (h : Inv s) {inMicLevel vadLogRatio echo : Int}
    {a : AnalogResult}
    (ha : (processAnalog s inMicLevel vadLogRatio echo).val = some a) : Inv a.agc := by
  have hu := untouched_processAnalog ha
  have hmode := eq_of_untouched LegacyAgc.agcMode (fun _ => rfl) hu
  have hmin := eq_of_untouched LegacyAgc.minLevel (fun _ => rfl) hu
  have hmax := eq_of_untouched LegacyAgc.maxAnalog (fun _ => rfl) hu
  have hidx := eq_of_untouched LegacyAgc.gainTableIdx (fun _ => rfl) hu
  have hfirst := (Guard.marks_processAnalog ha).2
  obtain ⟨⟨h1, h2⟩, hval⟩ := processAnalog_eq_some.mp ha
  obtain ⟨a', ha', htaken⟩ :=
    analogCall_exact h ⟨h1, h2.trans h.maxLevel.1⟩ inMicLevel vadLogRatio echo
  obtain rfl : a = a' := by rw [hval, ha', Chk.val_pure]
  exact { htaken with
    floor := fun _ => htaken.floor trivial
    unheard := fun h0 => absurd h0 hfirst
    index := hidx ▸ h.index
    virtual := fun hm => by rw [hmin, hmax]; exact h.virtual (hmode.symm.trans hm) }

/-! ### `WebRtcAgc_AddMic` -/

/-- The gain is found, and the index stays in the table. -/
theorem micGain_exact {s : LegacyAgc} (h : Inv s) (in_mic : List (List Int)) :
    ∃ g, micGain s in_mic = pure (some g) ∧ 0 ≤ g.1 ∧ g.1 ≤ 31 := by
  rw [micGain]
  split
  · rename_i hv
    have h1 := h.maxLevel.2
    have h2 := h.maxInit
    have h3 := h.span
    obtain ⟨q, hq, hq0, hq1⟩ := targetGainIdx_eq hv h.micVol.2 (by omega)
    obtain ⟨hi0, hi1⟩ := h.index
    have hlen : GAIN_TBL_LEN = 32 := rfl
    have hstep : 0 ≤ stepGainIdx s.gainTableIdx q ∧ stepGainIdx s.gainTableIdx q ≤ 31 := by
      rw [stepGainIdx]
      split_ifs <;> omega
    rw [if_neg (not_not.mpr (lt_of_lt_of_le hv h.micVol.2)), hq, pure_bind, if_neg (by omega)]
    dsimp only
    rw [ckGet_eq ⟨hstep.1, by rw [show kGainTableAnalog.length = 32 from rfl]; omega⟩,
      pure_bind]
    exact ⟨_, rfl, hstep⟩
  · exact ⟨_, rfl, (by decide : (0 : Int) ≤ 0 ∧ (0 : Int) ≤ 31)⟩

theorem addMic_exact {s : LegacyAgc} (h : Inv s) (in_mic : List (List Int)) :
    (addMic s in_mic).ok = true ∧ Inv (addMic s in_mic).val.agc := by
  rw [addMic]
  split
  · exact ⟨rfl, h⟩
  · obtain ⟨g, hg, hidx⟩ := micGain_exact h in_mic
    rw [hg, pure_bind]
    exact ⟨rfl, { h with index := hidx }⟩

/-- The virtual microphone starts from its mid-point or from the volume. -/
theorem inv_virtualState {s : LegacyAgc} (h : Inv s) (hm : s.agcMode = kAgcModeAdaptiveDigital)
    (in_near : List (List Int)) (micLevelIn : Int) : Inv (virtualState s in_near micLevelIn) := by
  obtain ⟨hv0, hv1⟩ := h.virtual hm
  have h1 := h.maxLevel.1
  have h2 := h.maxInit
  have h3 := h.minOutput
  rw [virtualState, virtualEntry, virtualStart]
  dsimp only
  split
  · exact { h with
      micVol := ⟨(by omega : s.minLevel ≤ 127), (by omega : 127 ≤ s.maxLevel)⟩
      floor := fun _ => (by omega : s.minOutput ≤ 127) }
  · exact { h with }

/-! ### Runs -/

theorem inv_setConfig {s : LegacyAgc} (h : Inv s) (c : WebRtcAgcConfig) : Inv (setConfig s c).1 :=
  of_setConfig (fun _ => ⟨fun h => { h with }, fun h => { h with }⟩) h c

theorem inv_process {s : LegacyAgc} (h : Inv s) {in_near out : List (List Int)}
    {inMicLevel echo : Int}
    {r : ProcessResult} (hr : (process s in_near out inMicLevel echo).val = some r) :
    Inv r.agc := by
  rcases process_cases hr
    with ⟨-, rfl⟩ | ⟨-, d, o, -, ⟨-, -, rfl⟩ | ⟨a, -, ha, rfl⟩ | ⟨-, rfl⟩⟩
  · exact h
  · exact { h with }
  · have hd : Inv { s with digitalAgc := d } := { h with }
    exact { inv_processAnalog hd ha with }
  · exact { h with }

theorem inv_step {agcMode : Int} {s t : LegacyAgc} {l : Op × Int}
    (h : Inv s ∧ s.agcMode = agcMode)
    (hs : VStep agcMode s l t) : Inv t ∧ t.agcMode = agcMode := by
  obtain ⟨hs, hv⟩ := hs
  obtain ⟨hi, hm⟩ := h
  refine ⟨?_, (congrArg Ranges.agcMode (ranges_step hs)).trans hm⟩
  obtain ⟨op, ret⟩ := l
  cases hs.outcome with
  | setConfig c => exact inv_setConfig hi c
  | addMic x => exact (addMic_exact hi x).2
  | virtualMic x m => exact (addMic_exact (inv_virtualState hi (hm.trans (hv x m rfl)) x m) _).2
  | addFarend x =>
    rw [addFarend]
    split
    · exact hi
    · exact { hi with }
  | process hr => exact inv_process hi hr

/-- In the fixed digital mode the analog stage never runs, and the volume stays
where `WebRtcAgc_Init` puts it. -/
def Fixed (s : LegacyAgc) : Prop := s.agcMode = kAgcModeFixedDigital ∧ s.micVol ≤ s.maxAnalog

theorem fixed_step {s t : LegacyAgc} {l : Op × Int} (h : Fixed s)
    (hs : VStep kAgcModeFixedDigital s l t) : Fixed t := by
  obtain ⟨hs, hv⟩ := hs
  obtain ⟨op, ret⟩ := l
  cases hs.outcome with
  | setConfig c => exact of_setConfig (P := Fixed) (fun _ => Iff.rfl) h c
  | addMic x =>
    rcases addMic_cases s x with hr | ⟨idx, bands, -, -, hr⟩
    · rw [hr]
      exact h
    · rw [hr]
      exact h
  | virtualMic x m => exact absurd (hv x m rfl) (by decide)
  | addFarend x =>
    rw [addFarend]
    split <;> exact h
  | process hr =>
    rcases process_cases hr
      with ⟨-, rfl⟩ | ⟨-, d, o, -, ⟨-, -, rfl⟩ | ⟨a, hruns, -, rfl⟩ | ⟨-, rfl⟩⟩
    · exact h
    · exact h
    · exact absurd (h.1 ▸ hruns.1) (by decide)
    · exact h

/-- `WebRtcAgc_Init` is exact for every range that it accepts. -/
theorem init_exact (mem : LegacyAgc) {minLevel maxLevel : Int} (agcMode fs : Int)
    (h0 : 0 ≤ minLevel) (h1 : minLevel < maxLevel) (h2 : maxLevel < 2 ^ 26) :
    (init mem minLevel maxLevel agcMode fs).ok = true := by
  have hl : 0 ≤ lowestLevel agcMode minLevel ∧
    lowestLevel agcMode minLevel ≤ highestLevel agcMode maxLevel ∧
      highestLevel agcMode maxLevel < 2 ^ 26 := by
    rw [lowestLevel, highestLevel]
    split <;> omega
  rw [init]
  split
  · rfl
  · rw [initInstance, initLevels_eq _ hl.1 hl.2.1 hl.2.2]
    rfl

/-- The range of an analog mode in which nothing wraps. -/
def RangeOk (minLevel maxLevel : Int) : Prop :=
  42 ≤ maxLevel - minLevel ∧ maxLevel - minLevel ≤ 104857 ∧ minLevel + maxLevel ≤ 3814360

instance (minLevel maxLevel : Int) : Decidable (RangeOk minLevel maxLevel) :=
  inferInstanceAs (Decidable (_ ∧ _))

theorem inv_init {mem s : LegacyAgc} {minLevel maxLevel agcMode fs : Int}
    (h0 : 0 ≤ lowestLevel agcMode minLevel)
    (hr : RangeOk (lowestLevel agcMode minLevel) (highestLevel agcMode maxLevel))
    (hv : agcMode = kAgcModeAdaptiveDigital → lowestLevel agcMode minLevel = 0 ∧
      highestLevel agcMode maxLevel = 255)
    (h : (init mem minLevel maxLevel agcMode fs).val = (s, 0)) : Inv s ∧ s.agcMode = agcMode := by
  obtain ⟨-, -, i, t, hi, -, rfl⟩ := Config.init_ok h
  obtain ⟨hr0, hr1, hr2⟩ := hr
  generalize lowestLevel agcMode minLevel = lo at *
  generalize highestLevel agcMode maxLevel = hi' at *
  rw [initInstance, initLevels_eq _ h0 (by omega) (by omega), pure_bind, Chk.val_pure] at hi
  subst hi
  have ht : InI16 0 := by decide
  have hvol : lo ≤ (if agcMode = kAgcModeAdaptiveDigital then 127 else hi') ∧
      (if agcMode = kAgcModeAdaptiveDigital then 127 else hi') ≤ hi' + (hi' - lo) / 4 := by
    split
    · rename_i hm
      obtain ⟨hv0, hv1⟩ := hv hm
      omega
    · omega
  refine ⟨⟨⟨⟨rfl, h0, ⟨hr0, hr1⟩, hr2, rfl, rfl, ?_, ?_, ?_, ht, ht⟩, hvol, ?_⟩, ?_,
    ?_, hv⟩, rfl⟩
  · show hi' ≤ hi' + (hi' - lo) / 4 ∧ hi' + (hi' - lo) / 4 ≤ hi' + (hi' - lo) / 4
    omega
  · show lo ≤ hi' ∧ hi' ≤ hi' + (hi' - lo) / 4
    omega
  · exact (by decide : 340 ≤ kMsecSpeechOuter ∧ 340 ≤ kMsecSpeechInner)
  · exact fun hf => absurd rfl hf
  · exact fun _ => (by decide : (0 : Int) ≤ 0 ∧ (0 : Int) ≤ 0)
  · exact (by decide : (0 : Int) ≤ 0 ∧ (0 : Int) ≤ 31)

/-- No computation on levels wraps in a call on the instance: in
`WebRtcAgc_AddMic`, called alone or by the virtual microphone of the adaptive
digital mode, and in `WebRtcAgc_ProcessAnalog` for every level of 32 bits and
whatever the digital stage leaves. -/
structure Exact (agcMode : Int) (t : LegacyAgc) : Prop where
  addMic : ∀ in_mic, (addMic t in_mic).ok = true
  virtualMic : agcMode = kAgcModeAdaptiveDigital → ∀ in_near micLevelIn,
    (AgcSpec.addMic (virtualState t in_near micLevelIn) (virtualBands t in_near micLevelIn)).ok =
      true
  processAnalog : analogStageRuns t → ∀ (d : DigitalAgc) (inMicLevel vadLogRatio echo : Int),
    InI32 inMicLevel → (processAnalog { t with digitalAgc := d } inMicLevel vadLogRatio echo).ok =
      true

theorem Inv.exact {agcMode : Int} {t : LegacyAgc} (h : Inv t) (hm : t.agcMode = agcMode) :
    Exact agcMode t where
  addMic x := (addMic_exact h x).1
  virtualMic hv x l := (addMic_exact (inv_virtualState h (hm.trans hv) x l) _).1
  processAnalog _ d _ vadLogRatio echo hl :=
    processAnalog_exact (s := { t with digitalAgc := d }) { h with } hl vadLogRatio echo

theorem Fixed.exact {t : LegacyAgc} (h : Fixed t) : Exact kAgcModeFixedDigital t where
  addMic x := by
    rw [AgcSpec.addMic, micGain, if_neg (not_lt.mpr h.2)]
    split <;> rfl
  virtualMic hv := absurd hv (by decide)
  processAnalog hruns := absurd (h.1 ▸ hruns.1) (by decide)

/-- In a range that fits, and in the digital modes in every range, no
computation on levels wraps in `WebRtcAgc_Init` or in any call of any run. -/
theorem levels_exact {mem s t : LegacyAgc} {minLevel maxLevel agcMode fs : Int}
    {ls : List (Op × Int)} (h0 : 0 ≤ minLevel) (h1 : minLevel < maxLevel)
    (h2 : maxLevel < 2 ^ 26) (hinit : (init mem minLevel maxLevel agcMode fs).val = (s, 0))
    (hr : agcMode = kAgcModeAdaptiveDigital ∨ agcMode = kAgcModeFixedDigital ∨
      RangeOk minLevel maxLevel)
    (hrun : Run (VStep agcMode) s ls t) :
    (init mem minLevel maxLevel agcMode fs).ok = true ∧ Exact agcMode t := by
  refine ⟨init_exact mem agcMode fs h0 h1 h2, ?_⟩
  by_cases hfix : agcMode = kAgcModeFixedDigital
  · subst hfix
    have hstart : Fixed s := by
      obtain ⟨-, -, i, t, hi, -, rfl⟩ := Config.init_ok hinit
      rw [initInstance, initLevels_eq _ (show 0 ≤ lowestLevel kAgcModeFixedDigital minLevel
        from h0) (show lowestLevel kAgcModeFixedDigital minLevel ≤
          highestLevel kAgcModeFixedDigital maxLevel from h1.le) h2,
        pure_bind, Chk.val_pure] at hi
      subst hi
      exact ⟨rfl, (le_rfl : maxLevel ≤ maxLevel)⟩
    exact (hrun.invariant hstart fun _ _ _ => fixed_step).exact
  · have hlevels : 0 ≤ lowestLevel agcMode minLevel ∧
        RangeOk (lowestLevel agcMode minLevel) (highestLevel agcMode maxLevel) ∧
        (agcMode = kAgcModeAdaptiveDigital →
          lowestLevel agcMode minLevel = 0 ∧ highestLevel agcMode maxLevel = 255) := by
      rw [lowestLevel, highestLevel]
      by_cases hdig : agcMode = kAgcModeAdaptiveDigital
      · rw [if_pos hdig, if_pos hdig]
        exact ⟨by decide, by decide, fun _ => ⟨rfl, rfl⟩⟩
      · rw [if_neg hdig, if_neg hdig]
        exact ⟨h0, (hr.resolve_left hdig).resolve_left hfix, fun h => absurd h hdig⟩
    obtain ⟨hinv, hm⟩ := hrun.invariant (I := fun t => Inv t ∧ t.agcMode = agcMode)
      (inv_init hlevels.1 hlevels.2.1 hlevels.2.2 hinit) fun _ _ _ => inv_step
    exact hinv.exact hm

/-- The levels 0 to 255 of the adaptive analog mode, after two loud frames. -/
theorem levels_exact_loud :
    (init (create .cleared) 0 255 1 8000).val = (LegacyAgc.fresh 1, 0) ∧ RangeOk 0 255 ∧
    ∃ t, Run (VStep 1) (LegacyAgc.fresh 1) (loudCalls.map (·, 0)) t ∧ Exact 1 t := by
  obtain ⟨t, hrun⟩ := exists_loudVRun
  have hexact := @levels_exact (create .cleared) _ t 0 255 1 8000 _ (by decide) (by decide)
    (by decide) rfl (.inr (.inr (by decide))) hrun
  exact ⟨rfl, by decide, t, hrun, hexact.2⟩

/-- The first call of the analog stage wraps if 10% of the range does, whatever
the digital stage leaves. -/
theorem processAnalog_wraps {s : LegacyAgc} (hf : s.firstCall = 0)
    (hw : (tenPercentLevel s).ok = false) {inMicLevel : Int}
    (hl : s.minLevel ≤ i32 (inMicLevel * 2 ^ s.scale.toNat) ∧
      i32 (inMicLevel * 2 ^ s.scale.toNat) ≤ s.maxAnalog) (d : DigitalAgc) (vadLogRatio echo :
      Int) :
    (processAnalog { s with digitalAgc := d } inMicLevel vadLogRatio echo).ok = false := by
  have hfirst : ∀ lvl, (firstLevel { s with digitalAgc := d } lvl).ok = false := by
    intro lvl
    have hten : (tenPercentLevel { s with digitalAgc := d }).ok = false := hw
    rw [firstLevel, if_pos hf, Chk.ok_bind, hten, Bool.false_and]
  rw [processAnalog, Chk.ok_bind, val_ck32, if_neg (not_lt.mpr hl.2), if_neg (not_lt.mpr hl.1),
    Chk.ok_bind, analogCall, Chk.ok_bind, analogStart, Chk.ok_bind, levelIntake,
    Chk.ok_bind, hfirst]
  simp only [Bool.false_and, Bool.and_false]

/-- An instance with the widest range that `WebRtcAgc_Init` accepts. -/
def widest : LegacyAgc := (init (create .cleared) 0 67108863 1 8000).val.1

/-- Its first call of the analog stage computes 10% of the range as
`83886078 * 51`, more than 32 bits hold. -/
theorem first_call_wraps :
    (init (create .cleared) 0 67108863 1 8000).val = (widest, 0) ∧ analogStageRuns widest ∧
      ∀ d, (processAnalog { widest with digitalAgc := d } 0 0 0).ok = false := by
  have hlevel : widest.minLevel ≤ i32 (0 * 2 ^ widest.scale.toNat) ∧
      i32 (0 * 2 ^ widest.scale.toNat) ≤ widest.maxAnalog := by decide
  have hwrap : (tenPercentLevel widest).ok = false := by decide
  exact ⟨rfl, by decide, fun d => processAnalog_wraps rfl hwrap hlevel d 0 0⟩

end ExactLevels
end AgcSpec
