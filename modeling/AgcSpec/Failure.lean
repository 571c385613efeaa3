/-
# A failed call of `WebRtcAgc_Process`

`WebRtcAgc_Process` checks the frame before it does anything, but the level
only in the analog stage, after the digital stage has run in place. A call
that fails on the level has advanced the digital state and overwritten the out
buffers. So a failed call leaves everything as it was, whatever the buffers
held, exactly if it cannot fail on the level: the frame is rejected, the
analog stage does not run, or the level is in the range of the instance
(`process_atomic_iff`).
-/
import AgcSpec.Config

namespace AgcSpec
namespace Failure

open FixedPoint Runs

/-- A call that returns -1 leaves the instance and the out buffers as they
were. -/
def Unchanged (s : LegacyAgc) (in_near out : List (List Int)) (inMicLevel echo : Int) : Prop :=
  ∀ r, (process s in_near out inMicLevel echo).val = some r → r.ret = -1 →
    r.agc = s ∧ r.out = out

/-- The out buffers have the bands and the lengths of the frame. -/
def SameShape (out in_near : List (List Int)) : Prop :=
  out.map List.length = in_near.map List.length

/-! ### The levels of an instance -/

/-- `WebRtcAgc_Init` and the calls after it leave the range of the levels. -/
theorem levels_of_run {mem s t : LegacyAgc} {minLevel maxLevel agcMode fs : Int}
    {ls : List (Op × Int)} (hinit : (init mem minLevel maxLevel agcMode fs).val = (s, 0))
    (hrun : Run Step s ls t) :
    t.scale = 0 ∧ t.minLevel = lowestLevel agcMode minLevel ∧
      t.maxAnalog = highestLevel agcMode maxLevel := by
  have hs : s.scale = 0 ∧ s.minLevel = lowestLevel agcMode minLevel ∧
      s.maxAnalog = highestLevel agcMode maxLevel := by
    obtain ⟨-, -, i, t, hi, -, rfl⟩ := Config.init_ok hinit
    subst hi
    exact ⟨rfl, rfl, rfl⟩
  have hr : t.ranges = s.ranges := hrun.invariant (I := fun t => t.ranges = s.ranges) rfl
    fun _ _ _ h hstep => (ranges_step hstep).trans h
  have h1 := congrArg Ranges.scale hr
  have h2 := congrArg Ranges.minLevel hr
  have h3 := congrArg Ranges.maxAnalog hr
  exact ⟨h1.trans hs.1, h2.trans hs.2.1, h3.trans hs.2.2⟩

/-! ### The failure on the level -/

/-- The level is in the range of the instance. -/
def LevelOk (s : LegacyAgc) (inMicLevel : Int) : Prop :=
  s.minLevel ≤ i32 (inMicLevel * 2 ^ s.scale.toNat) ∧
    i32 (inMicLevel * 2 ^ s.scale.toNat) ≤ s.maxAnalog

theorem processAnalog_eq_none {s : LegacyAgc} {inMicLevel vadLogRatio echo : Int} :
    (processAnalog s inMicLevel vadLogRatio echo).val = none ↔ ¬ LevelOk s inMicLevel := by
  rw [Option.eq_none_iff_forall_ne_some]
  constructor
  · intro h hl
    exact h _ (processAnalog_eq_some.mpr ⟨hl, rfl⟩)
  · intro h a ha
    exact h (processAnalog_eq_some.mp ha).1

/-- A call that fails on the level: the digital stage has run. -/
theorem process_late {s : LegacyAgc} {in_near o : List (List Int)} {inMicLevel echo : Int}
    {d : DigitalAgc} (hframe : getAddFarendError s (in_near.headD []).length = 0)
    (hd : (processDigital s.digitalAgc in_near s.fs s.lowLevelSignal).val = .done d o)
    (hrun : analogStageRuns s) (hl : ¬ LevelOk s inMicLevel) (out : List (List Int)) :
    (process s in_near out inMicLevel echo).val =
      some ⟨-1, { s with digitalAgc := d }, o, some inMicLevel, some false⟩ := by
  have hrun' : analogStageRuns { s with digitalAgc := d } := hrun
  have hl' : ¬ LevelOk { s with digitalAgc := d } inMicLevel := hl
  rw [process, if_neg (not_not.mpr hframe), Chk.val_bind, hd]
  dsimp only
  rw [if_pos hrun', Chk.val_bind, processAnalog_eq_none.mpr hl']
  rfl

/-- Buffers of the frame's shape that differ from `o` in the first sample. -/
theorem exists_other {in_near : List (List Int)} (h : (in_near.headD []).length ≠ 0)
    (o : List (List Int)) : ∃ out, SameShape out in_near ∧ o ≠ out := by
  obtain ⟨x, xs, bands, rfl⟩ : ∃ x xs bands, in_near = (x :: xs) :: bands := by
    match in_near, h with
    | (x :: xs) :: bands, _ => exact ⟨x, xs, bands, rfl⟩
  refine ⟨((if (o.headD []).headD 0 = 0 then 1 else 0) :: xs) :: bands, by simp [SameShape],
    fun ho => ?_⟩
  have hx := congrArg (fun b : List (List Int) => (b.headD []).headD 0) ho
  simp only [List.headD_cons] at hx
  split at hx <;> omega

theorem length_of_frame {s : LegacyAgc} {n : ℕ} (h : getAddFarendError s n = 0) : n ≠ 0 := by
  rintro rfl
  rw [getAddFarendError] at h
  split at h
  · omega
  split at h <;> omega

/-- In every reachable state, for every frame and level: a failed call leaves
the instance and the out buffers as they were, whatever these held, if and only
if the frame is rejected, the analog stage does not run, the level is in range,
or there is no call to speak of because the digital stage never returns. -/
theorem process_atomic_iff {mem s t : LegacyAgc} {minLevel maxLevel agcMode fs : Int}
    {ls : List (Op × Int)} (hinit : (init mem minLevel maxLevel agcMode fs).val = (s, 0))
    (hrun : Run Step s ls t) (in_near : List (List Int)) (inMicLevel echo : Int) :
    (∀ out, SameShape out in_near → Unchanged t in_near out inMicLevel echo) ↔
      getAddFarendError t (in_near.headD []).length ≠ 0 ∨ ¬ analogStageRuns t ∨
        (lowestLevel agcMode minLevel ≤ i32 inMicLevel ∧
          i32 inMicLevel ≤ highestLevel agcMode maxLevel) ∨
        (processDigital t.digitalAgc in_near t.fs t.lowLevelSignal).val = .never := by
  obtain ⟨hscale, hmin, hmax⟩ := levels_of_run hinit hrun
  have hlevel : (lowestLevel agcMode minLevel ≤ i32 inMicLevel ∧
    i32 inMicLevel ≤ highestLevel agcMode maxLevel) ↔
      LevelOk t inMicLevel := by
    rw [LevelOk, hscale, hmin, hmax]
    simp
  rw [hlevel]
  constructor
  · intro h
    by_contra hcond
    simp only [not_or, not_not] at hcond
    obtain ⟨hframe, hana, hl, hnever⟩ := hcond
    rcases hd : (processDigital t.digitalAgc in_near t.fs t.lowLevelSignal).val
      with _ | _ | ⟨d, o⟩
    · exact hnever hd
    · exact processDigital_ne_error hframe in_near hd
    · obtain ⟨out, hshape, hne⟩ := exists_other (length_of_frame hframe) o
      exact hne (h out hshape _ (process_late hframe hd hana hl out) rfl).2
  · intro hcond out _ r hr hneg
    rcases process_cases hr
      with ⟨-, rfl⟩ | ⟨hf, d, o, hd,
        ⟨hana, hnone, -⟩ | ⟨a, -, -, rfl⟩ | ⟨-, rfl⟩⟩
    · exact ⟨rfl, rfl⟩
    · -- the failure on the level is excluded
      rcases hcond with h | h | h | h
      · exact absurd hf h
      · exact absurd hana h
      · have hl : ¬ LevelOk { t with digitalAgc := d } inMicLevel :=
          processAnalog_eq_none.mp hnone
        exact absurd h hl
      · rw [h] at hd
        cases hd
    · exact absurd (show (0 : Int) = -1 from hneg) (by decide)
    · exact absurd (show (0 : Int) = -1 from hneg) (by decide)

/-- After two loud frames at 8 kHz a frame of 20 ms is rejected, and the call
leaves everything as it was, at a level that is out of range too. -/
theorem process_atomic_rejected :
    (init (create .cleared) 0 255 1 8000).val = (LegacyAgc.fresh 1, 0) ∧
    ∃ t, Run Step (LegacyAgc.fresh 1) (loudCalls.map (·, 0)) t ∧
      (∀ out, ∃ r, (process t [List.replicate 160 1000] out 256 0).val = some r ∧ r.ret = -1) ∧
      ∀ out, SameShape out [List.replicate 160 1000] →
        Unchanged t [List.replicate 160 1000] out 256 0 := by
  obtain ⟨t, hrun⟩ := exists_loudRun
  have hfs : t.fs = 8000 := hrun.invariant (I := fun t => t.fs = 8000) rfl
    fun _ _ _ hfs hs => (congrArg Ranges.fs (ranges_step hs)).trans hfs
  have hrejected : getAddFarendError t ([List.replicate 160 (1000 : Int)].headD []).length ≠
      0 := by
    rw [getAddFarendError, if_pos hfs, List.headD_cons, List.length_replicate]
    decide
  refine ⟨rfl, t, hrun, fun out => ⟨_, by rw [process, if_pos hrejected]; rfl, rfl⟩, ?_⟩
  exact (@process_atomic_iff (create .cleared) _ t 0 255 1 8000 _ rfl hrun _ 256 0).mpr
    (.inl hrejected)

/-- The level 256 on the range 0 to 255: the call returns -1, but the instance
has changed, in the near-end statistics for one, and the out buffer holds the
processed frame. -/
theorem process_not_atomic :
    (init (create .cleared) 0 255 1 8000).val = (LegacyAgc.fresh 1, 0) ∧
    ∃ r, (process (LegacyAgc.fresh 1) [List.replicate 80 1000] [List.replicate 80 7] 256 0).val =
      some r ∧ r.ret = -1 ∧ (LegacyAgc.fresh 1).digitalAgc.vadNearend.counter = 3 ∧
      r.agc.digitalAgc.vadNearend.counter = 4 ∧
      r.out ≠ [List.replicate 80 7] := by
  have h : (process (LegacyAgc.fresh 1) [List.replicate 80 1000] [List.replicate 80 7]
    256 0).val.map
      (fun r => (r.ret, r.agc.digitalAgc.vadNearend.counter,
        decide (r.out = [List.replicate 80 7]))) =
      some (-1, 4, false) := by decide +kernel
  obtain ⟨r, hr, he⟩ := Option.map_eq_some_iff.mp h
  simp only [Prod.mk.injEq, decide_eq_false_iff_not] at he
  exact ⟨rfl, r, hr, he.1, by decide +kernel, he.2.1, he.2.2⟩

end Failure
end AgcSpec
