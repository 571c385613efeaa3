/-
# Half-band filters

`common_audio/resample_by_2.c` and `common_audio/resample_by_2_internal.c`: the
interpolators and decimators by two and the low-pass filter of the resampler.
Each is a pair of branches of three allpass sections, one for the even and one
for the odd samples. The decimator `WebRtcSpl_DownsampleBy2` is the one of the
gain control (`downsampleBy2`). Values are those of 32-bit arithmetic that
wraps, with the flags of `AgcSpec.Lib.Checked` beside them: the decimators are
known to overflow, and the source says so.

As stages the two filters on 16-bit samples can be cut anywhere, the decimator
between pairs (`chunks_up`, `chunks_down`).
-/
import AgcSpec.Spl
import AgcSpec.Lib.Stream

namespace AgcSpec

open FixedPoint Streams

/-! ### On 16-bit samples -/

/-- `WebRtcSpl_UpsampleBy2`: the lower and the upper branch over every sample. -/
def upsampleBy2 (st : FiltState) : List Int → Chk (FiltState × List Int)
  | [] => pure (st, [])
  | x :: rest => do
    let lo ← allpassBranch 3284 24441 49528 x st.state0 st.state1 st.state2 st.state3
    let a ← ck32 (lo.2.2.2 + 512)
    let up ← allpassBranch 12199 37471 60255 x st.state4 st.state5 st.state6 st.state7
    let b ← ck32 (up.2.2.2 + 512)
    let r ← upsampleBy2 ⟨lo.1, lo.2.1, lo.2.2.1, lo.2.2.2, up.1, up.2.1, up.2.2.1,
      up.2.2.2⟩ rest
    pure (r.1, sat16 (a / 2 ^ 10) :: sat16 (b / 2 ^ 10) :: r.2)

/-- The two filters as stages. -/
def up : Stage FiltState Int Int := fun st xs => (upsampleBy2 st xs).val.swap
def down : Stage FiltState Int Int := fun st xs => (downsampleBy2 st xs).val.swap

theorem length_up : ∀ (xs : List Int) (st : FiltState), (up st xs).1.length = xs.length * 2
  | [], _ => rfl
  | _ :: xs, _ => by
    have ih := length_up xs
    simp only [up, upsampleBy2, Prod.fst_swap, Chk.val_bind, Chk.val_pure, List.length_cons]
      at ih ⊢
    rw [ih]
    ring

theorem length_down : ∀ (xs : List Int) (st : FiltState), (down st xs).1.length = xs.length / 2
  | [], _ => rfl
  | [_], _ => by simp [down, downsampleBy2]
  | _ :: _ :: xs, _ => by
    have ih := length_down xs
    simp only [down, downsampleBy2, Prod.fst_swap, Chk.val_bind, Chk.val_pure, List.length_cons]
      at ih ⊢
    rw [ih]
    omega

theorem rate_up : Rate 1 2 up := fun k st xs hxs => by rw [length_up, hxs, mul_one]

theorem rate_down : Rate 2 1 down := fun k st xs hxs => by
  rw [length_down, hxs, mul_one, Nat.mul_div_cancel k two_pos]

theorem up_append : ∀ (xs ys : List Int) (st : FiltState),
    up st (xs ++ ys) = ((up st xs).1 ++ (up (up st xs).2 ys).1, (up (up st xs).2 ys).2)
  | [], _, _ => rfl
  | _ :: xs, ys, _ => by
    have ih := up_append xs ys
    simp only [up, upsampleBy2, List.cons_append, Chk.val_bind, Chk.val_pure, Prod.swap,
      Prod.mk.injEq] at ih ⊢
    exact ⟨by rw [(ih _).1], (ih _).2⟩

theorem chunks_up : Chunks 1 up := fun st xs ys _ _ => up_append xs ys st

/-- The decimator can be cut between pairs. -/
theorem downsampleBy2_append : ∀ (xs ys : List Int) (st : FiltState), 2 ∣ xs.length →
    downsampleBy2 st (xs ++ ys) = do
      let r ← downsampleBy2 st xs
      let q ← downsampleBy2 r.1 ys
      pure (q.1, r.2 ++ q.2)
  | [], _, _, _ => by
    simp only [downsampleBy2, List.nil_append, pure_bind]
    exact (bind_pure _).symm
  | [_], _, _, h => by simp at h
  | _ :: _ :: xs, ys, _, h => by
    have ih := fun st => downsampleBy2_append xs ys st (by simp only [List.length_cons] at h; omega)
    simp only [downsampleBy2, List.cons_append, ih, bind_assoc, pure_bind]

theorem down_append (xs ys : List Int) (st : FiltState) (h : 2 ∣ xs.length) :
    down st (xs ++ ys) = ((down st xs).1 ++ (down (down st xs).2 ys).1,
      (down (down st xs).2 ys).2) := by
  rw [down, downsampleBy2_append xs ys st h]
  rfl

theorem chunks_down : Chunks 2 down := fun st xs ys h _ => down_append xs ys st h

/-! ### With 32-bit samples inside -/

/-- The state of a branch. -/
structure Allpass where
  s0 : Int
  s1 : Int
  s2 : Int
  s3 : Int
deriving DecidableEq, Repr

def Allpass.zero : Allpass := ⟨0, 0, 0, 0⟩

def kResampleAllpass0 : Int × Int × Int := (821, 6110, 12382)
def kResampleAllpass1 : Int × Int × Int := (3050, 9368, 15063)

/-- `diff >> 14`, and one more if that is negative: scaled down and truncated. -/
def scaleTrunc (diff : Int) : Int := if diff / 2 ^ 14 < 0 then diff / 2 ^ 14 + 1 else diff / 2 ^ 14

/-- The sections of a branch on one sample; the output is `s3`. -/
def allpassStep (k : Int × Int × Int) (st : Allpass) (tmp0 : Int) : Chk Allpass := do
  let diff ← ck32 (tmp0 - st.s1)
  let diff ← ck32 (diff + 2 ^ 13)
  let p ← ck32 (diff / 2 ^ 14 * k.1)
  let tmp1 ← ck32 (st.s0 + p)
  let diff ← ck32 (tmp1 - st.s2)
  let p ← ck32 (scaleTrunc diff * k.2.1)
  let tmp2 ← ck32 (st.s1 + p)
  let diff ← ck32 (tmp2 - st.s3)
  let p ← ck32 (scaleTrunc diff * k.2.2)
  let s3 ← ck32 (st.s2 + p)
  pure ⟨tmp0, tmp1, tmp2, s3⟩

/-- A branch over samples. -/
def allpassFilter (k : Int × Int × Int) : Allpass → List Int → Chk (List Int × Allpass)
  | st, [] => pure ([], st)
  | st, x :: xs => do
    let st ← allpassStep k st x
    let r ← allpassFilter k st xs
    pure (st.s3 :: r.1, r.2)

theorem length_allpassFilter (k : Int × Int × Int) : ∀ (xs : List Int) (st : Allpass),
    (allpassFilter k st xs).val.1.length = xs.length
  | [], _ => rfl
  | _ :: xs, _ => by
    simp only [allpassFilter, Chk.val_bind, Chk.val_pure, List.length_cons,
      length_allpassFilter k xs]

/-- `((int32_t)in << 15) + (1 << 14)`. -/
def shiftIn (x : Int) : Chk Int := do
  let y ← ck32 (x * 2 ^ 15)
  ck32 (y + 2 ^ 14)

/-- The even and the odd samples. -/
def everyOther : List Int → List Int × List Int
  | a :: b :: rest => (a :: (everyOther rest).1, b :: (everyOther rest).2)
  | _ => ([], [])

theorem length_everyOther : ∀ xs : List Int,
    (everyOther xs).1.length = xs.length / 2 ∧ (everyOther xs).2.length = xs.length / 2
  | [] => ⟨rfl, rfl⟩
  | [_] => by simp [everyOther]
  | _ :: _ :: xs => by
    obtain ⟨h1, h2⟩ := length_everyOther xs
    simp only [everyOther, List.length_cons, h1, h2]
    omega

/-- Two lists in turns. -/
def inTurns (xs ys : List Int) : List Int := (xs.zip ys).flatMap fun p => [p.1, p.2]

theorem length_inTurns {xs ys : List Int} (h : xs.length = ys.length) :
    (inTurns xs ys).length = xs.length * 2 := by
  rw [inTurns, List.length_flatMap]
  simp [h]

/-- An array of eight states: the lower branch, then the upper. -/
structure By2State where
  lower : Allpass
  upper : Allpass
deriving DecidableEq, Repr

def By2State.zero : By2State := ⟨.zero, .zero⟩

/-- `WebRtcSpl_DownBy2IntToShort`. -/
def downBy2IntToShort (xs : List Int) (st : By2State) : Chk (List Int × By2State) := do
  let lower ← allpassFilter kResampleAllpass1 st.lower (everyOther xs).1
  let upper ← allpassFilter kResampleAllpass0 st.upper (everyOther xs).2
  let out := (lower.1.zip upper.1).map fun p => sat16 ((p.1 / 2 + p.2 / 2) / 2 ^ 15)
  pure (out, ⟨lower.2, upper.2⟩)

theorem length_downBy2IntToShort (xs : List Int) (st : By2State) :
    (downBy2IntToShort xs st).val.1.length = xs.length / 2 := by
  simp only [downBy2IntToShort, Chk.val_bind, Chk.val_pure, List.length_map, List.length_zip,
    length_allpassFilter, (length_everyOther xs).1, (length_everyOther xs).2, min_self]

/-- `WebRtcSpl_UpBy2ShortToInt`: the upper branch gives the first sample of each two. -/
def upBy2ShortToInt (xs : List Int) (st : By2State) : Chk (List Int × By2State) := do
  let shifted ← xs.mapM shiftIn
  let upper ← allpassFilter kResampleAllpass0 st.upper shifted
  let lower ← allpassFilter kResampleAllpass1 st.lower shifted
  pure (inTurns (upper.1.map (· / 2 ^ 15)) (lower.1.map (· / 2 ^ 15)), ⟨lower.2, upper.2⟩)

/-- `WebRtcSpl_UpBy2IntToShort`. -/
def upBy2IntToShort (xs : List Int) (st : By2State) : Chk (List Int × By2State) := do
  let upper ← allpassFilter kResampleAllpass0 st.upper xs
  let lower ← allpassFilter kResampleAllpass1 st.lower xs
  pure (inTurns (upper.1.map fun y => sat16 (y / 2 ^ 15)) (lower.1.map fun y => sat16 (y / 2 ^ 15)),
    ⟨lower.2, upper.2⟩)

theorem length_upBy2IntToShort (xs : List Int) (st : By2State) :
    (upBy2IntToShort xs st).val.1.length = xs.length * 2 := by
  simp only [upBy2IntToShort, Chk.val_bind, Chk.val_pure]
  rw [length_inTurns] <;> simp only [List.length_map, length_allpassFilter]

/-- An array of sixteen states: the lower and the upper branch for the even
outputs, then for the odd ones. -/
structure LpState where
  evenLower : Allpass
  evenUpper : Allpass
  oddLower : Allpass
  oddUpper : Allpass
deriving DecidableEq, Repr

def LpState.zero : LpState := ⟨.zero, .zero, .zero, .zero⟩

/-- The average of two branches, scaled down. -/
def averageOut (lower upper : List Int) : List Int :=
  (lower.zip upper).map fun p => (p.1 / 2 + p.2 / 2) / 2 ^ 15

/-- `WebRtcSpl_LPBy2ShortToInt`: the first branch runs over the odd samples one
step late, from the one kept in `state[12]`. -/
def lpBy2ShortToInt (xs : List Int) (st : LpState) : Chk (List Int × LpState) := do
  let even ← (everyOther xs).1.mapM shiftIn
  let odd ← (everyOther xs).2.mapM shiftIn
  let evenLower ← allpassFilter kResampleAllpass1 st.evenLower
    ((st.oddUpper.s0 :: odd).take odd.length)
  let evenUpper ← allpassFilter kResampleAllpass0 st.evenUpper even
  let oddLower ← allpassFilter kResampleAllpass1 st.oddLower even
  let oddUpper ← allpassFilter kResampleAllpass0 st.oddUpper odd
  pure (inTurns (averageOut evenLower.1 evenUpper.1) (averageOut oddLower.1 oddUpper.1),
    ⟨evenLower.2, evenUpper.2, oddLower.2, oddUpper.2⟩)

end AgcSpec
