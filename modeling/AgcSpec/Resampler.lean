/-
# The resampler

`Resampler` of `common_audio/resampler/resampler.cc`: the mode for a pair of
frequencies, the states each mode needs, and `Push`, which sends the samples
through one to three filters. An input is a list, and so is the array for the
output; its length is `maxLen`. Every access to an array has a flag, the
scratch arrays included; the arithmetic inside the filters does not count here.
Lengths are natural numbers.

A mode has a ratio (`inPart`, `outPart`), which is the ratio of the frequencies
it is chosen for (`mode_ratio`).
-/
import AgcSpec.ResampleBlocks

namespace AgcSpec

open FixedPoint Streams

/-! ### Modes -/

/-- `ResamplerMode`. -/
inductive ResamplerMode where
  | mode1To1
  | mode1To2
  | mode1To3
  | mode1To4
  | mode1To6
  | mode1To12
  | mode2To3
  | mode2To11
  | mode4To11
  | mode8To11
  | mode11To16
  | mode11To32
  | mode2To1
  | mode3To1
  | mode4To1
  | mode6To1
  | mode12To1
  | mode3To2
  | mode11To2
  | mode11To4
  | mode11To8
deriving DecidableEq, Repr

/-- Euclid's algorithm as the code has it. The remainder of the division by 0
and of `INT_MIN` by -1 has no meaning in C. -/
def euclid (a b : Int) : Chk Int :=
  if b = 0 then flag False b
  else if a.tmod b = 0 then flag (¬ (a = -2 ^ 31 ∧ b = -1)) b
  else euclid b (a.tmod b)
termination_by b.natAbs
decreasing_by
  rw [Int.natAbs_tmod]
  exact Nat.mod_lt _ (by omega)

/-- The choice of `ComputeResamplerMode` for frequencies in lowest terms; `none`
for the return value -1. -/
def modeOf (reduced_in_freq reduced_out_freq : Int) : Option ResamplerMode :=
  if reduced_in_freq = reduced_out_freq then some .mode1To1
  else if reduced_in_freq = 1 then
    if reduced_out_freq = 2 then some .mode1To2
    else if reduced_out_freq = 3 then some .mode1To3
    else if reduced_out_freq = 4 then some .mode1To4
    else if reduced_out_freq = 6 then some .mode1To6
    else if reduced_out_freq = 12 then some .mode1To12
    else none
  else if reduced_out_freq = 1 then
    if reduced_in_freq = 2 then some .mode2To1
    else if reduced_in_freq = 3 then some .mode3To1
    else if reduced_in_freq = 4 then some .mode4To1
    else if reduced_in_freq = 6 then some .mode6To1
    else if reduced_in_freq = 12 then some .mode12To1
    else none
  else if reduced_in_freq = 2 ∧ reduced_out_freq = 3 then some .mode2To3
  else if reduced_in_freq = 2 ∧ reduced_out_freq = 11 then some .mode2To11
  else if reduced_in_freq = 4 ∧ reduced_out_freq = 11 then some .mode4To11
  else if reduced_in_freq = 8 ∧ reduced_out_freq = 11 then some .mode8To11
  else if reduced_in_freq = 3 ∧ reduced_out_freq = 2 then some .mode3To2
  else if reduced_in_freq = 11 ∧ reduced_out_freq = 2 then some .mode11To2
  else if reduced_in_freq = 11 ∧ reduced_out_freq = 4 then some .mode11To4
  else if reduced_in_freq = 11 ∧ reduced_out_freq = 16 then some .mode11To16
  else if reduced_in_freq = 11 ∧ reduced_out_freq = 32 then some .mode11To32
  else if reduced_in_freq = 11 ∧ reduced_out_freq = 8 then some .mode11To8
  else none

/-- `ComputeResamplerMode`. -/
def computeResamplerMode (in_freq_hz out_freq_hz : Int) : Chk (Option ResamplerMode) := do
  let b ← euclid in_freq_hz out_freq_hz
  let reduced_in_freq ← ck32 (in_freq_hz.tdiv b)
  let reduced_out_freq ← ck32 (out_freq_hz.tdiv b)
  pure (modeOf reduced_in_freq reduced_out_freq)

namespace ResamplerMode

/-- The ratio in a mode's name. -/
def inPart : ResamplerMode → ℕ
  | mode1To1 | mode1To2 | mode1To3 | mode1To4 | mode1To6 | mode1To12 => 1
  | mode2To3 | mode2To11 | mode2To1 => 2
  | mode3To1 | mode3To2 => 3
  | mode4To11 | mode4To1 => 4
  | mode6To1 => 6
  | mode8To11 => 8
  | mode11To16 | mode11To32 | mode11To2 | mode11To4 | mode11To8 => 11
  | mode12To1 => 12

def outPart : ResamplerMode → ℕ
  | mode1To1 | mode2To1 | mode3To1 | mode4To1 | mode6To1 | mode12To1 => 1
  | mode1To2 | mode3To2 | mode11To2 => 2
  | mode1To3 | mode2To3 => 3
  | mode1To4 | mode11To4 => 4
  | mode1To6 => 6
  | mode11To8 => 8
  | mode2To11 | mode4To11 | mode8To11 => 11
  | mode1To12 => 12
  | mode11To16 => 16
  | mode11To32 => 32

/-- The states of a mode: `state1_`, `state2_` and `state3_` as far as it has
them. -/
@[reducible] def State : ResamplerMode → Type
  | mode1To1 => Unit
  | mode1To2 => FiltState
  | mode1To3 => State16khzTo48khz
  | mode1To4 => FiltState × FiltState
  | mode1To6 => FiltState × State16khzTo48khz
  | mode1To12 => FiltState × FiltState × State16khzTo48khz
  | mode2To3 => State16khzTo48khz × FiltState
  | mode2To11 => FiltState × State8khzTo22khz
  | mode4To11 => State8khzTo22khz
  | mode8To11 => State16khzTo22khz
  | mode11To16 => FiltState × State22khzTo16khz
  | mode11To32 => FiltState × State22khzTo16khz × FiltState
  | mode2To1 => FiltState
  | mode3To1 => State48khzTo16khz
  | mode4To1 => FiltState × FiltState
  | mode6To1 => State48khzTo16khz × FiltState
  | mode12To1 => State48khzTo16khz × FiltState × FiltState
  | mode3To2 => FiltState × State48khzTo16khz
  | mode11To2 => State22khzTo8khz × FiltState
  | mode11To4 => State22khzTo8khz
  | mode11To8 => State22khzTo16khz

/-- The states after `Reset`. -/
def zero : (mode : ResamplerMode) → mode.State
  | mode1To1 => ()
  | mode1To2 => FiltState.zero
  | mode1To3 => State16khzTo48khz.zero
  | mode1To4 => (FiltState.zero, FiltState.zero)
  | mode1To6 => (FiltState.zero, State16khzTo48khz.zero)
  | mode1To12 => (FiltState.zero, FiltState.zero, State16khzTo48khz.zero)
  | mode2To3 => (State16khzTo48khz.zero, FiltState.zero)
  | mode2To11 => (FiltState.zero, State8khzTo22khz.zero)
  | mode4To11 => State8khzTo22khz.zero
  | mode8To11 => State16khzTo22khz.zero
  | mode11To16 => (FiltState.zero, State22khzTo16khz.zero)
  | mode11To32 => (FiltState.zero, State22khzTo16khz.zero, FiltState.zero)
  | mode2To1 => FiltState.zero
  | mode3To1 => State48khzTo16khz.zero
  | mode4To1 => (FiltState.zero, FiltState.zero)
  | mode6To1 => (State48khzTo16khz.zero, FiltState.zero)
  | mode12To1 => (State48khzTo16khz.zero, FiltState.zero, FiltState.zero)
  | mode3To2 => (FiltState.zero, State48khzTo16khz.zero)
  | mode11To2 => (State22khzTo8khz.zero, FiltState.zero)
  | mode11To4 => State22khzTo8khz.zero
  | mode11To8 => State22khzTo16khz.zero

end ResamplerMode

/-- Where it has a meaning, Euclid's algorithm gives a common divisor. -/
theorem euclid_dvd (a b : Int) (h : (euclid a b).ok = true) :
    b ≠ 0 ∧ (euclid a b).val ≠ 0 ∧ (euclid a b).val ∣ a ∧ (euclid a b).val ∣ b := by
  induction hm : b.natAbs using Nat.strong_induction_on generalizing a b with
  | _ m ih =>
    rw [euclid] at h ⊢
    by_cases hb : b = 0
    · rw [if_pos hb] at h
      simp [flag] at h
    · rw [if_neg hb] at h ⊢
      by_cases hc : a.tmod b = 0
      · rw [if_pos hc]
        exact ⟨hb, hb, Int.dvd_of_tmod_eq_zero hc, dvd_refl b⟩
      · rw [if_neg hc] at h ⊢
        have hlt : (a.tmod b).natAbs < m := by
          rw [Int.natAbs_tmod, ← hm]
          exact Nat.mod_lt _ (by omega)
        obtain ⟨-, hne, hb', hr⟩ := ih _ hlt b (a.tmod b) h rfl
        have ha := dvd_add hr (hb'.mul_right (a.tdiv b))
        rw [Int.tmod_add_mul_tdiv] at ha
        exact ⟨hb, hne, ha, hb'⟩

/-- If a mode is chosen for `p` and `q`, they have its ratio. -/
def Sound (p q : Int) (o : Option ResamplerMode) : Prop :=
  ∀ mode, o = some mode → p * mode.outPart = q * mode.inPart

theorem sound_none {p q : Int} : Sound p q none := fun _ h => by cases h

theorem sound_some {p q : Int} {mode : ResamplerMode} (h : p * mode.outPart = q * mode.inPart) :
    Sound p q (some mode) :=
  fun _ hm => Option.some.inj hm ▸ h

theorem sound_ite {p q : Int} {c : Prop} [Decidable c] {o o' : Option ResamplerMode}
    (h : c → Sound p q o) (h' : Sound p q o') : Sound p q (if c then o else o') := by
  by_cases hc : c
  · rw [if_pos hc]
    exact h hc
  · rw [if_neg hc]
    exact h'

theorem sound_modeOf (p q : Int) : Sound p q (modeOf p q) := by
  unfold modeOf
  repeat' first
    | exact sound_none
    | refine sound_ite (fun _ => ?_) ?_
    | refine sound_some ?_
      simp only [ResamplerMode.inPart, ResamplerMode.outPart, Nat.cast_ofNat, Nat.cast_one]
      omega

/-- The frequencies have the ratio of their mode. -/
theorem mode_ratio {inFreq outFreq : Int} {mode : ResamplerMode}
    (h : computeResamplerMode inFreq outFreq = pure (some mode)) :
    inFreq * mode.outPart = outFreq * mode.inPart ∧ outFreq ≠ 0 := by
  have hok := congrArg Chk.ok h
  have hval := congrArg Chk.val h
  simp only [computeResamplerMode, Chk.ok_bind, Chk.ok_pure, Bool.and_eq_true, ok_ck32_iff,
    val_ck32, Chk.val_bind, Chk.val_pure] at hok hval
  obtain ⟨heuclid, hin, hout, -⟩ := hok
  obtain ⟨hne, hd, ⟨p, hp⟩, q, hq⟩ := euclid_dvd inFreq outFreq heuclid
  rw [i32_of hin, i32_of hout] at hval
  generalize (euclid inFreq outFreq).val = d at *
  subst hp hq
  rw [Int.mul_tdiv_cancel_left _ hd, Int.mul_tdiv_cancel_left _ hd] at hval
  refine ⟨?_, hne⟩
  rw [mul_assoc, mul_assoc, sound_modeOf _ _ mode hval]

/-! ### `Push` -/

/-- What `Push` leaves: its return value, `outLen`, the output array, and the
states. -/
structure Pushed (σ : Type) where
  ret : Int
  outLen : ℕ
  samplesOut : List Int
  state : σ

/-- `malloc` for samples. -/
def alloc (n : ℕ) : List Int := List.replicate n 0

/-- `Push` for one channel. -/
def pushMono : (mode : ResamplerMode) → mode.State → (samplesIn samplesOut : List Int) →
    (outLen : ℕ) → Chk (Pushed mode.State)
  | .mode1To1, st, samplesIn, samplesOut, _ => do
    let out ← writeAt samplesOut 0 samplesIn
    pure ⟨0, samplesIn.length, out, st⟩
  | .mode1To2, st, samplesIn, samplesOut, outLen =>
    if samplesOut.length < samplesIn.length * 2 then pure ⟨-1, outLen, samplesOut, st⟩
    else do
      let out ← call up samplesIn samplesIn.length samplesOut st
      pure ⟨0, samplesIn.length * 2, out.1, out.2⟩
  | .mode1To3, st, samplesIn, samplesOut, outLen =>
    if samplesIn.length % 160 ≠ 0 then pure ⟨-1, outLen, samplesOut, st⟩
    else if samplesOut.length < samplesIn.length * 3 then pure ⟨-1, outLen, samplesOut, st⟩
    else do
      let out ← blockLoop block16To48 160 (fun i => i * 3) samplesIn samplesIn.length
        samplesOut st
      pure ⟨0, samplesIn.length * 3, out.1, out.2⟩
  | .mode1To4, (state1, state2), samplesIn, samplesOut, outLen =>
    if samplesOut.length < samplesIn.length * 4
      then pure ⟨-1, outLen, samplesOut, (state1, state2)⟩
    else do
      let tmp ← call up samplesIn samplesIn.length (alloc (2 * samplesIn.length)) state1
      let out ← call up tmp.1 (samplesIn.length * 2) samplesOut state2
      pure ⟨0, samplesIn.length * 4, out.1, (tmp.2, out.2)⟩
  | .mode1To6, (state1, state2), samplesIn, samplesOut, outLen =>
    if samplesIn.length % 80 ≠ 0 then pure ⟨-1, outLen, samplesOut, (state1, state2)⟩
    else if samplesOut.length < samplesIn.length * 6
      then pure ⟨-1, outLen, samplesOut, (state1, state2)⟩
    else do
      let tmp ← call up samplesIn samplesIn.length (alloc (2 * samplesIn.length)) state1
      let out ← blockLoop block16To48 160 (fun i => i * 3) tmp.1 (samplesIn.length * 2)
        samplesOut state2
      pure ⟨0, samplesIn.length * 2 * 3, out.1, (tmp.2, out.2)⟩
  | .mode1To12, (state1, state2, state3), samplesIn, samplesOut, outLen =>
    if samplesIn.length % 40 ≠ 0 then pure ⟨-1, outLen, samplesOut, (state1, state2, state3)⟩
    else if samplesOut.length < samplesIn.length * 12
      then pure ⟨-1, outLen, samplesOut, (state1, state2, state3)⟩
    else do
      -- the first stage uses the output array
      let first ← call up samplesIn samplesIn.length samplesOut state1
      let tmp ← call up first.1 (samplesIn.length * 2) (alloc (4 * samplesIn.length)) state2
      let out ← blockLoop block16To48 160 (fun i => i * 3) tmp.1 (samplesIn.length * 2 * 2)
        first.1 state3
      pure ⟨0, samplesIn.length * 2 * 2 * 3, out.1, (first.2, tmp.2, out.2)⟩
  | .mode2To3, (state1, state2), samplesIn, samplesOut, outLen =>
    if samplesOut.length < samplesIn.length * 3 / 2
      then pure ⟨-1, outLen, samplesOut, (state1, state2)⟩
    else if samplesIn.length % 160 ≠ 0 then pure ⟨-1, outLen, samplesOut, (state1, state2)⟩
    else do
      let tmp ← blockLoop block16To48 160 (fun i => i * 3) samplesIn samplesIn.length
        (alloc (samplesIn.length * 3)) state1
      let out ← call down tmp.1 (samplesIn.length * 3) samplesOut state2
      pure ⟨0, samplesIn.length * 3 / 2, out.1, (tmp.2, out.2)⟩
  | .mode2To11, (state1, state2), samplesIn, samplesOut, outLen =>
    if samplesIn.length % 80 ≠ 0 then pure ⟨-1, outLen, samplesOut, (state1, state2)⟩
    else if samplesOut.length < samplesIn.length * 11 / 2
      then pure ⟨-1, outLen, samplesOut, (state1, state2)⟩
    else do
      let tmp ← call up samplesIn samplesIn.length (alloc (2 * samplesIn.length)) state1
      let out ← blockLoop block8To22 80 (fun i => i * 11 / 4) tmp.1 (samplesIn.length * 2)
        samplesOut state2
      pure ⟨0, samplesIn.length * 2 * 11 / 4, out.1, (tmp.2, out.2)⟩
  | .mode4To11, st, samplesIn, samplesOut, outLen =>
    if samplesIn.length % 80 ≠ 0 then pure ⟨-1, outLen, samplesOut, st⟩
    else if samplesOut.length < samplesIn.length * 11 / 4 then pure ⟨-1, outLen, samplesOut, st⟩
    else do
      let out ← blockLoop block8To22 80 (fun i => i * 11 / 4) samplesIn samplesIn.length
        samplesOut st
      pure ⟨0, samplesIn.length * 11 / 4, out.1, out.2⟩
  | .mode8To11, st, samplesIn, samplesOut, outLen =>
    if samplesIn.length % 160 ≠ 0 then pure ⟨-1, outLen, samplesOut, st⟩
    else if samplesOut.length < samplesIn.length * 11 / 8 then pure ⟨-1, outLen, samplesOut, st⟩
    else do
      let out ← blockLoop block16To22 160 (fun i => i * 11 / 8) samplesIn samplesIn.length
        samplesOut st
      pure ⟨0, samplesIn.length * 11 / 8, out.1, out.2⟩
  | .mode11To16, (state1, state2), samplesIn, samplesOut, outLen =>
    if samplesIn.length % 110 ≠ 0 then pure ⟨-1, outLen, samplesOut, (state1, state2)⟩
    else if samplesOut.length < samplesIn.length * 16 / 11
      then pure ⟨-1, outLen, samplesOut, (state1, state2)⟩
    else do
      let tmp ← call up samplesIn samplesIn.length (alloc (samplesIn.length * 2)) state1
      let out ← blockLoop block22To16 220 (fun i => i / 220 * 160) tmp.1 (samplesIn.length * 2)
        samplesOut state2
      pure ⟨0, samplesIn.length * 16 / 11, out.1, (tmp.2, out.2)⟩
  | .mode11To32, (state1, state2, state3), samplesIn, samplesOut, outLen =>
    if samplesIn.length % 110 ≠ 0 then pure ⟨-1, outLen, samplesOut, (state1, state2, state3)⟩
    else if samplesOut.length < samplesIn.length * 32 / 11 then
      pure ⟨-1, outLen, samplesOut, (state1, state2, state3)⟩
    else do
      -- so does this one
      let first ← call up samplesIn samplesIn.length samplesOut state1
      let tmp ← blockLoop block22To16 220 (fun i => i / 220 * 160) first.1 (samplesIn.length * 2)
        (alloc (samplesIn.length * 2)) state2
      let out ← call up tmp.1 (samplesIn.length * 16 / 11) first.1 state3
      pure ⟨0, samplesIn.length * 32 / 11, out.1, (first.2, tmp.2, out.2)⟩
  | .mode2To1, st, samplesIn, samplesOut, outLen =>
    if samplesOut.length < samplesIn.length / 2 then pure ⟨-1, outLen, samplesOut, st⟩
    else do
      let out ← call down samplesIn samplesIn.length samplesOut st
      pure ⟨0, samplesIn.length / 2, out.1, out.2⟩
  | .mode3To1, st, samplesIn, samplesOut, outLen =>
    if samplesIn.length % 480 ≠ 0 then pure ⟨-1, outLen, samplesOut, st⟩
    else if samplesOut.length < samplesIn.length / 3 then pure ⟨-1, outLen, samplesOut, st⟩
    else do
      let out ← blockLoop block48To16 480 (fun i => i / 3) samplesIn samplesIn.length
        samplesOut st
      pure ⟨0, samplesIn.length / 3, out.1, out.2⟩
  | .mode4To1, (state1, state2), samplesIn, samplesOut, outLen =>
    if samplesOut.length < samplesIn.length / 4
      then pure ⟨-1, outLen, samplesOut, (state1, state2)⟩
    else do
      let tmp ← call down samplesIn samplesIn.length (alloc (samplesIn.length / 2)) state1
      let out ← call down tmp.1 (samplesIn.length / 2) samplesOut state2
      pure ⟨0, samplesIn.length / 4, out.1, (tmp.2, out.2)⟩
  | .mode6To1, (state1, state2), samplesIn, samplesOut, outLen =>
    if samplesIn.length % 480 ≠ 0 then pure ⟨-1, outLen, samplesOut, (state1, state2)⟩
    else if samplesOut.length < samplesIn.length / 6
      then pure ⟨-1, outLen, samplesOut, (state1, state2)⟩
    else do
      let tmp ← blockLoop block48To16 480 (fun i => i / 3) samplesIn samplesIn.length
        (alloc (samplesIn.length / 3)) state1
      let out ← call down tmp.1 (samplesIn.length / 3) samplesOut state2
      pure ⟨0, samplesIn.length / 3 / 2, out.1, (tmp.2, out.2)⟩
  | .mode12To1, (state1, state2, state3), samplesIn, samplesOut, outLen =>
    if samplesIn.length % 480 ≠ 0 then pure ⟨-1, outLen, samplesOut, (state1, state2, state3)⟩
    else if samplesOut.length < samplesIn.length / 12
      then pure ⟨-1, outLen, samplesOut, (state1, state2, state3)⟩
    else do
      let tmp ← blockLoop block48To16 480 (fun i => i / 3) samplesIn samplesIn.length
        (alloc (samplesIn.length / 3)) state1
      let tmp_2 ← call down tmp.1 (samplesIn.length / 3) (alloc (samplesIn.length / 6)) state2
      let out ← call down tmp_2.1 (samplesIn.length / 3 / 2) samplesOut state3
      pure ⟨0, samplesIn.length / 3 / 2 / 2, out.1, (tmp.2, tmp_2.2, out.2)⟩
  | .mode3To2, (state1, state2), samplesIn, samplesOut, outLen =>
    if samplesOut.length < samplesIn.length * 2 / 3
      then pure ⟨-1, outLen, samplesOut, (state1, state2)⟩
    else do
      let tmp ← call up samplesIn samplesIn.length (alloc (samplesIn.length * 2)) state1
      -- the length is checked after the first stage
      if samplesIn.length * 2 % 480 ≠ 0 then pure ⟨-1, outLen, samplesOut, (tmp.2, state2)⟩
      else do
        let out ← blockLoop block48To16 480 (fun i => i / 3) tmp.1 (samplesIn.length * 2)
          samplesOut state2
        pure ⟨0, samplesIn.length * 2 / 3, out.1, (tmp.2, out.2)⟩
  | .mode11To2, (state1, state2), samplesIn, samplesOut, outLen =>
    if samplesIn.length % 220 ≠ 0 then pure ⟨-1, outLen, samplesOut, (state1, state2)⟩
    else if samplesOut.length < samplesIn.length * 2 / 11
      then pure ⟨-1, outLen, samplesOut, (state1, state2)⟩
    else do
      let tmp ← blockLoop block22To8 220 (fun i => i * 4 / 11) samplesIn samplesIn.length
        (alloc (samplesIn.length * 4 / 11)) state1
      let out ← call down tmp.1 (samplesIn.length * 4 / 11) samplesOut state2
      pure ⟨0, samplesIn.length * 4 / 11 / 2, out.1, (tmp.2, out.2)⟩
  | .mode11To4, st, samplesIn, samplesOut, outLen =>
    if samplesIn.length % 220 ≠ 0 then pure ⟨-1, outLen, samplesOut, st⟩
    else if samplesOut.length < samplesIn.length * 4 / 11 then pure ⟨-1, outLen, samplesOut, st⟩
    else do
      let out ← blockLoop block22To8 220 (fun i => i * 4 / 11) samplesIn samplesIn.length
        samplesOut st
      pure ⟨0, samplesIn.length * 4 / 11, out.1, out.2⟩
  | .mode11To8, st, samplesIn, samplesOut, outLen =>
    if samplesIn.length % 220 ≠ 0 then pure ⟨-1, outLen, samplesOut, st⟩
    else if samplesOut.length < samplesIn.length * 8 / 11 then pure ⟨-1, outLen, samplesOut, st⟩
    else do
      let out ← blockLoop block22To16 220 (fun i => i * 8 / 11) samplesIn samplesIn.length
        samplesOut st
      pure ⟨0, samplesIn.length * 8 / 11, out.1, out.2⟩

/-- The states of a resampler: its own, and those of the two mono resamplers
it has for stereo. Its own are not used then. -/
inductive Channels (mode : ResamplerMode) where
  | mono (state : mode.State)
  | stereo (state slave_left slave_right : mode.State)

namespace Channels

variable {mode : ResamplerMode}

def isStereo : Channels mode → Bool
  | mono _ => false
  | stereo _ _ _ => true

/-- `Push` for two channels: the samples are dealt out in turns to the two
mono resamplers. The loop that deals them out takes two a turn as long as
there is one, and the arrays it fills have room for half of them. -/
def pushStereo (slave_left slave_right : mode.State) (samplesIn samplesOut : List Int)
    (outLen : ℕ) : Chk (Pushed (mode.State × mode.State)) := do
  let dealt ← flag ((samplesIn.length + 1) / 2 * 2 ≤ samplesIn.length) (everyOther samplesIn)
  let left ← pushMono mode slave_left dealt.1 (alloc (samplesOut.length / 2)) 0
  let right ← pushMono mode slave_right dealt.2 (alloc (samplesOut.length / 2)) 0
  if left.ret ≠ 0 ∨ right.ret ≠ 0 ∨ left.outLen ≠ right.outLen then
    pure ⟨-1, outLen, samplesOut, (left.state, right.state)⟩
  else do
    let out_left ← readAt left.samplesOut 0 left.outLen
    let out_right ← readAt right.samplesOut 0 left.outLen
    let out ← writeAt samplesOut 0 (inTurns out_left out_right)
    pure ⟨0, 2 * left.outLen, out, (left.state, right.state)⟩

/-- `Push`. -/
def push (samplesIn samplesOut : List Int) (outLen : ℕ) :
    Channels mode → Chk (Pushed (Channels mode))
  | mono state => do
    let r ← pushMono mode state samplesIn samplesOut outLen
    pure ⟨r.ret, r.outLen, r.samplesOut, .mono r.state⟩
  | stereo state slave_left slave_right => do
    let r ← pushStereo slave_left slave_right samplesIn samplesOut outLen
    pure ⟨r.ret, r.outLen, r.samplesOut, .stereo state r.state.1 r.state.2⟩

theorem isStereo_push (c : Channels mode) (samplesIn samplesOut : List Int) (outLen : ℕ) :
    (c.push samplesIn samplesOut outLen).val.state.isStereo = c.isStereo := by
  cases c <;> rfl

/-- The states after `Reset`. -/
def zero (mode : ResamplerMode) (num_channels : ℕ) : Channels mode :=
  if num_channels = 2 then .stereo mode.zero mode.zero mode.zero else .mono mode.zero

theorem isStereo_zero (mode : ResamplerMode) (num_channels : ℕ) :
    num_channels = 2 ↔ (zero mode num_channels).isStereo = true := by
  by_cases h : num_channels = 2 <;> simp [zero, isStereo, h]

end Channels

/-! ### The class -/

/-- `Resampler`. -/
structure Resampler where
  my_in_frequency_khz_ : Int
  my_out_frequency_khz_ : Int
  num_channels_ : ℕ
  my_mode_ : ResamplerMode
  channels : Channels my_mode_
  two : num_channels_ = 2 ↔ channels.isStereo = true

namespace Resampler

/-- The constructor without arguments. -/
def new : Resampler := ⟨0, 0, 0, .mode1To1, .mono (), by simp [Channels.isStereo]⟩

/-- `Reset`. -/
def reset (r : Resampler) (inFreq outFreq : Int) (num_channels : ℕ) : Chk (Int × Resampler) :=
  if num_channels ≠ 1 ∧ num_channels ≠ 2 then pure (-1, r)
  else do
    match ← computeResamplerMode inFreq outFreq with
    | none => pure (-1, r)
    | some mode =>
      pure (0, ⟨inFreq.tdiv 1000, outFreq.tdiv 1000, num_channels, mode, .zero mode num_channels,
        Channels.isStereo_zero mode num_channels⟩)

/-- What `Reset` does: it refuses the number of channels, it has no mode for the
frequencies, or it enters the mode. -/
theorem reset_cases (r : Resampler) (inFreq outFreq : Int) (num_channels : ℕ) :
    (num_channels ≠ 1 ∧ num_channels ≠ 2) ∧
      r.reset inFreq outFreq num_channels = pure (-1, r) ∨
        (num_channels = 1 ∨ num_channels = 2) ∧
          (r.reset inFreq outFreq num_channels).ok = (computeResamplerMode inFreq outFreq).ok ∧
        ((computeResamplerMode inFreq outFreq).val = none ∧
          (r.reset inFreq outFreq num_channels).val = (-1, r) ∨ ∃ mode,
            (computeResamplerMode inFreq outFreq).val = some mode ∧
              (r.reset inFreq outFreq num_channels).val =
            (0, ⟨inFreq.tdiv 1000, outFreq.tdiv 1000, num_channels, mode, .zero mode num_channels,
              Channels.isStereo_zero mode num_channels⟩)) := by
  by_cases hch : num_channels ≠ 1 ∧ num_channels ≠ 2
  · exact .inl ⟨hch, if_pos hch⟩
  · refine .inr ⟨by omega, ?_⟩
    rw [reset, if_neg hch, Chk.ok_bind, Chk.val_bind]
    cases (computeResamplerMode inFreq outFreq).val with
    | none => exact ⟨Bool.and_true _, .inl ⟨rfl, rfl⟩⟩
    | some mode => exact ⟨Bool.and_true _, .inr ⟨mode, rfl, rfl⟩⟩

/-- `ResetIfNeeded`: the frequencies are compared in kHz. -/
def resetIfNeeded (r : Resampler) (inFreq outFreq : Int) (num_channels : ℕ) :
    Chk (Int × Resampler) :=
  if inFreq.tdiv 1000 ≠ r.my_in_frequency_khz_ ∨
    outFreq.tdiv 1000 ≠ r.my_out_frequency_khz_ ∨ num_channels ≠ r.num_channels_ then
    r.reset inFreq outFreq num_channels
  else pure (0, r)

/-- `Push`. -/
def push (r : Resampler) (samplesIn samplesOut : List Int) (outLen : ℕ) :
    Chk (Pushed Resampler) :=
  let p := r.channels.push samplesIn samplesOut outLen
  ⟨⟨p.val.ret, p.val.outLen, p.val.samplesOut,
    { r with channels := p.val.state, two := by rw [Channels.isStereo_push]; exact r.two }⟩,
    p.ok⟩

end Resampler
end AgcSpec
