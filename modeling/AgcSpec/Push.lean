/-
# What one channel does with its samples

Every mode is a pipeline of stages (`ResamplerMode.stream`) and has a smallest
number of samples that come out even (`unit`, `unitOut`). On a multiple of it
that fits, `pushMono` is its pipeline (`pushMono_whole`): the scratch arrays
are large enough, no block is cut, and each stage gets what the one before it
wrote. Such inputs may be cut anywhere at a multiple (`chunks_stream`).

What each mode refuses is `Refuses`; a refusal costs nothing, but for the mode
from 3 to 2, which may have run its first filter (`Late`, `pushMono_refused`).
What is not refused is answered by the ratio of the mode, rounded down
(`pushMono_accepted`).
-/
import AgcSpec.Resampler

namespace AgcSpec

open FixedPoint Streams

namespace ResamplerMode

/-- The smallest number of samples a mode takes without a rest. -/
def unit : ResamplerMode → ℕ
  | mode1To1 | mode1To2 | mode1To4 => 1
  | mode2To1 => 2
  | mode4To1 => 4
  | mode1To12 => 40
  | mode1To6 | mode2To11 | mode4To11 => 80
  | mode11To16 | mode11To32 => 110
  | mode1To3 | mode2To3 | mode8To11 => 160
  | mode11To2 | mode11To4 | mode11To8 => 220
  | mode3To2 => 240
  | mode3To1 | mode6To1 | mode12To1 => 480

/-- What comes out for it. -/
def unitOut : ResamplerMode → ℕ
  | mode1To1 | mode2To1 | mode4To1 => 1
  | mode1To2 => 2
  | mode1To4 => 4
  | mode12To1 | mode11To2 => 40
  | mode6To1 | mode11To4 => 80
  | mode11To16 | mode3To1 | mode3To2 | mode11To8 => 160
  | mode4To11 | mode8To11 => 220
  | mode2To3 => 240
  | mode11To32 => 320
  | mode2To11 => 440
  | mode1To3 | mode1To6 | mode1To12 => 480

/-- The pipeline of a mode. -/
def stream : (mode : ResamplerMode) → Stage mode.State Int Int
  | mode1To1 => fun st xs => (xs, st)
  | mode1To2 => up
  | mode1To3 => blocks 160 block16To48
  | mode1To4 => up.comp up
  | mode1To6 => up.comp (blocks 160 block16To48)
  | mode1To12 => up.comp (up.comp (blocks 160 block16To48))
  | mode2To3 => (blocks 160 block16To48).comp down
  | mode2To11 => up.comp (blocks 80 block8To22)
  | mode4To11 => blocks 80 block8To22
  | mode8To11 => blocks 160 block16To22
  | mode11To16 => up.comp (blocks 220 block22To16)
  | mode11To32 => up.comp ((blocks 220 block22To16).comp up)
  | mode2To1 => down
  | mode3To1 => blocks 480 block48To16
  | mode4To1 => down.comp down
  | mode6To1 => (blocks 480 block48To16).comp down
  | mode12To1 => (blocks 480 block48To16).comp (down.comp down)
  | mode3To2 => up.comp (blocks 480 block48To16)
  | mode11To2 => (blocks 220 block22To8).comp down
  | mode11To4 => blocks 220 block22To8
  | mode11To8 => blocks 220 block22To16

theorem unitOut_mul (mode : ResamplerMode) :
    mode.unitOut * mode.inPart = mode.unit * mode.outPart := by
  cases mode <;> rfl

end ResamplerMode

/-! ### Stages of the modes -/

theorem rate_16To48 : Rate 160 480 (blocks 160 block16To48) :=
  rate_blocks (by decide) fun s xs _ => length_block16To48 s xs
theorem rate_48To16 : Rate 480 160 (blocks 480 block48To16) :=
  rate_blocks (by decide) fun s xs _ => length_block48To16 s xs
theorem rate_22To16 : Rate 220 160 (blocks 220 block22To16) :=
  rate_blocks (by decide) fun s _ h => length_block22To16 s h
theorem rate_16To22 : Rate 160 220 (blocks 160 block16To22) :=
  rate_blocks (by decide) fun s _ h => length_block16To22 s h
theorem rate_22To8 : Rate 220 80 (blocks 220 block22To8) :=
  rate_blocks (by decide) fun s _ h => length_block22To8 s h
theorem rate_8To22 : Rate 80 220 (blocks 80 block8To22) :=
  rate_blocks (by decide) fun s _ h => length_block8To22 s h

theorem rate_stream (mode : ResamplerMode) : Rate mode.unit mode.unitOut mode.stream := by
  cases mode with
  | mode1To1 => exact fun k st xs hxs => hxs
  | mode1To2 => exact rate_up
  | mode1To3 => exact rate_16To48
  | mode1To4 => exact rate_up.comp (rate_up.scale 2)
  | mode1To6 => exact (rate_up.scale 80).comp rate_16To48
  | mode1To12 => exact (rate_up.scale 40).comp ((rate_up.scale 80).comp rate_16To48)
  | mode2To3 => exact rate_16To48.comp (rate_down.scale 240)
  | mode2To11 => exact (rate_up.scale 80).comp (rate_8To22.scale 2)
  | mode4To11 => exact rate_8To22
  | mode8To11 => exact rate_16To22
  | mode11To16 => exact (rate_up.scale 110).comp rate_22To16
  | mode11To32 => exact (rate_up.scale 110).comp (rate_22To16.comp (rate_up.scale 160))
  | mode2To1 => exact rate_down
  | mode3To1 => exact rate_48To16
  | mode4To1 => exact (rate_down.scale 2).comp rate_down
  | mode6To1 => exact rate_48To16.comp (rate_down.scale 80)
  | mode12To1 => exact rate_48To16.comp ((rate_down.scale 80).comp (rate_down.scale 40))
  | mode3To2 => exact (rate_up.scale 240).comp rate_48To16
  | mode11To2 => exact rate_22To8.comp (rate_down.scale 40)
  | mode11To4 => exact rate_22To8
  | mode11To8 => exact rate_22To16

theorem chunks_stream (mode : ResamplerMode) : Chunks mode.unit mode.stream := by
  have hup : ∀ m, Chunks m up := fun m => chunks_up.of_dvd (one_dvd m)
  have hdown : ∀ m, Chunks (m * 2) down := fun m => chunks_down.of_dvd (dvd_mul_left 2 m)
  cases mode with
  | mode1To1 => exact fun st xs ys _ _ => rfl
  | mode1To2 => exact chunks_up
  | mode1To3 => exact chunks_blocks (by decide) _
  | mode1To4 => exact chunks_up.comp rate_up (hup 2)
  | mode1To6 => exact (hup 80).comp (rate_up.scale 80) (chunks_blocks (by decide) _)
  | mode1To12 =>
    exact (hup 40).comp (rate_up.scale 40)
      ((hup 80).comp (rate_up.scale 80) (chunks_blocks (by decide) _))
  | mode2To3 => exact (chunks_blocks (by decide) _).comp rate_16To48 (hdown 240)
  | mode2To11 =>
    exact (hup 80).comp (rate_up.scale 80)
      ((chunks_blocks (by decide) _).of_dvd (dvd_mul_left 80 2))
  | mode4To11 => exact chunks_blocks (by decide) _
  | mode8To11 => exact chunks_blocks (by decide) _
  | mode11To16 => exact (hup 110).comp (rate_up.scale 110) (chunks_blocks (by decide) _)
  | mode11To32 =>
    exact (hup 110).comp (rate_up.scale 110)
      ((chunks_blocks (by decide) _).comp rate_22To16 (hup 160))
  | mode2To1 => exact chunks_down
  | mode3To1 => exact chunks_blocks (by decide) _
  | mode4To1 => exact (hdown 2).comp (rate_down.scale 2) chunks_down
  | mode6To1 => exact (chunks_blocks (by decide) _).comp rate_48To16 (hdown 80)
  | mode12To1 =>
    exact (chunks_blocks (by decide) _).comp rate_48To16
      ((hdown 80).comp (rate_down.scale 80) (hdown 40))
  | mode3To2 => exact (hup 240).comp (rate_up.scale 240) (chunks_blocks (by decide) _)
  | mode11To2 => exact (chunks_blocks (by decide) _).comp rate_22To8 (hdown 40)
  | mode11To4 => exact chunks_blocks (by decide) _
  | mode11To8 => exact chunks_blocks (by decide) _

/-! ### Calls -/

section

variable {src xs dst : List Int} {n k : ℕ}

theorem length_alloc (n : ℕ) : (alloc n).length = n := List.length_replicate

theorem call_up {s : FiltState} (hsrc : xs <+: src) (hn : n = xs.length)
    (hdst : xs.length * 2 ≤ dst.length) :
    call up src n dst s = pure ((up s xs).1 ++ dst.drop (xs.length * 2), (up s xs).2) := by
  rw [call_eq up hsrc hn (by rw [length_up]; exact hdst), length_up]

theorem call_down {s : FiltState} (hsrc : xs <+: src) (hn : n = xs.length)
    (hdst : xs.length / 2 ≤ dst.length) :
    call down src n dst s = pure ((down s xs).1 ++ dst.drop (xs.length / 2), (down s xs).2) := by
  rw [call_eq down hsrc hn (by rw [length_down]; exact hdst), length_down]

theorem loop_16To48 {s : State16khzTo48khz} (hsrc : xs <+: src) (hn : n = xs.length)
    (hk : xs.length = k * 160) (hdst : k * 480 ≤ dst.length) :
    blockLoop block16To48 160 (fun i => i * 3) src n dst s =
      pure ((blocks 160 block16To48 s xs).1 ++ dst.drop (k * 480),
        (blocks 160 block16To48 s xs).2) :=
  blockLoop_eq _ (by decide) (fun s xs _ => length_block16To48 s xs)
    (fun j => by omega) hsrc hn hk hdst

theorem loop_48To16 {s : State48khzTo16khz} (hsrc : xs <+: src) (hn : n = xs.length)
    (hk : xs.length = k * 480) (hdst : k * 160 ≤ dst.length) :
    blockLoop block48To16 480 (fun i => i / 3) src n dst s =
      pure ((blocks 480 block48To16 s xs).1 ++ dst.drop (k * 160),
        (blocks 480 block48To16 s xs).2) :=
  blockLoop_eq _ (by decide) (fun s xs _ => length_block48To16 s xs)
    (fun j => by omega) hsrc hn hk hdst

theorem loop_8To22 {s : State8khzTo22khz} (hsrc : xs <+: src) (hn : n = xs.length)
    (hk : xs.length = k * 80) (hdst : k * 220 ≤ dst.length) :
    blockLoop block8To22 80 (fun i => i * 11 / 4) src n dst s =
      pure ((blocks 80 block8To22 s xs).1 ++ dst.drop (k * 220), (blocks 80 block8To22 s xs).2) :=
  blockLoop_eq _ (by decide) (fun s _ h => length_block8To22 s h)
    (fun j => by omega) hsrc hn hk hdst

theorem loop_16To22 {s : State16khzTo22khz} (hsrc : xs <+: src) (hn : n = xs.length)
    (hk : xs.length = k * 160) (hdst : k * 220 ≤ dst.length) :
    blockLoop block16To22 160 (fun i => i * 11 / 8) src n dst s =
      pure ((blocks 160 block16To22 s xs).1 ++ dst.drop (k * 220),
        (blocks 160 block16To22 s xs).2) :=
  blockLoop_eq _ (by decide) (fun s _ h => length_block16To22 s h)
    (fun j => by omega) hsrc hn hk hdst

theorem loop_22To8 {s : State22khzTo8khz} (hsrc : xs <+: src) (hn : n = xs.length)
    (hk : xs.length = k * 220) (hdst : k * 80 ≤ dst.length) :
    blockLoop block22To8 220 (fun i => i * 4 / 11) src n dst s =
      pure ((blocks 220 block22To8 s xs).1 ++ dst.drop (k * 80), (blocks 220 block22To8 s xs).2) :=
  blockLoop_eq _ (by decide) (fun s _ h => length_block22To8 s h)
    (fun j => by omega) hsrc hn hk hdst

/-- This one has its offset in two forms. -/
theorem loop_22To16 {s : State22khzTo16khz} {off : ℕ → ℕ}
    (hoff : ∀ j, off (j * 220) = j * 160) (hsrc : xs <+: src) (hn : n = xs.length)
    (hk : xs.length = k * 220) (hdst : k * 160 ≤ dst.length) :
    blockLoop block22To16 220 off src n dst s =
      pure ((blocks 220 block22To16 s xs).1 ++ dst.drop (k * 160),
        (blocks 220 block22To16 s xs).2) :=
  blockLoop_eq _ (by decide) (fun s _ h => length_block22To16 s h) hoff hsrc hn hk hdst

/-- What was written at first is gone when more is written over it. -/
theorem drop_overwritten {zs : List Int} {m : ℕ} (h : zs.length ≤ m) :
    (zs ++ dst.drop zs.length).drop m = dst.drop m := by
  rw [List.drop_append, List.drop_eq_nil_of_le h, List.nil_append, List.drop_drop,
    Nat.add_sub_cancel' h]

end

open ResamplerMode

/-- The decimators take any length; a rest is dropped. -/
theorem pushMono_2To1 (st : mode2To1.State) {xs out : List Int} (len : ℕ)
    (h : xs.length / 2 ≤ out.length) :
    pushMono mode2To1 st xs out len =
      pure ⟨0, xs.length / 2, (down st xs).1 ++ out.drop (xs.length / 2), (down st xs).2⟩ := by
  rw [pushMono, if_neg (by omega), call_down (List.prefix_refl xs) rfl h, pure_bind]

theorem pushMono_4To1 (st : mode4To1.State) {xs out : List Int} (len : ℕ)
    (h : xs.length / 4 ≤ out.length) :
    pushMono mode4To1 st xs out len =
      pure ⟨0, xs.length / 4, (down.comp down st xs).1 ++ out.drop (xs.length / 4),
        (down.comp down st xs).2⟩ := by
  obtain ⟨s1, s2⟩ := st
  have hmid := length_down xs s1
  rw [pushMono, if_neg (by omega),
    call_down (List.prefix_refl xs) rfl
      (show xs.length / 2 ≤ (alloc (xs.length / 2)).length by rw [length_alloc]),
    pure_bind, call_down (List.prefix_append _ _) hmid.symm (show _ ≤ out.length by omega),
    pure_bind, hmid, Nat.div_div_eq_div_mul]
  rfl

/-- On a multiple of its unit that fits, a mode is its pipeline. -/
theorem pushMono_whole (mode : ResamplerMode) (st : mode.State) {xs out : List Int}
    (len : ℕ) {k : ℕ} (hn : xs.length = k * mode.unit)
    (hfit : k * mode.unitOut ≤ out.length) :
    pushMono mode st xs out len =
      pure ⟨0, k * mode.unitOut, (mode.stream st xs).1 ++ out.drop (k * mode.unitOut),
      (mode.stream st xs).2⟩ := by
  cases mode with
  | mode1To1 =>
    simp only [unit, unitOut, mul_one] at hn hfit ⊢
    rw [pushMono, writeAt_zero (by omega), pure_bind, hn]
    rfl
  | mode1To2 =>
    simp only [unit, unitOut, mul_one] at hn hfit ⊢
    rw [pushMono, if_neg (by omega), call_up (List.prefix_refl xs) rfl
      (show xs.length * 2 ≤ out.length by omega), pure_bind, hn]
    rfl
  | mode1To3 =>
    simp only [unit, unitOut] at hn hfit ⊢
    rw [pushMono, if_neg (by omega), if_neg (by omega),
      loop_16To48 (List.prefix_refl xs) rfl hn hfit, pure_bind, show xs.length * 3 =
        k * 480 by omega]
    rfl
  | mode1To4 =>
    simp only [unit, unitOut, mul_one] at hn hfit ⊢
    obtain ⟨s1, s2⟩ := st
    have hmid := length_up xs s1
    rw [pushMono, if_neg (by omega),
      call_up (List.prefix_refl xs) rfl
        (show xs.length * 2 ≤ (alloc (2 * xs.length)).length by rw [length_alloc]; omega),
      pure_bind, call_up (List.prefix_append _ _) hmid.symm (show _ ≤ out.length by omega),
      pure_bind, hmid, show xs.length * 4 = k * 4 by omega, show xs.length * 2 * 2 = k * 4 by omega]
    rfl
  | mode1To6 =>
    simp only [unit, unitOut] at hn hfit ⊢
    obtain ⟨s1, s2⟩ := st
    have hmid := length_up xs s1
    rw [pushMono, if_neg (by omega), if_neg (by omega),
      call_up (List.prefix_refl xs) rfl
        (show xs.length * 2 ≤ (alloc (2 * xs.length)).length by rw [length_alloc]; omega),
      pure_bind, loop_16To48 (k := k) (List.prefix_append _ _) hmid.symm (by omega) hfit, pure_bind,
      show xs.length * 2 * 3 = k * 480 by omega]
    rfl
  | mode1To12 =>
    simp only [unit, unitOut] at hn hfit ⊢
    obtain ⟨s1, s2, s3⟩ := st
    have hmid := length_up xs s1
    have hmid2 := length_up (up s1 xs).1 s2
    have hfirst : ((up s1 xs).1 ++ out.drop (xs.length * 2)).length = out.length := by
      rw [List.length_append, List.length_drop]
      omega
    rw [pushMono, if_neg (by omega), if_neg (by omega),
      call_up (List.prefix_refl xs) rfl (show xs.length * 2 ≤ out.length by omega), pure_bind,
      call_up (List.prefix_append _ _) hmid.symm
        (show _ ≤ (alloc (4 * xs.length)).length by rw [length_alloc]; omega),
      pure_bind, loop_16To48 (k := k) (List.prefix_append _ _) (by omega) (by omega)
        (show _ ≤ ((up s1 xs).1 ++ out.drop (xs.length * 2)).length by omega),
      pure_bind, show xs.length * 2 * 2 * 3 = k * 480 by omega, ← hmid,
      drop_overwritten (by omega)]
    rfl
  | mode2To3 =>
    simp only [unit, unitOut] at hn hfit ⊢
    obtain ⟨s1, s2⟩ := st
    have hmid := rate_16To48 k s1 xs hn
    rw [pushMono, if_neg (by omega), if_neg (by omega),
      loop_16To48 (List.prefix_refl xs) rfl hn
        (show k * 480 ≤ (alloc (xs.length * 3)).length by rw [length_alloc]; omega),
      pure_bind, call_down (List.prefix_append _ _) (by omega) (show _ ≤ out.length by omega),
      pure_bind, hmid, show xs.length * 3 / 2 = k * 240 by omega, show k * 480 / 2 =
        k * 240 by omega]
    rfl
  | mode2To11 =>
    simp only [unit, unitOut] at hn hfit ⊢
    obtain ⟨s1, s2⟩ := st
    have hmid := length_up xs s1
    rw [pushMono, if_neg (by omega), if_neg (by omega),
      call_up (List.prefix_refl xs) rfl
        (show xs.length * 2 ≤ (alloc (2 * xs.length)).length by rw [length_alloc]; omega),
      pure_bind, loop_8To22 (k := k * 2) (List.prefix_append _ _) hmid.symm (by omega)
        (show _ ≤ out.length by omega),
      pure_bind, show xs.length * 2 * 11 / 4 = k * 440 by omega, show k * 2 * 220 =
        k * 440 by omega]
    rfl
  | mode4To11 =>
    simp only [unit, unitOut] at hn hfit ⊢
    rw [pushMono, if_neg (by omega), if_neg (by omega),
      loop_8To22 (List.prefix_refl xs) rfl hn hfit, pure_bind, show xs.length * 11 / 4 =
        k * 220 by omega]
    rfl
  | mode8To11 =>
    simp only [unit, unitOut] at hn hfit ⊢
    rw [pushMono, if_neg (by omega), if_neg (by omega),
      loop_16To22 (List.prefix_refl xs) rfl hn hfit, pure_bind, show xs.length * 11 / 8 =
        k * 220 by omega]
    rfl
  | mode11To16 =>
    simp only [unit, unitOut] at hn hfit ⊢
    obtain ⟨s1, s2⟩ := st
    have hmid := length_up xs s1
    rw [pushMono, if_neg (by omega), if_neg (by omega),
      call_up (List.prefix_refl xs) rfl
        (show xs.length * 2 ≤ (alloc (xs.length * 2)).length by rw [length_alloc]),
      pure_bind, loop_22To16 (k := k) (fun j => by omega) (List.prefix_append _ _) hmid.symm
        (by omega) hfit, pure_bind,
      show xs.length * 16 / 11 = k * 160 by omega]
    rfl
  | mode11To32 =>
    simp only [unit, unitOut] at hn hfit ⊢
    obtain ⟨s1, s2, s3⟩ := st
    have hmid := length_up xs s1
    have hmid2 := rate_22To16 k s2 (up s1 xs).1 (by omega)
    have hfirst : ((up s1 xs).1 ++ out.drop (xs.length * 2)).length = out.length := by
      rw [List.length_append, List.length_drop]
      omega
    rw [pushMono, if_neg (by omega), if_neg (by omega),
      call_up (List.prefix_refl xs) rfl (show xs.length * 2 ≤ out.length by omega), pure_bind,
      loop_22To16 (k := k) (fun j => by omega) (List.prefix_append _ _) hmid.symm (by omega)
        (show _ ≤ (alloc (xs.length * 2)).length by rw [length_alloc]; omega),
      pure_bind, call_up (List.prefix_append _ _) (by omega)
        (show _ ≤ ((up s1 xs).1 ++ out.drop (xs.length * 2)).length by omega),
      pure_bind, hmid2, ← hmid, drop_overwritten (by omega), show xs.length * 32 / 11 =
        k * 320 by omega,
      show k * 160 * 2 = k * 320 by omega]
    rfl
  | mode2To1 =>
    simp only [unit, unitOut, mul_one] at hn hfit ⊢
    have hk : xs.length / 2 = k := by omega
    rw [pushMono_2To1 st len (by omega), hk]
    rfl
  | mode3To1 =>
    simp only [unit, unitOut] at hn hfit ⊢
    rw [pushMono, if_neg (by omega), if_neg (by omega),
      loop_48To16 (List.prefix_refl xs) rfl hn hfit, pure_bind, show xs.length / 3 =
        k * 160 by omega]
    rfl
  | mode4To1 =>
    simp only [unit, unitOut, mul_one] at hn hfit ⊢
    have hk : xs.length / 4 = k := by omega
    rw [pushMono_4To1 st len (by omega), hk]
    rfl
  | mode6To1 =>
    simp only [unit, unitOut] at hn hfit ⊢
    obtain ⟨s1, s2⟩ := st
    have hmid := rate_48To16 k s1 xs hn
    rw [pushMono, if_neg (by omega), if_neg (by omega),
      loop_48To16 (List.prefix_refl xs) rfl hn
        (show k * 160 ≤ (alloc (xs.length / 3)).length by rw [length_alloc]; omega),
      pure_bind, call_down (List.prefix_append _ _) (by omega) (show _ ≤ out.length by omega),
      pure_bind, hmid, show xs.length / 3 / 2 = k * 80 by omega, show k * 160 / 2 = k * 80 by omega]
    rfl
  | mode12To1 =>
    simp only [unit, unitOut] at hn hfit ⊢
    obtain ⟨s1, s2, s3⟩ := st
    have hmid := rate_48To16 k s1 xs hn
    have hmid2 := length_down (blocks 480 block48To16 s1 xs).1 s2
    rw [pushMono, if_neg (by omega), if_neg (by omega),
      loop_48To16 (List.prefix_refl xs) rfl hn
        (show k * 160 ≤ (alloc (xs.length / 3)).length by rw [length_alloc]; omega),
      pure_bind, call_down (List.prefix_append _ _) (by omega)
        (show _ ≤ (alloc (xs.length / 6)).length by rw [length_alloc]; omega),
      pure_bind, call_down (List.prefix_append _ _) (by omega) (show _ ≤ out.length by omega),
      pure_bind, hmid2, hmid, show xs.length / 3 / 2 / 2 = k * 40 by omega, show k * 160 / 2 / 2 =
        k * 40 by omega]
    rfl
  | mode3To2 =>
    simp only [unit, unitOut] at hn hfit ⊢
    obtain ⟨s1, s2⟩ := st
    have hmid := length_up xs s1
    rw [pushMono, if_neg (by omega),
      call_up (List.prefix_refl xs) rfl
        (show xs.length * 2 ≤ (alloc (xs.length * 2)).length by rw [length_alloc]),
      pure_bind, if_neg (by omega), loop_48To16 (k := k) (List.prefix_append _ _) hmid.symm
        (by omega) hfit, pure_bind,
      show xs.length * 2 / 3 = k * 160 by omega]
    rfl
  | mode11To2 =>
    simp only [unit, unitOut] at hn hfit ⊢
    obtain ⟨s1, s2⟩ := st
    have hmid := rate_22To8 k s1 xs hn
    rw [pushMono, if_neg (by omega), if_neg (by omega),
      loop_22To8 (List.prefix_refl xs) rfl hn
        (show k * 80 ≤ (alloc (xs.length * 4 / 11)).length by rw [length_alloc]; omega),
      pure_bind, call_down (List.prefix_append _ _) (by omega) (show _ ≤ out.length by omega),
      pure_bind, hmid, show xs.length * 4 / 11 / 2 = k * 40 by omega, show k * 80 / 2 =
        k * 40 by omega]
    rfl
  | mode11To4 =>
    simp only [unit, unitOut] at hn hfit ⊢
    rw [pushMono, if_neg (by omega), if_neg (by omega),
      loop_22To8 (List.prefix_refl xs) rfl hn hfit, pure_bind, show xs.length * 4 / 11 =
        k * 80 by omega]
    rfl
  | mode11To8 =>
    simp only [unit, unitOut] at hn hfit ⊢
    rw [pushMono, if_neg (by omega), if_neg (by omega),
      loop_22To16 (fun j => by omega) (List.prefix_refl xs) rfl hn hfit, pure_bind,
      show xs.length * 8 / 11 = k * 160 by omega]
    rfl

/-! ### What `Push` refuses -/

/-- What a mode checks the length of its input against. -/
def ResamplerMode.checked : ResamplerMode → ℕ
  | mode2To1 | mode4To1 => 1
  | mode => mode.unit

/-- The inputs a mode refuses: with a rest, or without room for the output. It
does not ask for room where it only copies. -/
def Refuses (mode : ResamplerMode) (n maxLen : ℕ) : Prop :=
  n % mode.checked ≠ 0 ∨ (mode ≠ mode1To1 ∧ maxLen < n * mode.outPart / mode.inPart)

/-- The ones refused after the first stage. -/
def Late (mode : ResamplerMode) (n maxLen : ℕ) : Prop :=
  mode = mode3To2 ∧ n * 2 / 3 ≤ maxLen ∧ n * 2 % 480 ≠ 0

instance (mode : ResamplerMode) (n maxLen : ℕ) : Decidable (Late mode n maxLen) :=
  inferInstanceAs (Decidable (_ ∧ _))

theorem refuse_of {α : Type} {c d : Prop} [Decidable c] [Decidable d] (h : c ∨ d) (r a : α) :
    (if c then r else if d then r else a) = r := by
  by_cases hc : c
  · exact if_pos hc
  · rw [if_neg hc, if_pos (h.resolve_left hc)]

/-- The first filter of the mode from 3 to 2 has run when its length is checked. -/
theorem pushMono_late (st : mode3To2.State) {xs out : List Int} (len : ℕ)
    (hroom : xs.length * 2 / 3 ≤ out.length) (hrest : xs.length * 2 % 480 ≠ 0) :
    pushMono mode3To2 st xs out len = pure ⟨-1, len, out, ((up st.1 xs).2, st.2)⟩ := by
  obtain ⟨s1, s2⟩ := st
  rw [pushMono, if_neg (by omega),
    call_up (List.prefix_refl xs) rfl
      (show xs.length * 2 ≤ (alloc (xs.length * 2)).length by rw [length_alloc]),
    pure_bind, if_pos hrest]

theorem pushMono_refused (mode : ResamplerMode) (st : mode.State) (xs out : List Int) (len : ℕ)
    (h : Refuses mode xs.length out.length) :
    ∃ st', pushMono mode st xs out len = pure ⟨-1, len, out, st'⟩ ∧
      (¬ Late mode xs.length out.length → st' = st) := by
  simp only [Refuses, checked] at h
  cases mode with
  | mode1To1 => simp [unit, Nat.mod_one] at h
  | mode3To2 =>
    simp only [unit, inPart, outPart, ne_eq, reduceCtorEq, not_false_eq_true, true_and] at h
    by_cases hroom : out.length < xs.length * 2 / 3
    · exact ⟨st, by rw [pushMono, if_pos hroom], fun _ => rfl⟩
    · have hrest : xs.length * 2 % 480 ≠ 0 := by omega
      exact ⟨_, pushMono_late st len (by omega) hrest, fun hlate =>
        absurd ⟨rfl, by omega, hrest⟩ hlate⟩
  | mode1To2 =>
    exact ⟨st, by rw [pushMono, if_pos (by simp [unit, inPart, outPart] at h; omega)],
      fun _ => rfl⟩
  | mode1To4 =>
    exact ⟨st, by rw [pushMono, if_pos (by simp [unit, inPart, outPart] at h; omega)],
      fun _ => rfl⟩
  | mode2To1 =>
    exact ⟨st, by rw [pushMono, if_pos (by simp [inPart, outPart] at h; omega)], fun _ => rfl⟩
  | mode4To1 =>
    exact ⟨st, by rw [pushMono, if_pos (by simp [inPart, outPart] at h; omega)], fun _ => rfl⟩
  | _ =>
    exact ⟨st, by rw [pushMono, refuse_of (by simp [unit, inPart, outPart] at h ⊢; omega)],
      fun _ => rfl⟩

/-! ### What `Push` accepts -/

/-- Inputs without a rest, and room for what comes out. -/
def Whole (mode : ResamplerMode) (n maxLen : ℕ) : Prop :=
  mode.unit ∣ n ∧ n * mode.outPart / mode.inPart ≤ maxLen

theorem inPart_pos (mode : ResamplerMode) : 0 < mode.inPart := by
  cases mode <;> decide

theorem outPart_pos (mode : ResamplerMode) : 0 < mode.outPart := by
  cases mode <;> decide

theorem mul_unit (mode : ResamplerMode) (k : ℕ) :
    k * mode.unit * mode.outPart / mode.inPart = k * mode.unitOut := by
  rw [mul_assoc, ← mode.unitOut_mul, ← mul_assoc, Nat.mul_div_cancel _ (inPart_pos mode)]

theorem pushMono_of_whole (mode : ResamplerMode) (st : mode.State) (xs out : List Int) (len : ℕ)
    (h : Whole mode xs.length out.length) :
    pushMono mode st xs out len = pure ⟨0, (mode.stream st xs).1.length,
      (mode.stream st xs).1 ++ out.drop (mode.stream st xs).1.length, (mode.stream st xs).2⟩ := by
  obtain ⟨⟨k, hk⟩, hfit⟩ := h
  rw [mul_comm] at hk
  rw [hk, mul_unit] at hfit
  rw [rate_stream mode k st xs hk]
  exact pushMono_whole mode st len hk hfit

/-- What is not refused is accepted, with the samples its ratio gives. -/
theorem pushMono_accepted (mode : ResamplerMode) (st : mode.State) (xs out : List Int) (len : ℕ)
    (h : ¬ Refuses mode xs.length out.length) :
    (pushMono mode st xs out len).val.ret = 0 ∧
      (pushMono mode st xs out len).val.outLen = xs.length * mode.outPart / mode.inPart := by
  simp only [Refuses, not_or, not_not, not_and, not_lt] at h
  by_cases hone : mode = mode1To1
  · subst hone
    exact ⟨rfl, by simp only [inPart, outPart, mul_one, Nat.div_one]; rfl⟩
  · have hroom := h.2 hone
    by_cases hunit : mode.unit ∣ xs.length
    · have hwhole := pushMono_of_whole mode st xs out len ⟨hunit, hroom⟩
      obtain ⟨k, hk⟩ := hunit
      rw [mul_comm] at hk
      rw [hwhole, Chk.val_pure, hk, mul_unit]
      exact ⟨rfl, rate_stream mode k st xs hk⟩
    · have hmode : mode = mode2To1 ∨ mode = mode4To1 := by
        have hdvd := Nat.dvd_of_mod_eq_zero h.1
        cases mode with
        | mode2To1 => exact .inl rfl
        | mode4To1 => exact .inr rfl
        | _ => exact absurd hdvd hunit
      rcases hmode with rfl | rfl
      · rw [pushMono_2To1 st len (by simpa [inPart, outPart] using hroom)]
        exact ⟨rfl, by simp [inPart, outPart]⟩
      · rw [pushMono_4To1 st len (by simpa [inPart, outPart] using hroom)]
        exact ⟨rfl, by simp [inPart, outPart]⟩

theorem not_refuses_of_ret {mode : ResamplerMode} {st : mode.State} {xs out : List Int} {len : ℕ}
    (hret : (pushMono mode st xs out len).val.ret = 0) : ¬ Refuses mode xs.length out.length := by
  intro h
  obtain ⟨_, heq, _⟩ := pushMono_refused mode st xs out len h
  rw [heq] at hret
  cases hret

/-- Exactly the modes without a check of their own can accept what is not whole. -/
theorem whole_of_accounts {mode : ResamplerMode} {n maxLen : ℕ} (h : ¬ Refuses mode n maxLen)
    (hfits : n * mode.outPart / mode.inPart ≤ maxLen)
    (hrate : n * mode.outPart / mode.inPart * mode.inPart = n * mode.outPart) :
    Whole mode n maxLen := by
  refine ⟨?_, hfits⟩
  have hdvd := Nat.dvd_of_mod_eq_zero (not_not.mp (not_or.mp h).1)
  cases mode with
  | mode2To1 =>
    simp only [inPart, outPart, unit] at hrate ⊢
    omega
  | mode4To1 =>
    simp only [inPart, outPart, unit] at hrate ⊢
    omega
  | _ => exact hdvd

end AgcSpec
