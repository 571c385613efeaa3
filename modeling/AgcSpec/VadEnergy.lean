/-
# The energy of a frame in the voice activity detector

`WebRtcAgc_ProcessVad` cuts a frame into ten sub-frames, decimates each to
4 kHz, passes it through a first-order high-pass filter with a 16-bit state and
adds the squares of the output to an unsigned 32-bit sum. Here:

* the ten sub-frames are one pass over the frame: decimating it as a whole and
  filtering the 40 samples that gives, with the same flag (`vadSubframes_eq`);
* the filter's state keeps to 16 bits at both ends of the range
  (`nextState_range`), so its conversion loses nothing, and the sum of
  `floor(out * out / 64)` over 40 outputs keeps to 32 (`highPass_eq`);
* the five halvings of `vadZeros` count the leading zeros of the sum
  (`vadZeros_eq`).

So along every run from `WebRtcAgc_InitVad` the level of a frame is that of an
exact energy (`energy_exact`). Frames and runs of the detector are set up here;
the statistics that follow the energy are `AgcSpec.VadStats`.
-/
import AgcSpec.Vad
import AgcSpec.ResampleBy2
import AgcSpec.Lib.Run

namespace AgcSpec
namespace VadEnergy

open FixedPoint Runs

/-! ### Frames and runs -/

/-- A frame of 10 ms at 8 or 16 kHz. -/
structure VadFrame where
  samples : List Int
  length : samples.length = 80 ∨ samples.length = 160
  range : ∀ x ∈ samples, InI16 x

/-- A call of `WebRtcAgc_ProcessVad`. -/
def VadStep (v : AgcVad) (f : VadFrame) (v' : AgcVad) : Prop :=
  v' = (processVad v f.samples f.samples.length).val

/-- The state after the frame's energy, and before the statistics. -/
def heard (v : AgcVad) (f : VadFrame) : AgcVad :=
  let r := (vadSubframes f.samples.length 10 v.downState v.HPstate 0 f.samples).val
  { v with
    downState := r.1
    HPstate := r.2.1
    counter := if v.counter < kAvgDecayTime then v.counter + 1 else v.counter }

/-- The level of the frame in dB (Q10). -/
def level (v : AgcVad) (f : VadFrame) : Int :=
  i16 ((15 - (vadZeros
    (vadSubframes f.samples.length 10 v.downState v.HPstate 0 f.samples).val.2.2 : Int)) * 2 ^ 11)

theorem val_processVad (v : AgcVad) (f : VadFrame) : (processVad v f.samples f.samples.length).val =
    (voiceActivity (longTerm (shortTerm (heard v f) (level v f)).val (level v f)).val
      (level v f)).val := rfl

/-! ### The sub-frames -/

/-- The frame at 8 kHz. -/
def VadFrame.at8kHz (f : VadFrame) : List Int := if f.samples.length = 160 then halveRate f.samples
    else f.samples

/-- The 40 samples of the frame at 4 kHz. -/
def VadFrame.decimated (f : VadFrame) (v : AgcVad) : List Int :=
  (downsampleBy2 v.downState f.at8kHz).val.2

theorem halveRate_append :
    ∀ xs ys : List Int, 2 ∣ xs.length → halveRate (xs ++ ys) = halveRate xs ++ halveRate ys
  | [], _, _ => rfl
  | [_], _, h => by simp at h
  | _ :: _ :: xs, ys, h => by
    simp only [List.cons_append, halveRate,
      halveRate_append xs ys (by simp only [List.length_cons] at h; omega)]

theorem length_halveRate : ∀ xs : List Int, (halveRate xs).length = xs.length / 2
  | [] => rfl
  | [_] => by simp [halveRate]
  | _ :: _ :: xs => by
    simp only [halveRate, List.length_cons, length_halveRate xs]
    omega

theorem highPass_append : ∀ (xs ys : List Int) (hp nrg : Int),
    highPass hp nrg (xs ++ ys) = highPass hp nrg xs >>= fun e => highPass e.1 e.2 ys
  | [], _, _, _ => by simp only [highPass, List.nil_append, pure_bind]
  | _ :: xs, ys, _, _ => by
    simp only [highPass, List.cons_append, highPass_append xs ys, bind_assoc]

/-- The sub-frame loop as one pass. What is left of the frame is decimated as a
whole and then filtered; the loop does this in turns. -/
theorem vadSubframes_eq (n : ℕ) : ∀ (k : ℕ) (st : FiltState) (hp nrg : Int) (inp : List Int),
    inp.length = k * (if n = 160 then 16 else 8) →
    vadSubframes n k st hp nrg inp = do
      let d ← downsampleBy2 st (if n = 160 then halveRate inp else inp)
      let e ← highPass hp nrg d.2
      pure (d.1, e.1, e.2)
  | 0, _, _, _, inp, h => by
    obtain rfl : inp = [] := List.length_eq_zero_iff.mp (by rw [h, zero_mul])
    simp only [vadSubframes, halveRate, ite_self, downsampleBy2, highPass, pure_bind]
  | k + 1, st, hp, nrg, inp, h => by
    have hsplit : (if n = 160 then halveRate inp else inp) =
        (if n = 160 then halveRate (inp.take 16) else inp.take 8) ++
          (if n = 160 then halveRate (inp.drop (if n = 160 then 16 else 8))
            else inp.drop (if n = 160 then 16 else 8)) := by
      split
      · rw [← halveRate_append _ _ (by rw [List.length_take]; split at h <;> omega),
          List.take_append_drop]
      · rw [List.take_append_drop]
    have heven : 2 ∣ (if n = 160 then halveRate (inp.take 16) else inp.take 8).length := by
      split
      · rw [length_halveRate, List.length_take, h, if_pos ‹_›]
        omega
      · rw [List.length_take, h, if_neg ‹_›]
        omega
    rw [vadSubframes, hsplit, downsampleBy2_append _ _ _ heven]
    simp only [bind_assoc, pure_bind, highPass_append]
    refine bind_congr fun r => ?_
    -- the rest of the frame is decimated before the first part is filtered
    rw [Chk.bind_comm]
    refine bind_congr fun e => ?_
    rw [vadSubframes_eq n k r.1 e.1 e.2 _ (by rw [List.length_drop, h]; split <;> omega)]

theorem VadFrame.length_at8kHz (f : VadFrame) : f.at8kHz.length = 80 := by
  rw [VadFrame.at8kHz]
  split
  · rw [length_halveRate, ‹f.samples.length = 160›]
  · exact f.length.resolve_right ‹_›

theorem VadFrame.length_decimated (f : VadFrame) (v : AgcVad) : (f.decimated v).length = 40 := by
  have h := length_down f.at8kHz v.downState
  rw [f.length_at8kHz] at h
  exact h

theorem downsampleBy2_range : ∀ (xs : List Int) (st : FiltState),
    ∀ x ∈ (downsampleBy2 st xs).val.2, InI16 x
  | [], _, x, hx => by simp [downsampleBy2] at hx
  | [_], _, x, hx => by simp [downsampleBy2] at hx
  | _ :: _ :: xs, _, x, hx => by
    simp only [downsampleBy2, Chk.val_bind, Chk.val_pure, List.mem_cons] at hx
    rcases hx with rfl | hx
    · exact inI16_sat16 _
    · exact downsampleBy2_range xs _ x hx

/-! ### The filter -/

/-- The state of the filter after a sample, as an integer. -/
def nextState (hp b : Int) : Int := 600 * (b + hp) / 2 ^ 10 - b

/-- The outputs of the filter. -/
def outputs : Int → List Int → List Int
  | _, [] => []
  | hp, b :: bs => (b + hp) :: outputs (nextState hp b) bs

/-- The energy of the outputs. -/
def energy (hp : Int) (xs : List Int) : Int := ((outputs hp xs).map fun out => out * out / 64).sum

/-- The state does not leave the 16 bits: the weights of the old state and of
the sample add up to one, and the rounding is downwards. -/
theorem nextState_range {hp b : Int} (hhp : InI16 hp) (hb : InI16 b) : InI16 (nextState hp b) := by
  obtain ⟨h0, h1⟩ := hhp
  obtain ⟨hb0, hb1⟩ := hb
  rw [nextState]
  constructor <;> omega

theorem states_range : ∀ {xs : List Int} {hp : Int}, InI16 hp → (∀ b ∈ xs, InI16 b) →
    ∀ h ∈ xs.scanl nextState hp, InI16 h
  | [], hp, hhp, _, h, hh => by
    rw [List.scanl_nil, List.mem_singleton] at hh
    rwa [hh]
  | b :: xs, hp, hhp, hx, h, hh => by
    rw [List.scanl_cons, List.mem_cons] at hh
    rcases hh with rfl | hh
    · exact hhp
    · exact states_range (nextState_range hhp (hx b List.mem_cons_self))
        (fun c hc => hx c (List.mem_cons_of_mem b hc)) h hh

theorem foldl_range {xs : List Int} {hp : Int} (hhp : InI16 hp) (hx : ∀ b ∈ xs, InI16 b) :
    InI16 (xs.foldl nextState hp) :=
  List.foldlRecOn xs nextState hhp fun _ hacc b hb => nextState_range hacc (hx b hb)

/-- A square divided by 64, in the two parts of the source. -/
theorem square_split (out : Int) :
    0 ≤ out * out.tdiv 64 ∧ 0 ≤ out * out.tmod 64 ∧
      out * out.tdiv 64 + (out * out.tmod 64).tdiv 64 = out * out / 64 := by
  have hsum : out * out = out * out.tmod 64 + out * out.tdiv 64 * 64 := by
    nth_rewrite 2 [← Int.tmod_add_mul_tdiv out 64]
    ring
  have hq : 0 ≤ out * out.tdiv 64 := by
    rcases le_total 0 out with h | h
    · exact mul_nonneg h (by rw [tdiv_eq]; split <;> omega)
    · exact mul_nonneg_of_nonpos_of_nonpos h (by rw [tdiv_eq]; split <;> omega)
  have hr : 0 ≤ out * out.tmod 64 := by
    rcases le_total 0 out with h | h
    · exact mul_nonneg h (Int.tmod_nonneg _ h)
    · exact mul_nonneg_of_nonpos_of_nonpos h
        (by have := Int.tmod_nonneg 64 (show 0 ≤ -out by omega); rw [Int.neg_tmod] at this; omega)
  refine ⟨hq, hr, ?_⟩
  rw [hsum, Int.add_mul_ediv_right _ _ (by decide), Int.tdiv_eq_ediv_of_nonneg hr, add_comm]

theorem square_range {hp b : Int} (hhp : InI16 hp) (hb : InI16 b) :
    0 ≤ (b + hp) * (b + hp) ∧ (b + hp) * (b + hp) ≤ 2 ^ 32 := by
  obtain ⟨h0, h1⟩ := hhp
  obtain ⟨hb0, hb1⟩ := hb
  have := mul_range (x := b + hp) (y := b + hp) (X := 2 ^ 16) (Y := 2 ^ 16) ⟨by omega, by omega⟩
    ⟨by omega, by omega⟩
  exact ⟨mul_self_nonneg _, this.2⟩

theorem energy_range : ∀ {xs : List Int} {hp : Int}, InI16 hp → (∀ b ∈ xs, InI16 b) →
    0 ≤ energy hp xs ∧ energy hp xs ≤ 2 ^ 26 * xs.length
  | [], _, _, _ => by simp [energy, outputs]
  | b :: xs, hp, hhp, hx => by
    have hb := hx b List.mem_cons_self
    obtain ⟨ih0, ih1⟩ := energy_range (nextState_range hhp hb) fun c hc =>
      hx c (List.mem_cons_of_mem b hc)
    obtain ⟨h0, h1⟩ := square_range hhp hb
    simp only [energy, outputs, List.map_cons, List.sum_cons, List.length_cons] at ih0 ih1 ⊢
    push_cast
    omega

/-- The filter and its energy are exact while the sum has room. -/
theorem highPass_eq : ∀ {xs : List Int} {hp nrg : Int},
    InI16 hp → (∀ b ∈ xs, InI16 b) → 0 ≤ nrg → nrg + 2 ^ 26 * xs.length < 2 ^ 32 →
      highPass hp nrg xs = pure (xs.foldl nextState hp, nrg + energy hp xs)
  | [], _, _, _, _, _, _ => by simp [highPass, energy, outputs]
  | b :: xs, hp, nrg, hhp, hx, h0, h1 => by
    have hb := hx b List.mem_cons_self
    obtain ⟨hs0, hs1⟩ := square_range hhp hb
    obtain ⟨hq, hr, hsplit⟩ := square_split (b + hp)
    obtain ⟨hn0, hn1⟩ := nextState_range hhp hb
    have hmod := mul_range (x := b + hp) (y := (b + hp).tmod 64) (X := 2 ^ 16) (Y := 63)
      ⟨by have := hhp.1; have := hb.1; omega, by have := hhp.2; have := hb.2; omega⟩
      ⟨by have := Int.lt_tmod_of_pos (b + hp) (show (0 : Int) < 64 by decide); omega,
        by have := Int.tmod_lt_of_pos (b + hp) (show (0 : Int) < 64 by decide); omega⟩
    have hrest : (((b + hp) * (b + hp).tmod 64).tdiv 64) = (b + hp) * (b + hp).tmod 64 / 64 :=
      Int.tdiv_eq_ediv_of_nonneg hr
    rw [List.length_cons] at h1
    push_cast at h1
    have ih := highPass_eq ⟨hn0, hn1⟩ (fun c hc => hx c (List.mem_cons_of_mem b hc))
      (show 0 ≤ nrg + (b + hp) * (b + hp) / 64 by omega) (by omega)
    obtain ⟨hhp0, hhp1⟩ := hhp
    obtain ⟨hb0, hb1⟩ := hb
    rw [nextState] at hn0 hn1
    rw [highPass, ck32_eq ⟨by omega, by omega⟩, pure_bind, ck32_eq ⟨by omega, by omega⟩,
      pure_bind, ck32_eq ⟨by omega, by omega⟩, pure_bind, ck16_eq ⟨hn0, hn1⟩, pure_bind,
      ck32_eq ⟨by omega, by omega⟩, pure_bind, cku32_eq ⟨by omega, by omega⟩, pure_bind,
      ck32_eq ⟨by omega, by omega⟩, pure_bind, cku32_eq ⟨by omega, by omega⟩, pure_bind,
      add_assoc, hsplit]
    exact ih.trans (by
      rw [List.foldl_cons, energy, energy, outputs, List.map_cons, List.sum_cons, add_assoc])

/-! ### The leading zeros -/

/-- One halving of the search: the top bit of the shifted number is among the
first `2 * w`, and afterwards among the first `w`. -/
theorem zeros_step {n : Int} {z w : ℕ} (hw : w ≤ 16) (h0 : 2 ^ (32 - 2 * w) ≤ n * 2 ^ z)
    (h1 : n * 2 ^ z < 2 ^ 32) :
    2 ^ (32 - w) ≤ n * 2 ^ (if u32 (n * 2 ^ z) < 2 ^ (32 - w) then z + w else z) ∧
      n * 2 ^ (if u32 (n * 2 ^ z) < 2 ^ (32 - w) then z + w else z) < 2 ^ 32 := by
  have hpos : (0 : Int) < 2 ^ w := by positivity
  rw [u32_of ⟨(by positivity : (0 : Int) ≤ 2 ^ (32 - 2 * w)).trans h0, h1⟩]
  split
  · rename_i hlt
    have hlo : (2 : Int) ^ (32 - w) = 2 ^ (32 - 2 * w) * 2 ^ w := by
      rw [← pow_add]
      congr 1
      omega
    have hhi : (2 : Int) ^ 32 = 2 ^ (32 - w) * 2 ^ w := by rw [← pow_add]; congr 1; omega
    rw [pow_add, ← mul_assoc]
    exact ⟨hlo ▸ mul_le_mul_of_nonneg_right h0 hpos.le,
      hhi ▸ mul_lt_mul_of_pos_right hlt hpos⟩
  · rename_i hge
    exact ⟨not_lt.mp hge, h1⟩

/-- The search leaves the top bit of the number in front. -/
theorem vadZeros_shift {n : Int} (h0 : 0 < n) (h1 : n < 2 ^ 32) :
    2 ^ 31 ≤ n * 2 ^ vadZeros n ∧ n * 2 ^ vadZeros n < 2 ^ 32 := by
  have hstart := zeros_step (n := n) (z := 0) (w := 16) le_rfl (by omega) (by omega)
  rw [pow_zero, mul_one, u32_of ⟨h0.le, h1⟩] at hstart
  obtain ⟨h24, h24'⟩ := zeros_step (w := 8) (by decide) hstart.1 hstart.2
  obtain ⟨h28, h28'⟩ := zeros_step (w := 4) (by decide) h24 h24'
  obtain ⟨h30, h30'⟩ := zeros_step (w := 2) (by decide) h28 h28'
  exact zeros_step (w := 1) (by decide) h30 h30'

theorem vadZeros_eq {n : Int} (h : InU32 n) : (vadZeros n : Int) = if n = 0 then 31
    else countLeadingZeros32 n := by
  split
  · rename_i h0
    rw [h0]
    decide
  rename_i hne
  obtain ⟨m, rfl⟩ := Int.eq_ofNat_of_zero_le h.1
  obtain ⟨hlo, hhi⟩ := vadZeros_shift (n := m) (by omega) h.2
  have hz : vadZeros m ≤ 31 := by
    by_contra hgt
    have : (2 : Int) ^ 32 ≤ 2 ^ vadZeros m := pow_le_pow_right₀ (by decide) (by omega)
    have := mul_le_mul_of_nonneg_right (show (1 : Int) ≤ m by omega)
      (show (0 : Int) ≤ 2 ^ vadZeros m by positivity)
    omega
  have hlog : Nat.log2 m = 31 - vadZeros m := by
    refine (Nat.log2_eq_iff (by omega)).mpr ⟨?_, ?_⟩
    · refine Nat.le_of_mul_le_mul_right (c := 2 ^ vadZeros m) ?_ (by positivity)
      rw [← pow_add, Nat.sub_add_cancel hz]
      exact_mod_cast hlo
    · refine Nat.lt_of_mul_lt_mul_right (a := 2 ^ vadZeros m) ?_
      rw [← pow_add, show 31 - vadZeros m + 1 + vadZeros m = 32 by omega]
      exact_mod_cast hhi
  rw [countLeadingZeros32, if_neg hne, Int.toNat_natCast, hlog]
  omega

/-! ### Along a run -/

/-- The frame's energy is exact in any state whose filter holds 16 bits: only
the decimator can lower the flag. -/
theorem vadSubframes_exact {v : AgcVad} (h : InI16 v.HPstate) (f : VadFrame) :
    vadSubframes f.samples.length 10 v.downState v.HPstate 0 f.samples =
      downsampleBy2 v.downState f.at8kHz >>= fun d =>
        pure (d.1, (f.decimated v).foldl nextState v.HPstate,
          energy v.HPstate (f.decimated v)) := by
  have hlen : f.samples.length = 10 * (if f.samples.length = 160 then 16 else 8) := by
    have := f.length
    split <;> omega
  have hpass : highPass v.HPstate 0 (f.decimated v) = pure _ :=
    highPass_eq h (downsampleBy2_range _ _) le_rfl (by rw [f.length_decimated]; decide)
  rw [zero_add] at hpass
  rw [vadSubframes_eq _ 10 _ _ _ _ hlen]
  refine Chk.bind_congr_val ?_
  show (highPass v.HPstate 0 (f.decimated v) >>= fun e => pure (_, e.1, e.2)) = _
  rw [hpass]
  rfl

theorem hpState_range {fs : List VadFrame} {v : AgcVad} (hrun : Run VadStep initVad fs v) :
    InI16 v.HPstate := by
  refine hrun.invariant (I := fun v => InI16 v.HPstate) (by decide) fun t f u h hstep => ?_
  have hHP : u.HPstate = (heard t f).HPstate := by
    rw [hstep, val_processVad]
    rfl
  rw [hHP, heard, vadSubframes_exact h f]
  exact foldl_range h (downsampleBy2_range _ _)

/-- The energy of the next frame, in every state that the detector reaches: the
filter's state is within 16 bits before and after each of the 40 samples, the
loop over the sub-frames gives the exact sum of `floor(out * out / 64)`, without
a wrap in the unsigned sum, and `zeros` is the number of its leading zeros, 31
for no energy. Only the decimator's arithmetic can lower the flag. -/
theorem energy_exact {fs : List VadFrame} {v : AgcVad} (hrun : Run VadStep initVad fs v)
    (f : VadFrame) :
    (f.decimated v).length = 40 ∧
      (∀ h ∈ (f.decimated v).scanl nextState v.HPstate, InI16 h) ∧
        vadSubframes f.samples.length 10 v.downState v.HPstate 0 f.samples =
        (downsampleBy2 v.downState f.at8kHz >>= fun d =>
          pure (d.1, (f.decimated v).foldl nextState v.HPstate,
            ((outputs v.HPstate (f.decimated v)).map fun out => out * out / 64).sum)) ∧
      InU32 (energy v.HPstate (f.decimated v)) ∧
      (vadZeros (energy v.HPstate (f.decimated v)) : Int) =
        if energy v.HPstate (f.decimated v) = 0 then 31 else countLeadingZeros32
          (energy v.HPstate (f.decimated v)) := by
  have hhp := hpState_range hrun
  have hx : ∀ x ∈ f.decimated v, InI16 x := downsampleBy2_range _ _
  obtain ⟨h0, h1⟩ := energy_range hhp hx
  rw [f.length_decimated] at h1
  have hfit : InU32 (energy v.HPstate (f.decimated v)) := ⟨h0, by omega⟩
  exact ⟨f.length_decimated v, states_range hhp hx, vadSubframes_exact hhp f, hfit,
    vadZeros_eq hfit⟩

/-- A frame of full-scale samples. -/
def loudFrame : VadFrame := ⟨List.replicate 160 32767, .inr rfl, fun x hx => by
  rw [List.eq_of_mem_replicate hx]
  decide⟩

/-- Its energy, as the first frame. -/
theorem energy_exact_loud :
    (loudFrame.decimated initVad).length = 40 ∧ InU32 (energy 0 (loudFrame.decimated initVad)) :=
  have h := energy_exact (.nil : Run VadStep initVad [] initVad) loudFrame
  ⟨h.1, h.2.2.2.1⟩

end VadEnergy
end AgcSpec
