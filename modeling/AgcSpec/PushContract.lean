/-
# What `Push` promises

Three promises of `Resampler::Push`, for every mode, mono or stereo.

A call that fails leaves the states alone, with one exception: the mode from 3
to 2 runs its first filter before it checks the length (`push_atomic_iff`,
`push_not_atomic`).

A call that succeeds has accounted for every sample, within both arrays, where
the input is a multiple of the mode's unit and the output fits, for stereo each
half of it (`push_accounts_iff`). `Push` does not check all of that: copying
asks for no room (`push_overruns`), the decimators by 2 and 4 drop a rest, and
an odd length in stereo is read past its end.

How the input is cut makes no difference (`push_append`).
-/
import AgcSpec.Push

namespace AgcSpec

open FixedPoint Streams ResamplerMode

/-! ### Two channels -/

section

variable {mode : ResamplerMode} {left right : mode.State} {xs out : List Int} {len : ℕ}

/-- What the slaves get: half of the samples, half of the room. -/
theorem length_dealt (xs out : List Int) : (everyOther xs).1.length = xs.length / 2 ∧
    (everyOther xs).2.length = xs.length / 2 ∧ (alloc (out.length / 2)).length = out.length / 2 :=
  ⟨(length_everyOther xs).1, (length_everyOther xs).2, length_alloc _⟩

theorem pushStereo_refused (h : Refuses mode (xs.length / 2) (out.length / 2)) :
    (Channels.pushStereo left right xs out len).val =
      ⟨-1, len, out, (pushMono mode left (everyOther xs).1 (alloc (out.length / 2)) 0).val.state,
        (pushMono mode right (everyOther xs).2 (alloc (out.length / 2)) 0).val.state⟩ := by
  obtain ⟨hl, hr, ha⟩ := length_dealt xs out
  obtain ⟨left', hleft, -⟩ :=
    pushMono_refused mode left (everyOther xs).1 (alloc (out.length / 2)) 0
    (by rw [hl, ha]; exact h)
  rw [Channels.pushStereo, Chk.val_bind, val_flag, hleft, pure_bind, Chk.val_bind,
    if_pos (.inl (by simp)), Chk.val_pure, Chk.val_pure]

theorem pushStereo_accepted (h : ¬ Refuses mode (xs.length / 2) (out.length / 2)) :
    (Channels.pushStereo left right xs out len).val.ret = 0 ∧
      (Channels.pushStereo left right xs out len).val.outLen =
        2 * (xs.length / 2 * mode.outPart / mode.inPart) := by
  obtain ⟨hl, hr, ha⟩ := length_dealt xs out
  have hleft := pushMono_accepted mode left (everyOther xs).1 (alloc (out.length / 2)) 0
    (by rw [hl, ha]; exact h)
  have hright := pushMono_accepted mode right (everyOther xs).2 (alloc (out.length / 2)) 0
    (by rw [hr, ha]; exact h)
  rw [hl] at hleft
  rw [hr] at hright
  rw [Channels.pushStereo, Chk.val_bind, val_flag, Chk.val_bind, Chk.val_bind,
    if_neg (by simp [hleft, hright])]
  exact ⟨rfl, by simp only [Chk.val_bind, Chk.val_pure, hleft.2]⟩

theorem pushStereo_whole (heven : 2 ∣ xs.length)
    (h : Whole mode (xs.length / 2) (out.length / 2)) :
    (Channels.pushStereo left right xs out len).ok = true := by
  obtain ⟨hl, hr, ha⟩ := length_dealt xs out
  have hleft := pushMono_of_whole mode left (everyOther xs).1 (alloc (out.length / 2)) 0
    (by rw [hl, ha]; exact h)
  have hright := pushMono_of_whole mode right (everyOther xs).2 (alloc (out.length / 2)) 0
    (by rw [hr, ha]; exact h)
  obtain ⟨⟨k, hk⟩, hfit⟩ := h
  rw [mul_comm] at hk
  rw [hk, mul_unit] at hfit
  have hleftLen := rate_stream mode k left (everyOther xs).1 (hl.trans hk)
  have hrightLen := rate_stream mode k right (everyOther xs).2 (hr.trans hk)
  have hturns := length_inTurns (hleftLen.trans hrightLen.symm)
  rw [Channels.pushStereo, flag_eq (by omega), pure_bind, hleft, pure_bind, hright, pure_bind,
    if_neg (by simp [hleftLen, hrightLen]), readAt_prefix (List.prefix_append _ _) rfl, pure_bind,
    readAt_prefix (List.prefix_append _ _) (hleftLen.trans hrightLen.symm), pure_bind,
    writeAt_zero (by omega), pure_bind, Chk.ok_pure]

end

/-! ### Failure -/

/-- Half of a length for each of two channels. -/
def perChannel (two : Bool) (n : ℕ) : ℕ := if two then n / 2 else n

variable {mode : ResamplerMode}

theorem refuses_of_push {c : Channels mode} {xs out : List Int} {len : ℕ}
    (h : (c.push xs out len).val.ret = -1) :
    Refuses mode (perChannel c.isStereo xs.length) (perChannel c.isStereo out.length) := by
  by_contra haccepted
  have hret : (c.push xs out len).val.ret = 0 := by
    cases c with
    | mono st => exact (pushMono_accepted mode st xs out len haccepted).1
    | stereo st left right => exact (pushStereo_accepted haccepted).1
  rw [hret] at h
  cases h

theorem push_refused (c : Channels mode) (xs out : List Int) (len : ℕ)
    (h : Refuses mode (perChannel c.isStereo xs.length) (perChannel c.isStereo out.length)) :
    (c.push xs out len).val.ret = -1 ∧
      (¬ Late mode (perChannel c.isStereo xs.length) (perChannel c.isStereo out.length) →
        (c.push xs out len).val.state = c) := by
  cases c with
  | mono st =>
    obtain ⟨st', heq, hkeep⟩ := pushMono_refused mode st xs out len h
    rw [Channels.push, heq, pure_bind, Chk.val_pure]
    exact ⟨rfl, fun hlate => by rw [hkeep hlate]⟩
  | stereo st left right =>
    obtain ⟨hl, hr, ha⟩ := length_dealt xs out
    obtain ⟨left', hleft, hkeepl⟩ :=
      pushMono_refused mode left (everyOther xs).1 (alloc (out.length / 2)) 0
      (by rw [hl, ha]; exact h)
    obtain ⟨right', hright, hkeepr⟩ :=
      pushMono_refused mode right (everyOther xs).2 (alloc (out.length / 2)) 0
      (by rw [hr, ha]; exact h)
    rw [hl, ha] at hkeepl
    rw [hr, ha] at hkeepr
    rw [Channels.push, Chk.val_bind, pushStereo_refused h, hleft, hright, Chk.val_pure]
    exact ⟨rfl, fun hlate => by rw [← hkeepl hlate, ← hkeepr hlate]; rfl⟩

/-- The last sample is in the state of the interpolator. -/
theorem up_last (st : FiltState) (xs : List Int) (x : Int) :
    (up st (xs ++ [x])).2.state0 = i32 (x * 2 ^ 10) := by
  rw [up_append]
  rfl

theorem everyOther_replicate (x : Int) : ∀ n : ℕ,
    everyOther (List.replicate n x) = (List.replicate (n / 2) x, List.replicate (n / 2) x)
  | 0 => rfl
  | 1 => rfl
  | n + 2 => by
    rw [List.replicate_succ, List.replicate_succ, everyOther, everyOther_replicate x n,
      Nat.add_div_right n two_pos, List.replicate_succ]

/-- From zero states, ones change the state of the interpolator. -/
theorem up_ones {n : ℕ} (h : 0 < n) :
    (up FiltState.zero (List.replicate n 1)).2 ≠ FiltState.zero := by
  obtain ⟨m, rfl⟩ : ∃ m, n = m + 1 := ⟨n - 1, by omega⟩
  intro heq
  have hlast := up_last FiltState.zero (List.replicate m 1) 1
  rw [← List.replicate_succ', heq] at hlast
  exact absurd hlast (by decide)

/-- A call that fails leaves every state of every resampler as it was, unless it
is one of those that the mode from 3 to 2 refuses after its first stage. -/
theorem push_atomic_iff (mode : ResamplerMode) (two : Bool) (n maxLen : ℕ) :
    (∀ (c : Channels mode) (samplesIn samplesOut : List Int) (outLen : ℕ), c.isStereo = two →
      samplesIn.length = n → samplesOut.length = maxLen → (∀ x ∈ samplesIn, InI16 x) →
      (c.push samplesIn samplesOut outLen).val.ret = -1 →
      (c.push samplesIn samplesOut outLen).val.state = c) ↔
    ¬ Late mode (perChannel two n) (perChannel two maxLen) := by
  constructor
  · rintro hatomic ⟨rfl, hroom, hrest⟩
    have hones : ∀ x ∈ List.replicate n (1 : Int), InI16 x := fun x hx => by
      rw [List.eq_of_mem_replicate hx]
      decide
    have hn : (List.replicate n (1 : Int)).length = n := List.length_replicate
    have hmax := length_alloc maxLen
    have hrefuses : Refuses mode3To2 (perChannel two n) (perChannel two maxLen) := .inl (by
      simp only [checked, unit]
      omega)
    -- from zero states, with ones: the interpolator has moved
    have hmoved : ∀ k m : ℕ, k * 2 / 3 ≤ m → k * 2 % 480 ≠ 0 →
        (pushMono mode3To2 mode3To2.zero (List.replicate k 1) (alloc m) 0).val.state ≠
          mode3To2.zero := by
      intro k m hroom hrest hsame
      rw [pushMono_late _ 0 (by rw [List.length_replicate, length_alloc]; exact hroom)
        (by rw [List.length_replicate]; exact hrest), Chk.val_pure] at hsame
      exact up_ones (by omega) (congrArg Prod.fst hsame)
    cases two with
    | false =>
      have hret := (push_refused (.mono mode3To2.zero) (List.replicate n 1) (alloc maxLen) 0
        (by rw [hn, hmax]; exact hrefuses)).1
      have hsame := hatomic (.mono mode3To2.zero) _ (alloc maxLen) 0 rfl hn hmax hones hret
      injection hsame with hsame
      exact hmoved n maxLen hroom hrest hsame
    | true =>
      have hret := (push_refused (.stereo mode3To2.zero mode3To2.zero mode3To2.zero)
        (List.replicate n 1) (alloc maxLen) 0 (by rw [hn, hmax]; exact hrefuses)).1
      have hsame := hatomic (.stereo mode3To2.zero mode3To2.zero mode3To2.zero) _ (alloc maxLen) 0
        rfl hn hmax hones hret
      rw [Channels.push, Chk.val_bind, pushStereo_refused (by rw [hn, hmax]; exact hrefuses),
        everyOther_replicate, hmax]
        at hsame
      injection hsame with _ hsame
      exact hmoved (n / 2) (maxLen / 2) hroom hrest hsame
  · rintro hlate c samplesIn samplesOut outLen rfl rfl rfl - hret
    exact (push_refused c samplesIn samplesOut outLen (refuses_of_push hret)).2 hlate

/-- One sample and no room for any: refused, with the sample in the filter. -/
theorem push_not_atomic :
    ((Channels.mono mode3To2.zero).push [1] [] 0).val.ret = -1 ∧
      ((Channels.mono mode3To2.zero).push [1] [] 0).val.state =
        .mono (⟨1024, 51, 19, 14, 1024, 190, 108, 99⟩, State48khzTo16khz.zero) :=
  ⟨by decide, rfl⟩

/-! ### Every sample accounted for -/

/-- The resamplers that were `Reset` for two frequencies, with any use since. -/
inductive Reached (inFreq outFreq : Int) : Resampler → Prop
  | reset {old r : Resampler} {num_channels : ℕ}
    (h : old.reset inFreq outFreq num_channels = pure (0, r)) :
    Reached inFreq outFreq r
  | push {r : Resampler} (samplesIn samplesOut : List Int) (outLen : ℕ)
    (h : Reached inFreq outFreq r) :
    Reached inFreq outFreq (r.push samplesIn samplesOut outLen).val.state

theorem reset_mode {old r : Resampler} {inFreq outFreq : Int} {num_channels : ℕ}
    (h : old.reset inFreq outFreq num_channels = pure (0, r)) :
    computeResamplerMode inFreq outFreq = pure (some r.my_mode_) := by
  have hval : (old.reset inFreq outFreq num_channels).val = (0, r) := congrArg Chk.val h
  have hok : (old.reset inFreq outFreq num_channels).ok = true := congrArg Chk.ok h
  rcases old.reset_cases inFreq outFreq num_channels
    with ⟨-, hret⟩ | ⟨-, hok', ⟨-, hret⟩ | ⟨mode, hmode, hret⟩⟩
  · rw [hret] at hval
    exact absurd (congrArg Prod.fst hval) (show ¬ (-1 : Int) = 0 by decide)
  · rw [hret] at hval
    exact absurd (congrArg Prod.fst hval) (show ¬ (-1 : Int) = 0 by decide)
  · rw [hret] at hval
    obtain rfl := (Prod.ext_iff.mp hval).2
    exact Chk.eq_pure hmode (hok'.symm.trans hok)

theorem reached_mode {inFreq outFreq : Int} {r : Resampler} (h : Reached inFreq outFreq r) :
    computeResamplerMode inFreq outFreq = pure (some r.my_mode_) := by
  induction h with
  | reset h => exact reset_mode h
  | push _ _ _ _ ih => exact ih

/-- Every channel is whole, and none has a sample more. -/
def Accounted (mode : ResamplerMode) (two : Bool) (n maxLen : ℕ) : Prop :=
  (two = true → 2 ∣ n) ∧ Whole mode (perChannel two n) (perChannel two maxLen)

theorem Whole.rate {n maxLen : ℕ} (h : Whole mode n maxLen) :
    n * mode.outPart / mode.inPart * mode.inPart = n * mode.outPart := by
  obtain ⟨k, rfl⟩ := h.1
  rw [mul_comm mode.unit, mul_unit, mul_assoc, mode.unitOut_mul, mul_assoc]

theorem mono_accounts {st : mode.State} {xs out : List Int} {len : ℕ}
    (hret : (pushMono mode st xs out len).val.ret = 0) :
    ((pushMono mode st xs out len).ok = true ∧ (pushMono mode st xs out len).val.outLen ≤
      out.length ∧ (pushMono mode st xs out len).val.outLen * mode.inPart =
        xs.length * mode.outPart) ↔
    Whole mode xs.length out.length := by
  have haccepted := not_refuses_of_ret hret
  rw [(pushMono_accepted mode st xs out len haccepted).2]
  constructor
  · rintro ⟨-, hfits, hrate⟩
    exact whole_of_accounts haccepted hfits hrate
  · intro h
    exact ⟨by rw [pushMono_of_whole mode st xs out len h]; rfl, h.2, h.rate⟩

theorem stereo_accounts {left right : mode.State} {xs out : List Int} {len : ℕ}
    (hret : (Channels.pushStereo left right xs out len).val.ret = 0) :
    ((Channels.pushStereo left right xs out len).ok = true ∧
      (Channels.pushStereo left right xs out len).val.outLen ≤ out.length ∧
      (Channels.pushStereo left right xs out len).val.outLen * mode.inPart =
        xs.length * mode.outPart) ↔
    2 ∣ xs.length ∧ Whole mode (xs.length / 2) (out.length / 2) := by
  have haccepted : ¬ Refuses mode (xs.length / 2) (out.length / 2) := fun h => by
    rw [pushStereo_refused h] at hret
    cases hret
  rw [(pushStereo_accepted haccepted).2]
  constructor
  · rintro ⟨hok, hfits, hrate⟩
    have heven : 2 ∣ xs.length := by
      rw [Channels.pushStereo, Chk.ok_bind, Bool.and_eq_true] at hok
      have := of_decide_eq_true hok.1
      omega
    refine ⟨heven, whole_of_accounts haccepted (by omega) ?_⟩
    obtain ⟨m, hm⟩ := heven
    rw [hm, Nat.mul_div_cancel_left m two_pos] at hrate ⊢
    rw [mul_assoc, mul_assoc] at hrate
    exact Nat.eq_of_mul_eq_mul_left two_pos hrate
  · rintro ⟨heven, h⟩
    have hfits := h.2
    refine ⟨pushStereo_whole heven h, by omega, ?_⟩
    rw [mul_assoc, h.rate, ← mul_assoc, Nat.mul_div_cancel' heven]

theorem push_accounts (c : Channels mode) (xs out : List Int) (len : ℕ)
    (hret : (c.push xs out len).val.ret = 0) :
    ((c.push xs out len).ok = true ∧ (c.push xs out len).val.outLen ≤ out.length ∧
      (c.push xs out len).val.outLen * mode.inPart = xs.length * mode.outPart) ↔
    Accounted mode c.isStereo xs.length out.length := by
  cases c with
  | mono st =>
    have hok : ((Channels.mono st).push xs out len).ok = (pushMono mode st xs out len).ok :=
      Bool.and_true _
    rw [hok, Accounted, and_iff_right (fun h => by cases h)]
    exact mono_accounts hret
  | stereo st left right =>
    have hok : ((Channels.stereo st left right).push xs out len).ok =
        (Channels.pushStereo left right xs out len).ok :=
      Bool.and_true _
    rw [hok, Accounted, Channels.isStereo, imp_iff_right rfl]
    exact stereo_accounts hret

/-- If `Push` returns 0, its output is within its array, its accesses are
within all arrays and its output is as long as the frequencies say exactly if
the input is without a rest and the output fits. -/
theorem push_accounts_iff {inFreq outFreq : Int} {r : Resampler} (hr : Reached inFreq outFreq r)
    (samplesIn samplesOut : List Int) (outLen : ℕ)
    (hret : (r.push samplesIn samplesOut outLen).val.ret = 0) :
    ((r.push samplesIn samplesOut outLen).ok = true ∧
      (r.push samplesIn samplesOut outLen).val.outLen ≤ samplesOut.length ∧
      ((r.push samplesIn samplesOut outLen).val.outLen : Int) * inFreq =
        samplesIn.length * outFreq) ↔
    Accounted r.my_mode_ r.channels.isStereo samplesIn.length samplesOut.length := by
  obtain ⟨hratio, hout⟩ := mode_ratio (reached_mode hr)
  have hpos : (r.my_mode_.outPart : Int) ≠ 0 := by exact_mod_cast (outPart_pos r.my_mode_).ne'
  rw [← push_accounts r.channels samplesIn samplesOut outLen hret]
  -- the ratio of the frequencies is the ratio of the mode
  have hrate : ∀ k n : ℕ, (k : Int) * inFreq = n * outFreq ↔
      k * r.my_mode_.inPart = n * r.my_mode_.outPart := by
    intro k n
    rw [← mul_left_inj' hpos, mul_assoc, hratio, mul_right_comm, ← mul_assoc, mul_right_comm,
      mul_left_inj' hout]
    norm_cast
  exact and_congr_right fun _ => and_congr_right fun _ => hrate _ _

theorem euclid_multiple {a b : Int} (hb : b ≠ 0) (h : a.tmod b = 0)
    (hfits : ¬ (a = -2 ^ 31 ∧ b = -1)) : euclid a b = pure b := by
  rw [euclid, if_neg hb, if_pos h, flag_eq hfits]

/-- Two channels from 16 kHz to 8 kHz. -/
def halving : Resampler :=
  ⟨16, 8, 2, mode2To1, .zero mode2To1 2, Channels.isStereo_zero mode2To1 2⟩

theorem reached_halving : Reached 16000 8000 halving := by
  have hreset : Resampler.new.reset 16000 8000 2 = pure (0, halving) := by
    rw [Resampler.reset, if_neg (by decide), computeResamplerMode,
      euclid_multiple (by decide) (by decide) (by decide)]
    rfl
  exact .reset hreset

/-- Four samples for each channel, with room for two each. -/
theorem push_accounts_halving :
    let r := halving.push [9000, -9000, 12000, -12000, 9000, -9000, 0, 0] [0, 0, 0, 0] 0
    r.val.ret = 0 ∧ r.ok = true ∧ r.val.outLen ≤ 4 ∧
      (r.val.outLen : Int) * 16000 = 8 * 8000 :=
  ⟨by decide +kernel, (push_accounts_iff reached_halving _ [0, 0, 0, 0] 0 (by decide +kernel)).2
    ⟨fun _ => ⟨4, rfl⟩, ⟨2, rfl⟩, by decide⟩⟩

/-- One channel from 16 kHz to 16 kHz, which is copied. -/
def copying : Resampler :=
  ⟨16, 16, 1, mode1To1, .zero mode1To1 1, Channels.isStereo_zero mode1To1 1⟩

theorem reached_copying : Reached 16000 16000 copying := by
  have hreset : Resampler.new.reset 16000 16000 1 = pure (0, copying) := by
    rw [Resampler.reset, if_neg (by decide), computeResamplerMode,
      euclid_multiple (by decide) (by decide) (by decide)]
    rfl
  exact .reset hreset

/-- One sample without room for it: `memcpy` writes it behind the array, and
`Push` returns 0. -/
theorem push_overruns : Reached 16000 16000 copying ∧ (copying.push [5] [] 0).val.ret = 0 ∧
    (copying.push [5] [] 0).val.outLen = 1 ∧ (copying.push [5] [] 0).ok = false :=
  ⟨reached_copying, by decide, by decide, by decide⟩

/-! ### Chunks -/

/-- Two inputs that come out even give the same samples and leave the same
states, one after the other or together. -/
theorem push_append (mode : ResamplerMode) (st : mode.State) (a b outA outB outAB : List Int)
    (lenA lenB lenAB : ℕ) (ha : Whole mode a.length outA.length)
    (hb : Whole mode b.length outB.length)
    (hab : (a ++ b).length * mode.outPart / mode.inPart ≤ outAB.length) :
    ∃ ys zs st1 st2,
      pushMono mode st a outA lenA = pure ⟨0, ys.length, ys ++ outA.drop ys.length, st1⟩ ∧
      pushMono mode st1 b outB lenB = pure ⟨0, zs.length, zs ++ outB.drop zs.length, st2⟩ ∧
      pushMono mode st (a ++ b) outAB lenAB =
        pure ⟨0, (ys ++ zs).length, ys ++ zs ++ outAB.drop (ys ++ zs).length, st2⟩ := by
  have hwhole : Whole mode (a ++ b).length outAB.length :=
    ⟨by rw [List.length_append]; exact dvd_add ha.1 hb.1, hab⟩
  have hboth := pushMono_of_whole mode st (a ++ b) outAB lenAB hwhole
  rw [chunks_stream mode st a b ha.1 hb.1] at hboth
  exact ⟨_, _, _, _, pushMono_of_whole mode st a outA lenA ha,
    pushMono_of_whole mode _ b outB lenB hb, hboth⟩

/-- Two pairs through the decimator by two. -/
theorem push_append_pairs : ∃ ys zs st1 st2,
    pushMono mode2To1 mode2To1.zero [1000, 2000] [0] 0 =
      pure ⟨0, ys.length, ys ++ [0].drop ys.length, st1⟩ ∧
    pushMono mode2To1 st1 [3000, 4000] [0] 0 =
      pure ⟨0, zs.length, zs ++ [0].drop zs.length, st2⟩ ∧
    pushMono mode2To1 mode2To1.zero ([1000, 2000] ++ [3000, 4000]) [0, 0] 0 =
      pure ⟨0, (ys ++ zs).length, ys ++ zs ++ [0, 0].drop (ys ++ zs).length, st2⟩ :=
  push_append mode2To1 mode2To1.zero [1000, 2000] [3000, 4000] [0] [0] [0, 0] 0 0 0
    ⟨⟨1, rfl⟩, by decide⟩
    ⟨⟨1, rfl⟩, by decide⟩ (by decide)

end AgcSpec
