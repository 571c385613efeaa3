/-
# The half-band interpolator

`WebRtcSpl_UpBy2ShortToInt` scales its samples to 31 bits before they enter two
branches of three all-pass sections, whose peak gain is above one. Full-scale
samples overflow (`interpolator_overflows`). Samples up to 14339 never do, in
streams of any length from the state 0 and in calls of any lengths
(`interpolator_exact`).

What decides is the last difference of the lower branch. The sum of its impulse
response is 4.57, and the roundings of a stream add up to 260000; the bounds of
single sections would multiply to 11.3, so it takes the peaks of
`AllPass.Chain`, looking back 160 samples. They are nearly sharp: a stream of
samples ±14342 with the signs of the impulse response overflows.
-/
import AgcSpec.ResampleBy2
import AgcSpec.Lib.AllPassChain
import AgcSpec.Lib.Run

namespace AgcSpec
namespace Interpolator

open FixedPoint Runs AllPass

/-! ### A branch in exact arithmetic -/

/-- A branch without overflows. -/
def exactStep (k : Int × Int × Int) (st : Allpass) (tmp0 : Int) : Allpass :=
  let tmp1 := st.s0 + (tmp0 - st.s1 + 2 ^ 13) / 2 ^ 14 * k.1
  let tmp2 := st.s1 + scaleTrunc (tmp1 - st.s2) * k.2.1
  ⟨tmp0, tmp1, tmp2, st.s2 + scaleTrunc (tmp2 - st.s3) * k.2.2⟩

/-- The branch as a chain: the first section rounds to the nearest, the others
towards 0. -/
def chain (k : Int × Int × Int) : Chain :=
  ⟨2 ^ 14, k.1, k.2.1, k.2.2, k.1 * 2 ^ 13, k.2.1 * 2 ^ 14, k.2.2 * 2 ^ 14⟩

def states (st : Allpass) : State := ⟨st.s0, st.s1, st.s2, st.s3⟩

theorem scaleTrunc_error (z : Int) : |2 ^ 14 * scaleTrunc z - z| ≤ 2 ^ 14 := by
  unfold scaleTrunc
  rw [abs_le]
  split <;> omega

theorem scaleTrunc_range {z : Int} (h : InI32 z) :
    -2 ^ 17 ≤ scaleTrunc z ∧ scaleTrunc z ≤ 2 ^ 17 := by
  obtain ⟨h0, h1⟩ := h
  unfold scaleTrunc
  split <;> omega

/-- An error of a scaled difference, times the coefficient. -/
theorem section_error {k x z q E : Int} (hk : 0 ≤ k) (h : |2 ^ 14 * q - z| ≤ E) :
    |2 ^ 14 * (x + q * k - x) - k * z| ≤ k * E := by
  rw [show 2 ^ 14 * (x + q * k - x) - k * z = k * (2 ^ 14 * q - z) by ring, abs_mul,
    abs_of_nonneg hk]
  exact mul_le_mul_of_nonneg_left h hk

theorem exactStep_step {k : Int × Int × Int} (h1 : 0 ≤ k.1) (h2 : 0 ≤ k.2.1)
    (h3 : 0 ≤ k.2.2) (st : Allpass) (u : Int) :
    (chain k).Step (states st) u (states (exactStep k st u)) := by
  have hround : |2 ^ 14 * ((u - st.s1 + 2 ^ 13) / 2 ^ 14) - (u - st.s1)| ≤ 2 ^ 13 := by
    rw [abs_le]
    omega
  exact ⟨rfl, section_error h1 hround, section_error h2 (scaleTrunc_error _),
    section_error h3 (scaleTrunc_error _)⟩

/-! ### Room for samples up to 14339 -/

/-- The largest scaled sample. -/
def limit : Int := 14339 * 2 ^ 15 + 2 ^ 14

/-- One output of a section, scaled up. -/
def outputForm : Form := ⟨0, 0, 0, 2 ^ 40⟩

/-- The last difference: the new output of the second section less the old one
of the third. -/
def diffForm : Form := ⟨0, 0, 2 ^ 40, 0⟩

/-- A branch has room in 32 bits: its first differences by the bounds of the
sections, the last difference and the last output by their peaks. -/
structure HasRoom (k : Int × Int × Int) : Prop where
  first : 0 ≤ k.1 ∧ k.1 < 2 ^ 14
  second : 0 ≤ k.2.1 ∧ k.2.1 < 2 ^ 14
  third : 0 ≤ k.2.2 ∧ k.2.2 < 2 ^ 14
  diff0 : limit + (chain k).gain1 limit < 2 ^ 31 - 2 ^ 13
  diff1 : (chain k).gain1 limit + (chain k).gain2 limit < 2 ^ 31
  diff2 : (chain k).cost diffForm limit + (chain k).peak limit 160
    (((chain k).back diffForm).sub outputForm) < 2 ^ 40 * 2 ^ 31
  output : (chain k).peak limit 160 outputForm < 2 ^ 40 * 2 ^ 31

theorem hasRoom_upper : HasRoom kResampleAllpass0 where
  first := by decide
  second := by decide
  third := by decide
  diff0 := by decide +kernel
  diff1 := by decide +kernel
  diff2 := by decide +kernel
  output := by decide +kernel

theorem hasRoom_lower : HasRoom kResampleAllpass1 where
  first := by decide
  second := by decide
  third := by decide
  diff0 := by decide +kernel
  diff1 := by decide +kernel
  diff2 := by decide +kernel
  output := by decide +kernel

theorem HasRoom.proper {k : Int × Int × Int} (h : HasRoom k) : (chain k).Proper where
  d := by norm_num [chain]
  k1 := h.first
  k2 := h.second
  k3 := h.third
  e1 := mul_nonneg h.first.1 (by norm_num)
  e2 := mul_nonneg h.second.1 (by norm_num)
  e3 := mul_nonneg h.third.1 (by norm_num)

/-- A quotient of a 32-bit difference times a coefficient fits. -/
theorem inI32_product {q k : Int} (hq : -2 ^ 17 ≤ q ∧ q ≤ 2 ^ 17)
    (hk : 0 ≤ k ∧ k < 2 ^ 14) : InI32 (q * k) := by
  have h := mul_range hq (y := k) (Y := 2 ^ 14 - 1) ⟨by omega, by omega⟩
  exact ⟨by omega, by omega⟩

/-- A number whose multiple by `2^40` is below that of `2^31`. -/
theorem inI32_of_scaled {z B : Int} (h : |2 ^ 40 * z| ≤ B) (hB : B < 2 ^ 40 * 2 ^ 31) :
    InI32 z := by
  rw [abs_le] at h
  exact ⟨by omega, by omega⟩

theorem inI32_diff2 {k : Int × Int × Int} (hk : HasRoom k) {st : Allpass}
    (h : (chain k).Settled limit (states st)) {u : Int}
    (hu : |u| ≤ limit) : InI32 ((exactStep k st u).s2 - st.s3) := by
  have hst := exactStep_step hk.first.1 hk.second.1 hk.third.1 st u
  have hstep := Chain.form_step hk.proper (h 0) hu hst diffForm outputForm
  have hpeak := Chain.peak_bound hk.proper (h 160) (((chain k).back diffForm).sub outputForm)
  have hform : diffForm.at (states (exactStep k st u)) - outputForm.at (states st) =
      2 ^ 40 * ((exactStep k st u).s2 - st.s3) := by
    simp only [Form.at, diffForm, outputForm, states]
    ring
  rw [hform] at hstep
  exact inI32_of_scaled (hstep.trans (add_le_add_right hpeak _)) hk.diff2

theorem inI32_output {k : Int × Int × Int} (hk : HasRoom k) {st : Allpass}
    (h : (chain k).Settled limit (states st)) : InI32 st.s3 := by
  have hpeak := Chain.peak_bound hk.proper (h 160) outputForm
  have hform : outputForm.at (states st) = 2 ^ 40 * st.s3 := by
    simp only [Form.at, outputForm, states]
    ring
  rw [hform] at hpeak
  exact inI32_of_scaled hpeak hk.output

theorem allpassStep_exact {k : Int × Int × Int} (hk : HasRoom k) {st : Allpass}
    (h : (chain k).Settled limit (states st)) {u : Int} (hu : |u| ≤ limit) :
    allpassStep k st u = pure (exactStep k st u) ∧ (chain k).Settled limit
      (states (exactStep k st u)) := by
  have hnext := h.next hk.proper hu (exactStep_step hk.first.1 hk.second.1 hk.third.1 st u)
  refine ⟨?_, hnext⟩
  obtain ⟨-, hs1, hs2, -⟩ := (h 0 : (chain k).Within limit _).le hk.proper
  obtain ⟨-, ht1, ht2, -⟩ := (hnext 0 : (chain k).Within limit _).le hk.proper
  have hd2 := inI32_diff2 hk h hu
  have ht3 := inI32_output hk hnext
  have hroom0 := hk.diff0
  have hroom1 := hk.diff1
  rw [abs_le] at hu hs1 hs2 ht1 ht2
  simp only [states] at hs1 hs2 ht1 ht2
  have hd0 : InI32 (u - st.s1) := ⟨by omega, by omega⟩
  have hd0' : InI32 (u - st.s1 + 2 ^ 13) := ⟨by omega, by omega⟩
  have hd1 : InI32 ((exactStep k st u).s1 - st.s2) := ⟨by omega, by omega⟩
  have hp0 := inI32_product (q := (u - st.s1 + 2 ^ 13) / 2 ^ 14) ⟨by have := hd0'.1; omega,
    by have := hd0'.2; omega⟩ hk.first
  have hp1 := inI32_product (scaleTrunc_range hd1) hk.second
  have hp2 := inI32_product (scaleTrunc_range hd2) hk.third
  have ht1' : InI32 (exactStep k st u).s1 := ⟨by omega, by omega⟩
  have ht2' : InI32 (exactStep k st u).s2 := ⟨by omega, by omega⟩
  have htmp1 : ck32 (st.s0 + (u - st.s1 + 2 ^ 13) / 2 ^ 14 * k.1) = pure (exactStep k st u).s1 :=
    ck32_eq ht1'
  have htmp2 : ck32 (st.s1 + scaleTrunc ((exactStep k st u).s1 - st.s2) * k.2.1) =
    pure (exactStep k st u).s2 := ck32_eq ht2'
  have hout : ck32 (st.s2 + scaleTrunc ((exactStep k st u).s2 - st.s3) * k.2.2) =
    pure (exactStep k st u).s3 := ck32_eq ht3
  unfold allpassStep
  rw [ck32_eq hd0, pure_bind, ck32_eq hd0', pure_bind, ck32_eq hp0, pure_bind, htmp1, pure_bind,
    ck32_eq hd1, pure_bind, ck32_eq hp1, pure_bind, htmp2, pure_bind, ck32_eq hd2, pure_bind,
    ck32_eq hp2, pure_bind, hout, pure_bind]
  rfl

/-! ### Streams -/

/-- A branch over scaled samples, in exact arithmetic. -/
def exactFilter (k : Int × Int × Int) : Allpass → List Int → List Int × Allpass
  | st, [] => ([], st)
  | st, x :: xs =>
    let r := exactFilter k (exactStep k st x) xs
    ((exactStep k st x).s3 :: r.1, r.2)

/-- The interpolator in exact arithmetic. -/
def exactUp (xs : List Int) (st : By2State) : List Int × By2State :=
  let shifted := xs.map fun x => x * 2 ^ 15 + 2 ^ 14
  let upper := exactFilter kResampleAllpass0 st.upper shifted
  let lower := exactFilter kResampleAllpass1 st.lower shifted
  (inTurns (upper.1.map (· / 2 ^ 15)) (lower.1.map (· / 2 ^ 15)), ⟨lower.2, upper.2⟩)

theorem allpassFilter_exact {k : Int × Int × Int} (hk : HasRoom k) {xs : List Int}
    (hxs : ∀ x ∈ xs, |x| ≤ limit) :
    ∀ {st : Allpass}, (chain k).Settled limit (states st) →
      allpassFilter k st xs = pure (exactFilter k st xs) ∧ (chain k).Settled limit
        (states (exactFilter k st xs).2) := by
  induction xs with
  | nil => exact fun h => ⟨rfl, h⟩
  | cons x xs ih =>
    intro st h
    obtain ⟨hstep, hnext⟩ := allpassStep_exact hk h (hxs x List.mem_cons_self)
    obtain ⟨hrest, hend⟩ := ih (fun y hy => hxs y (List.mem_cons_of_mem x hy)) hnext
    refine ⟨?_, hend⟩
    rw [allpassFilter, hstep, pure_bind, hrest]
    rfl

/-- Samples between -14339 and 14339. -/
def Quiet (xs : List Int) : Prop := ∀ x ∈ xs, |x| ≤ 14339

theorem shiftIn_eq {x : Int} (hx : |x| ≤ 14339) :
    shiftIn x = pure (x * 2 ^ 15 + 2 ^ 14) ∧ |x * 2 ^ 15 + 2 ^ 14| ≤ limit := by
  rw [abs_le] at hx
  refine ⟨?_, abs_le.mpr ?_⟩
  · rw [shiftIn, ck32_eq ⟨by omega, by omega⟩, pure_bind, ck32_eq ⟨by omega, by omega⟩]
  · unfold limit
    omega

/-- Both branches have only seen quiet samples. -/
structure Settled (st : By2State) : Prop where
  lower : (chain kResampleAllpass1).Settled limit (states st.lower)
  upper : (chain kResampleAllpass0).Settled limit (states st.upper)

theorem settled_zero : Settled .zero :=
  ⟨Chain.settled_rest hasRoom_lower.proper (by decide), Chain.settled_rest hasRoom_upper.proper
    (by decide)⟩

theorem upBy2ShortToInt_exact {st : By2State} (h : Settled st) {xs : List Int} (hxs : Quiet xs) :
    upBy2ShortToInt xs st = pure (exactUp xs st) ∧ Settled (exactUp xs st).2 := by
  have hshift : xs.mapM shiftIn = pure (xs.map fun x => x * 2 ^ 15 + 2 ^ 14) :=
    mapM_eq_pure xs fun x hx => (shiftIn_eq (hxs x hx)).1
  have hlimit : ∀ y ∈ xs.map fun x => x * 2 ^ 15 + 2 ^ 14, |y| ≤ limit := by
    intro y hy
    obtain ⟨x, hx, rfl⟩ := List.mem_map.mp hy
    exact (shiftIn_eq (hxs x hx)).2
  obtain ⟨hupper, huend⟩ := allpassFilter_exact hasRoom_upper hlimit h.upper
  obtain ⟨hlower, hlend⟩ := allpassFilter_exact hasRoom_lower hlimit h.lower
  refine ⟨?_, hlend, huend⟩
  rw [upBy2ShortToInt, hshift, pure_bind, hupper, pure_bind, hlower, pure_bind]
  rfl

/-- A call of `WebRtcSpl_UpBy2ShortToInt`, and the states after it. -/
def UpCall (st : By2State) (xs : List Int) (st' : By2State) : Prop :=
  (upBy2ShortToInt xs st).val.2 = st'

/-- After any sequence of calls from the states 0 with samples between -14339
and 14339, the states are those of the exact interpolator, and one more such
call is exact: nothing in it overflows. -/
theorem interpolator_exact {calls : List (List Int)} {st : By2State}
    (hrun : Run UpCall .zero calls st) (hcalls : ∀ xs ∈ calls, Quiet xs) {xs : List Int}
    (hxs : Quiet xs) :
    st = calls.foldl (fun st xs => (exactUp xs st).2) .zero ∧
      (upBy2ShortToInt xs st).ok = true ∧
      upBy2ShortToInt xs st = pure (exactUp xs st) := by
  have hinv : Settled st ∧ st = calls.foldl (fun st xs => (exactUp xs st).2) .zero := by
    refine hrun.eq_foldl settled_zero ?_
    rintro st xs hmem st' hsettled rfl
    obtain ⟨heq, hend⟩ := upBy2ShortToInt_exact hsettled (hcalls xs hmem)
    rw [heq]
    exact ⟨rfl, hend⟩
  obtain ⟨heq, -⟩ := upBy2ShortToInt_exact hinv.1 hxs
  exact ⟨hinv.2, congrArg Chk.ok heq, heq⟩

/-- Two calls with samples at the bound. -/
theorem interpolator_exact_twice : (upBy2ShortToInt [-14339, 14339]
    (upBy2ShortToInt [14339, 14339, -14339] .zero).val.2).ok = true :=
  (interpolator_exact (.one rfl) (by simp [Quiet]) (by simp [Quiet])).2.1

/-- Three samples of full scale overflow. -/
theorem interpolator_overflows : (upBy2ShortToInt [32767, 32767, -32768] .zero).ok = false := by
  decide

/-- A stream of samples just above the bound, with the signs of the impulse
response of the last difference of the lower branch, read backwards: in turns,
but for the last ones. -/
def worst : List Int := (List.replicate 70 [14342, -14342]).flatten ++
  [14342, -14342, -14342, 14342, -14342, 14342, -14342, -14342, 14342, 14342]

example : (upBy2ShortToInt worst .zero).ok = false := by decide +kernel

end Interpolator
end AgcSpec
