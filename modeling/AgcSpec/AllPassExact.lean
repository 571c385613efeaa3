/-
# The decimator is exact

`WebRtcSpl_DownsampleBy2` is a pair of branches of three all-pass sections with
coefficients up to 0.92, in 32-bit integers. The sections of the library
`AllPass` bound what a stream of `int16_t` samples can make of them, however
long it is: an output is at most `1 + 2 a` times the inputs, plus what the
rounding adds. Through three sections this is a factor of 8.35, and the samples
have 26 bits where they enter; so nothing leaves 32 bits, and the products in
two halves of `WEBRTC_SPL_SCALEDIFF32` are what they stand for
(`decimator_exact`).
-/
import AgcSpec.Spl
import AgcSpec.Lib.AllPass
import AgcSpec.Lib.Run

namespace AgcSpec

open FixedPoint Runs

/-! ### Sections in exact arithmetic -/

/-- `C + floor(A * B / 65536)` for a section with the coefficient `a`, the last
input `x`, the last output `y` and the input `u`. -/
def exactSection (a x y u : Int) : Int := x + a * (u - y) / 2 ^ 16

/-- What holds of a section's last input and output while its inputs are at most
`X`. -/
abbrev SectionHeld (a X x y : Int) : Prop := AllPass.Held (2 ^ 16) a (2 ^ 16 - 1) X x y

/-- A bound for the outputs of a section. -/
def peak (a X : Int) : Int := AllPass.gain (2 ^ 16) a (2 ^ 16 - 1) X

/-- The product in two halves is exact where its result is in range, with room
for the lower half. -/
theorem scaleDiff32_eq {A B C : Int} (hA : 0 ≤ A ∧ A < 2 ^ 16) (hB : InI32 B)
    (h0 : -2 ^ 31 + 2 ^ 16 ≤ C + A * B / 2 ^ 16)
    (h1 : C + A * B / 2 ^ 16 < 2 ^ 31) : scaleDiff32 A B C = pure (C + A * B / 2 ^ 16) := by
  obtain ⟨hB0, hB1⟩ := hB
  have hsplit := floor_mul_split A B (show (2 : Int) ^ 16 ≠ 0 by norm_num)
  have hhi := mul_range (x := B / 2 ^ 16) (X := 2 ^ 15) ⟨by omega, by omega⟩ (y := A)
    (Y := 2 ^ 16 - 1) ⟨by omega, by omega⟩
  have hlo : 0 ≤ B % 2 ^ 16 * A ∧ B % 2 ^ 16 * A < 2 ^ 32 := by
    refine ⟨mul_nonneg (by omega) hA.1, ?_⟩
    calc B % 2 ^ 16 * A ≤ (2 ^ 16 - 1) * (2 ^ 16 - 1) :=
      mul_le_mul (by omega) (by omega) hA.1 (by norm_num)
      _ < 2 ^ 32 := by norm_num
  unfold scaleDiff32
  rw [ck32_eq ⟨by omega, by omega⟩, pure_bind, ck32_eq ⟨by omega, by omega⟩, pure_bind,
    cku32_eq hlo, pure_bind, ck32_eq ⟨by omega, by omega⟩, add_assoc, hsplit]

/-- A step of a section: its difference and its output are in range, and exact. -/
theorem section_exact {a X x y u : Int} (ha : 0 ≤ a ∧ a < 2 ^ 16) (h : SectionHeld a X x y)
    (hu : |u| ≤ X) (hX : X + peak a X < 2 ^ 31 - 2 ^ 16) :
    InI32 (u - y) ∧ scaleDiff32 a (u - y) x = pure (exactSection a x y u) ∧
      |exactSection a x y u| ≤ peak a X ∧
      SectionHeld a X u (exactSection a x y u) := by
  have hy := h.output_le (by norm_num) ha.1
  have hnext : SectionHeld a X u (exactSection a x y u) :=
    h.next (by norm_num) ha hu (AllPass.floor_error (by norm_num) x (a * (u - y)))
  have hv := hnext.output_le (by norm_num) ha.1
  change |y| ≤ peak a X at hy
  change |exactSection a x y u| ≤ peak a X at hv
  have hX0 : 0 ≤ X := (abs_nonneg u).trans hu
  rw [abs_le] at hu hy
  have hdiff : InI32 (u - y) := ⟨by omega, by omega⟩
  refine ⟨hdiff, ?_, hv, hnext⟩
  rw [abs_le, exactSection] at hv
  exact scaleDiff32_eq ha hdiff (by omega) (by omega)

/-- Three sections, one after the other, have room in 32 bits for inputs up to
`X`. -/
def Roomy (k0 k1 k2 X : Int) : Prop :=
  (0 ≤ k0 ∧ k0 < 2 ^ 16) ∧ (0 ≤ k1 ∧ k1 < 2 ^ 16) ∧ (0 ≤ k2 ∧ k2 < 2 ^ 16) ∧
    0 ≤ X ∧ X + peak k0 X < 2 ^ 31 - 2 ^ 16 ∧
    peak k0 X + peak k1 (peak k0 X) < 2 ^ 31 - 2 ^ 16 ∧
    peak k1 (peak k0 X) + peak k2 (peak k1 (peak k0 X)) < 2 ^ 31 - 2 ^ 16

instance (k0 k1 k2 X : Int) : Decidable (Roomy k0 k1 k2 X) := inferInstanceAs (Decidable (_ ∧ _))

theorem sectionHeld_zero {a X : Int} (ha : 0 ≤ a ∧ a < 2 ^ 16) (hX : 0 ≤ X) :
    SectionHeld a X 0 0 :=
  AllPass.Held.zero (by norm_num) ha (by norm_num) hX

theorem peak_nonneg {a X : Int} (ha : 0 ≤ a ∧ a < 2 ^ 16) (hX : 0 ≤ X) : 0 ≤ peak a X :=
  (abs_nonneg 0).trans ((sectionHeld_zero ha hX).output_le (by norm_num) ha.1)

/-! ### A branch of the decimator -/

/-- A branch in exact arithmetic: the sample in Q10 and the outputs of the three
sections. -/
def exactBranch (k0 k1 k2 x s0 s1 s2 s3 : Int) : Int × Int × Int × Int :=
  let in32 := x * 2 ^ 10
  let tmp1 := exactSection k0 s0 s1 in32
  let tmp2 := exactSection k1 s1 s2 tmp1
  (in32, tmp1, tmp2, exactSection k2 s2 s3 tmp2)

/-- The new states of a branch and its differences are in 32 bits, and its
products are exact. -/
structure BranchFits (k0 k1 k2 x s0 s1 s2 s3 : Int) : Prop where
  state0 : InI32 (exactBranch k0 k1 k2 x s0 s1 s2 s3).1
  state1 : InI32 (exactBranch k0 k1 k2 x s0 s1 s2 s3).2.1
  state2 : InI32 (exactBranch k0 k1 k2 x s0 s1 s2 s3).2.2.1
  state3 : InI32 (exactBranch k0 k1 k2 x s0 s1 s2 s3).2.2.2
  diff0 : InI32 ((exactBranch k0 k1 k2 x s0 s1 s2 s3).1 - s1)
  diff1 : InI32 ((exactBranch k0 k1 k2 x s0 s1 s2 s3).2.1 - s2)
  diff2 : InI32 ((exactBranch k0 k1 k2 x s0 s1 s2 s3).2.2.1 - s3)
  mulAccum0 : scaleDiff32 k0 ((exactBranch k0 k1 k2 x s0 s1 s2 s3).1 - s1) s0 =
    pure (s0 + k0 * ((exactBranch k0 k1 k2 x s0 s1 s2 s3).1 - s1) / 65536)
  mulAccum1 : scaleDiff32 k1 ((exactBranch k0 k1 k2 x s0 s1 s2 s3).2.1 - s2) s1 =
    pure (s1 + k1 * ((exactBranch k0 k1 k2 x s0 s1 s2 s3).2.1 - s2) / 65536)
  mulAccum2 : scaleDiff32 k2 ((exactBranch k0 k1 k2 x s0 s1 s2 s3).2.2.1 - s3) s2 =
    pure (s2 + k2 * ((exactBranch k0 k1 k2 x s0 s1 s2 s3).2.2.1 - s3) / 65536)

/-- The states of a branch while the samples in Q10 are at most `X`. -/
structure BranchHeld (k0 k1 k2 X s0 s1 s2 s3 : Int) : Prop where
  first : SectionHeld k0 X s0 s1
  second : SectionHeld k1 (peak k0 X) s1 s2
  third : SectionHeld k2 (peak k1 (peak k0 X)) s2 s3

section Branch

variable {k0 k1 k2 x s0 s1 s2 s3 : Int}

theorem branchHeld_zero {X : Int} (hk : Roomy k0 k1 k2 X) : BranchHeld k0 k1 k2 X 0 0 0 0 := by
  obtain ⟨h0, h1, h2, hX, -⟩ := hk
  exact ⟨sectionHeld_zero h0 hX, sectionHeld_zero h1 (peak_nonneg h0 hX),
    sectionHeld_zero h2 (peak_nonneg h1 (peak_nonneg h0 hX))⟩

theorem inI32_of_abs {v P : Int} (h : |v| ≤ P) (hP : P < 2 ^ 31) : InI32 v := by
  rw [abs_le] at h
  exact ⟨by omega, by omega⟩

theorem branch_exact (hk : Roomy k0 k1 k2 (2 ^ 25)) (h : BranchHeld k0 k1 k2 (2 ^ 25) s0 s1 s2 s3)
    (hx : InI16 x) :
    BranchFits k0 k1 k2 x s0 s1 s2 s3 ∧
      allpassBranch k0 k1 k2 x s0 s1 s2 s3 = pure (exactBranch k0 k1 k2 x s0 s1 s2 s3) ∧
      |(exactBranch k0 k1 k2 x s0 s1 s2 s3).2.2.2| ≤ peak k2 (peak k1 (peak k0 (2 ^ 25))) ∧
      BranchHeld k0 k1 k2 (2 ^ 25) (exactBranch k0 k1 k2 x s0 s1 s2 s3).1
        (exactBranch k0 k1 k2 x s0 s1 s2 s3).2.1
        (exactBranch k0 k1 k2 x s0 s1 s2 s3).2.2.1 (exactBranch k0 k1 k2 x s0 s1 s2 s3).2.2.2 := by
  obtain ⟨hk0, hk1, hk2, -, hX0, hX1, hX2⟩ := hk
  obtain ⟨hx0, hx1⟩ := hx
  have hin : |x * 2 ^ 10| ≤ 2 ^ 25 := abs_le.mpr ⟨by omega, by omega⟩
  have hin32 : InI32 (x * 2 ^ 10) := inI32_of_abs hin (by norm_num)
  obtain ⟨hd0, hm0, hv0, hh0⟩ := section_exact hk0 h.first hin hX0
  obtain ⟨hd1, hm1, hv1, hh1⟩ := section_exact hk1 h.second hv0 hX1
  obtain ⟨hd2, hm2, hv2, hh2⟩ := section_exact hk2 h.third hv1 hX2
  have hp0 := (abs_nonneg _).trans hv0
  have hp1 := (abs_nonneg _).trans hv1
  have hp2 := (abs_nonneg _).trans hv2
  refine ⟨?_, ?_, hv2, ⟨hh0, hh1, hh2⟩⟩
  · exact ⟨hin32, inI32_of_abs hv0 (by omega), inI32_of_abs hv1 (by omega),
      inI32_of_abs hv2 (by omega), hd0, hd1, hd2, hm0, hm1, hm2⟩
  · unfold allpassBranch
    rw [ck32_eq hin32, pure_bind, ck32_eq hd0, pure_bind, hm0, pure_bind, ck32_eq hd1, pure_bind,
      hm1, pure_bind, ck32_eq hd2, pure_bind, hm2, pure_bind]
    rfl

end Branch

/-! ### The decimator -/

/-- The lower and the upper branch of the decimator, on a pair of samples. -/
def exactLower (st : FiltState) (a : Int) : Int × Int × Int × Int :=
  exactBranch 12199 37471 60255 a st.state0 st.state1 st.state2 st.state3

def exactUpper (st : FiltState) (b : Int) : Int × Int × Int × Int :=
  exactBranch 3284 24441 49528 b st.state4 st.state5 st.state6 st.state7

/-- The states after a pair of samples. -/
def exactPair (st : FiltState) (a b : Int) : FiltState :=
  let lo := exactLower st a
  let up := exactUpper st b
  ⟨lo.1, lo.2.1, lo.2.2.1, lo.2.2.2, up.1, up.2.1, up.2.2.1, up.2.2.2⟩

/-- The decimator in exact arithmetic. -/
def exactDown (st : FiltState) : List Int → FiltState × List Int
  | a :: b :: rest =>
    let next := exactPair st a b
    let r := exactDown next rest
    (r.1, sat16 ((next.state3 + next.state7 + 1024) / 2 ^ 11) :: r.2)
  | _ => (st, [])

/-- Everything that is computed for a pair of samples fits. -/
structure PairFits (st : FiltState) (a b : Int) : Prop where
  lower : BranchFits 12199 37471 60255 a st.state0 st.state1 st.state2 st.state3
  upper : BranchFits 3284 24441 49528 b st.state4 st.state5 st.state6 st.state7
  sum : InI32 ((exactPair st a b).state3 + (exactPair st a b).state7)
  rounded : InI32 ((exactPair st a b).state3 + (exactPair st a b).state7 + 1024)

/-- Everything that is computed in a call fits. -/
def CallFits (st : FiltState) : List Int → Prop
  | a :: b :: rest => PairFits st a b ∧ CallFits (exactPair st a b) rest
  | _ => True

/-- The states of both branches are those of `int16_t` samples. -/
structure FiltHeld (st : FiltState) : Prop where
  lower : BranchHeld 12199 37471 60255 (2 ^ 25) st.state0 st.state1 st.state2 st.state3
  upper : BranchHeld 3284 24441 49528 (2 ^ 25) st.state4 st.state5 st.state6 st.state7

theorem roomy_lower : Roomy 12199 37471 60255 (2 ^ 25) := by decide

theorem roomy_upper : Roomy 3284 24441 49528 (2 ^ 25) := by decide

theorem filtHeld_zero : FiltHeld .zero :=
  ⟨branchHeld_zero roomy_lower, branchHeld_zero roomy_upper⟩

theorem pair_exact {st : FiltState} {a b : Int} (h : FiltHeld st) (ha : InI16 a) (hb : InI16 b) :
    PairFits st a b ∧ FiltHeld (exactPair st a b) ∧
      allpassBranch 12199 37471 60255 a st.state0 st.state1 st.state2 st.state3 =
        pure (exactLower st a) ∧
      allpassBranch 3284 24441 49528 b st.state4 st.state5 st.state6 st.state7 =
        pure (exactUpper st b) := by
  obtain ⟨hfl, hel, hol, hhl⟩ := branch_exact roomy_lower h.lower ha
  obtain ⟨hfu, heu, hou, hhu⟩ := branch_exact roomy_upper h.upper hb
  have hsum : peak 60255 (peak 37471 (peak 12199 (2 ^ 25))) +
    peak 49528 (peak 24441 (peak 3284 (2 ^ 25))) <
      2 ^ 31 - 2 ^ 16 := by decide
  change |(exactPair st a b).state3| ≤ _ at hol
  change |(exactPair st a b).state7| ≤ _ at hou
  rw [abs_le] at hol hou
  exact ⟨⟨hfl, hfu, ⟨by omega, by omega⟩, ⟨by omega, by omega⟩⟩, ⟨hhl, hhu⟩, hel,
    heu⟩

/-- A call: pair by pair, from states of samples to states of samples. -/
theorem call_exact : ∀ (xs : List Int) {st : FiltState},
    FiltHeld st → (∀ x ∈ xs, InI16 x) → CallFits st xs ∧
      downsampleBy2 st xs = pure (exactDown st xs) ∧ FiltHeld (exactDown st xs).1
  | [], _, h, _ => ⟨trivial, by simp only [downsampleBy2, exactDown], h⟩
  | [_], _, h, _ => ⟨trivial, by simp only [downsampleBy2, exactDown], h⟩
  | a :: b :: rest, st, h, hxs => by
    obtain ⟨hfits, hheld, hlo, hup⟩ := pair_exact h (hxs a (by simp)) (hxs b (by simp))
    obtain ⟨hcall, heq, hend⟩ := call_exact rest hheld fun x hx => hxs x (by simp [hx])
    refine ⟨⟨hfits, hcall⟩, ?_, hend⟩
    have hsum : ck32 ((exactLower st a).2.2.2 + (exactUpper st b).2.2.2) = pure _ :=
      ck32_eq hfits.sum
    have hrounded : ck32 ((exactLower st a).2.2.2 + (exactUpper st b).2.2.2 + 1024) = pure _ :=
      ck32_eq hfits.rounded
    rw [downsampleBy2, hlo, pure_bind, hup, pure_bind, hsum, pure_bind, hrounded, pure_bind]
    exact congrArg (· >>= fun r : FiltState × List Int =>
      pure (r.1, sat16 (((exactPair st a b).state3 + (exactPair st a b).state7 + 1024) / 2 ^ 11) ::
        r.2)) heq

/-- A call of `WebRtcSpl_DownsampleBy2` on samples, and the states after it. -/
def DownCall (st : FiltState) (xs : List Int) (st' : FiltState) : Prop :=
  (∀ x ∈ xs, InI16 x) ∧ (downsampleBy2 st xs).val.1 = st'

/-- After any sequence of calls from the states 0, the states are those of the
exact decimator, and in one more call everything fits and is exact. -/
theorem decimator_exact {calls : List (List Int)} {st : FiltState}
    (hrun : Run DownCall .zero calls st) {xs : List Int} (hxs : ∀ x ∈ xs, InI16 x) :
    st = calls.foldl (fun st xs => (exactDown st xs).1) .zero ∧ CallFits st xs ∧
      downsampleBy2 st xs = pure (exactDown st xs) := by
  have hinv : FiltHeld st ∧ st = calls.foldl (fun st xs => (exactDown st xs).1) .zero := by
    refine hrun.eq_foldl filtHeld_zero ?_
    rintro st xs - st' hheld ⟨hxs, rfl⟩
    obtain ⟨-, heq, hend⟩ := call_exact xs hheld hxs
    rw [heq]
    exact ⟨rfl, hend⟩
  obtain ⟨hfits, heq, -⟩ := call_exact xs hinv.1 hxs
  exact ⟨hinv.2, hfits, heq⟩

/-- A first call on two samples of full scale, and a second. -/
theorem decimator_exact_fullScale :
    downsampleBy2 (downsampleBy2 .zero [32767, -32768]).val.1 [-32768, 32767] =
    pure (exactDown (downsampleBy2 .zero [32767, -32768]).val.1 [-32768, 32767]) :=
  (decimator_exact (.one ⟨by decide, rfl⟩) (by decide)).2.2

end AgcSpec
