/-
# The choice of a resampling mode

`Resampler::ComputeResamplerMode` runs Euclid's algorithm with C's remainder,
on any two integers. Where it has a meaning, it gives the greatest common
divisor up to its sign, which is that of one of the two arguments
(`euclid_val`), so the mode is the one with the ratio of the frequencies
(`computeResamplerMode_eq_some`), and there is none if no mode has it. It has
no meaning for an output frequency 0, and where the quotient of `INT_MIN` by
-1 comes up; and two negative frequencies are taken for their absolute values
(`mode_exact_iff`).

`ResetIfNeeded` compares kHz where the mode depends on Hz. It is as good as
`Reset` only where it calls it, or where the frequencies it takes for the old
ones have their ratio (`resetIfNeeded_iff`).
-/
import AgcSpec.Resampler
import AgcSpec.Lib.Run

namespace AgcSpec
namespace Modes

open FixedPoint Runs

/-! ### Euclid's algorithm -/

/-- The rounds of the loop. -/
def rounds (a b : ℕ) : ℕ :=
  if b = 0 then 0 else if a % b = 0 then 0 else rounds b (a % b) + 1
termination_by b
decreasing_by exact Nat.mod_lt _ (by omega)

/-- The algorithm ends with a negative divisor: the remainders have the sign of
the one and of the other argument in turns. -/
def EndsNegative (a b : Int) : Prop :=
  Even (rounds a.natAbs b.natAbs) ∧ b < 0 ∨ ¬ Even (rounds a.natAbs b.natAbs) ∧ a < 0

instance (a b : Int) : Decidable (EndsNegative a b) := inferInstanceAs (Decidable (_ ∨ _))

theorem rounds_zero {a b : ℕ} (h : a % b = 0) : rounds a b = 0 := by
  rw [rounds]
  split_ifs <;> rfl

theorem rounds_succ {a b : ℕ} (hb : b ≠ 0) (h : a % b ≠ 0) :
    rounds a b = rounds b (a % b) + 1 := by
  rw [rounds, if_neg hb, if_neg h]

theorem tmod_neg_iff {a b : Int} (h : a.tmod b ≠ 0) : a.tmod b < 0 ↔ a < 0 := by
  constructor
  · intro hlt
    by_contra ha
    have := Int.tmod_nonneg b (not_lt.mp ha)
    omega
  · intro ha
    have hneg := Int.neg_tmod (-a) b
    rw [neg_neg] at hneg
    have := Int.tmod_nonneg b (show 0 ≤ -a by omega)
    omega

theorem euclid_val (a b : Int) (hb : b ≠ 0) :
    (euclid a b).val = if EndsNegative a b then -(Int.gcd a b : Int) else Int.gcd a b := by
  induction a, b using euclid.induct with
  | case1 a => exact absurd rfl hb
  | case2 a b _ hc =>
    have hmod : a.natAbs % b.natAbs = 0 := by rw [← Int.natAbs_tmod, hc]; rfl
    have hgcd : Int.gcd a b = b.natAbs := Nat.gcd_eq_right (Nat.dvd_of_mod_eq_zero hmod)
    have hsign : EndsNegative a b ↔ b < 0 := by
      rw [EndsNegative, rounds_zero hmod]
      simp
    rw [euclid, if_neg hb, if_pos hc, val_flag, hgcd]
    simp only [hsign]
    split <;> omega
  | case3 a b _ hc ih =>
    have hmod : a.natAbs % b.natAbs = (a.tmod b).natAbs := (Int.natAbs_tmod a b).symm
    have hgcd : Int.gcd b (a.tmod b) = Int.gcd a b := by
      rw [Int.gcd, Int.gcd, ← hmod, Nat.gcd_comm a.natAbs, Nat.gcd_rec b.natAbs a.natAbs,
        Nat.gcd_comm]
    have hsign : EndsNegative b (a.tmod b) ↔ EndsNegative a b := by
      rw [EndsNegative, EndsNegative, rounds_succ (a := a.natAbs) (b := b.natAbs) (by omega)
        (by omega), hmod, Nat.even_add_one, not_not, tmod_neg_iff hc]
      exact or_comm
    rw [euclid, if_neg hb, if_neg hc, ih hc, hgcd]
    simp only [hsign]

theorem euclid_ne_zero {a b : Int} (hb : b ≠ 0) : (euclid a b).val ≠ 0 := by
  have hgcd : Int.gcd a b ≠ 0 := fun h => hb (Int.gcd_eq_zero_iff.mp h).2
  rw [euclid_val a b hb]
  split <;> omega

/-- A remainder that has no meaning is the last one, of `INT_MIN` by -1, and
`INT_MIN` is one of the arguments. -/
theorem euclid_not_ok {a b : Int} (hb : b ≠ 0) (hr : InI32 b) :
    (euclid a b).ok = false → (euclid a b).val = -1 ∧ (a = -2 ^ 31 ∨ b = -2 ^ 31) := by
  obtain ⟨h0, h1⟩ := hr
  induction a, b using euclid.induct with
  | case1 a => exact absurd rfl hb
  | case2 a b _ hc =>
    intro h
    rw [euclid, if_neg hb, if_pos hc] at h ⊢
    have hbad : a = -2 ^ 31 ∧ b = -1 := not_not.mp (decide_eq_false_iff_not.mp h)
    exact ⟨hbad.2, .inl hbad.1⟩
  | case3 a b _ hc ih =>
    intro h
    rw [euclid, if_neg hb, if_neg hc] at h ⊢
    have hlt : (a.tmod b).natAbs < b.natAbs := by
      rw [Int.natAbs_tmod]
      exact Nat.mod_lt _ (by omega)
    obtain ⟨hv, hor⟩ := ih hc (by omega) (by omega) h
    exact ⟨hv, .inr (by omega)⟩

/-! ### Where the choice has a meaning -/

/-- A quotient of `INT_MIN` by -1 comes up. -/
def Overflows (a b : Int) : Prop :=
  (a = -2 ^ 31 ∨ b = -2 ^ 31) ∧ Int.gcd a b = 1 ∧ EndsNegative a b

theorem overflows_iff {a b : Int} (hb : b ≠ 0) :
    Overflows a b ↔ (a = -2 ^ 31 ∨ b = -2 ^ 31) ∧ (euclid a b).val = -1 := by
  rw [Overflows, euclid_val a b hb]
  refine and_congr_right fun _ => ?_
  split
  · rename_i h
    rw [and_iff_left h]
    omega
  · rename_i h
    exact iff_of_false (fun h' => h h'.2) (by omega)

theorem inI32_tdiv_iff {a b : Int} (ha : InI32 a) (hb : b ≠ 0) :
    InI32 (a.tdiv b) ↔ ¬ (a = -2 ^ 31 ∧ b = -1) := by
  obtain ⟨h0, h1⟩ := ha
  constructor
  · rintro ⟨-, h⟩ ⟨rfl, rfl⟩
    exact absurd h (by decide)
  · intro h
    have habs := Int.natAbs_tdiv_le_natAbs a b
    rcases (by omega : b = -1 ∨ b = 1 ∨ 2 ≤ b.natAbs) with rfl | rfl | hb2
    · have : a ≠ -2 ^ 31 := fun h' => h ⟨h', rfl⟩
      exact ⟨by omega, by omega⟩
    · rw [Int.tdiv_one]
      exact ⟨h0, h1⟩
    · have hhalf : (a.tdiv b).natAbs ≤ a.natAbs / 2 := by
        rw [Int.natAbs_tdiv]
        exact Nat.div_le_div_left hb2 two_pos
      exact ⟨by omega, by omega⟩

theorem computeResamplerMode_ok_iff {inFreq outFreq : Int} (hin : InI32 inFreq)
    (hout : InI32 outFreq) :
    (computeResamplerMode inFreq outFreq).ok = true ↔
      outFreq ≠ 0 ∧ ¬ Overflows inFreq outFreq := by
  simp only [computeResamplerMode, Chk.ok_bind, Chk.ok_pure, Bool.and_true, Bool.and_eq_true,
    ok_ck32_iff]
  by_cases h0 : outFreq = 0
  · refine iff_of_false (fun h => ?_) (fun h => h.1 h0)
    rw [euclid, if_pos h0] at h
    cases h.1
  · have hd := euclid_ne_zero (a := inFreq) h0
    rw [overflows_iff h0, inI32_tdiv_iff hin hd, inI32_tdiv_iff hout hd]
    constructor
    · rintro ⟨-, hin', hout'⟩
      exact ⟨h0, fun h => h.1.elim (fun h' => hin' ⟨h', h.2⟩)
        (fun h' => hout' ⟨h', h.2⟩)⟩
    · rintro ⟨-, h⟩
      refine ⟨?_, fun h' => h ⟨.inl h'.1, h'.2⟩, fun h' => h ⟨.inr h'.1, h'.2⟩⟩
      by_contra hok
      obtain ⟨hv, hor⟩ := euclid_not_ok h0 hout (Bool.eq_false_iff.mpr hok)
      exact h ⟨hor, hv⟩

/-! ### The mode -/

theorem parts_coprime (mode : ResamplerMode) : IsCoprime (mode.inPart : Int) mode.outPart := by
  rw [Int.isCoprime_iff_gcd_eq_one]
  cases mode <;> rfl

theorem parts_pos (mode : ResamplerMode) :
    (0 : Int) < mode.inPart ∧ (0 : Int) < mode.outPart := by
  cases mode <;> decide

/-- Coprime numbers with the ratio of a mode are its parts, or their negatives. -/
theorem eq_parts {p q : Int} {mode : ResamplerMode} (hpq : Int.gcd p q = 1)
    (h : p * mode.outPart = q * mode.inPart)
    (hneg : ¬ (p < 0 ∧ q < 0)) : p = mode.inPart ∧ q = mode.outPart := by
  obtain ⟨hi, ho⟩ := parts_pos mode
  have hdvd : (mode.inPart : Int) ∣ p :=
    (parts_coprime mode).dvd_of_dvd_mul_right ⟨q, by rw [h, mul_comm]⟩
  obtain ⟨k, rfl⟩ := hdvd
  have hq : q = mode.outPart * k := by
    refine mul_right_cancel₀ (ne_of_gt hi) ?_
    rw [← h]
    ring
  subst hq
  have hk : k ∣ 1 := by
    have := Int.dvd_coe_gcd (dvd_mul_left k (mode.inPart : Int))
      (dvd_mul_left k (mode.outPart : Int))
    rwa [hpq] at this
  rcases Int.isUnit_iff.mp (isUnit_of_dvd_one hk) with rfl | rfl
  · exact ⟨mul_one _, mul_one _⟩
  · exact absurd ⟨by linarith, by linarith⟩ hneg

/-- The quotients by the greatest common divisor are coprime. -/
theorem gcd_quotients {a b p q : Int} (hg : (0 : Int) < Int.gcd a b) (hp : a = Int.gcd a b * p)
    (hq : b = Int.gcd a b * q) : Int.gcd p q = 1 := by
  have h := Int.gcd_mul_left (Int.gcd a b : Int) p q
  rw [← hp, ← hq, Int.natAbs_natCast] at h
  exact Nat.mul_left_cancel (by exact_mod_cast hg) (h.symm.trans (mul_one _).symm)

/-- The frequencies over the divisor Euclid's algorithm gives: coprime, and not
both negative. -/
theorem reduced_spec (a : Int) {b : Int} (hb : b ≠ 0) :
    ∃ p q, a = (euclid a b).val * p ∧ b = (euclid a b).val * q ∧
    Int.gcd p q = 1 ∧ ¬ (p < 0 ∧ q < 0) := by
  have hg : (0 : Int) < Int.gcd a b := by exact_mod_cast Int.gcd_pos_of_ne_zero_right a hb
  have hval := euclid_val a b hb
  obtain ⟨p, hp⟩ := Int.gcd_dvd_left a b
  obtain ⟨q, hq⟩ := Int.gcd_dvd_right a b
  have hcoprime := gcd_quotients hg hp hq
  have hsign : ∀ {x y : Int}, x = Int.gcd a b * y → (x < 0 ↔ y < 0) := by
    intro x y hxy
    rw [hxy]
    exact ⟨fun h => neg_of_mul_neg_right h hg.le, mul_neg_of_pos_of_neg hg⟩
  by_cases hneg : EndsNegative a b
  · rw [if_pos hneg] at hval
    refine ⟨-p, -q, by rw [hval, neg_mul_neg]; exact hp, by rw [hval, neg_mul_neg]; exact hq,
      by simpa using hcoprime, ?_⟩
    rintro ⟨hp', hq'⟩
    have ha : ¬ a < 0 := fun h => by have := (hsign hp).mp h; omega
    have hb' : ¬ b < 0 := fun h => by have := (hsign hq).mp h; omega
    exact hneg.elim (fun h => hb' h.2) (fun h => ha h.2)
  · rw [if_neg hneg] at hval
    refine ⟨p, q, by rw [hval]; exact hp, by rw [hval]; exact hq, hcoprime, ?_⟩
    rintro ⟨hp', hq'⟩
    have ha := (hsign hp).mpr hp'
    have hb' := (hsign hq).mpr hq'
    by_cases he : Even (rounds a.natAbs b.natAbs)
    · exact hneg (.inl ⟨he, hb'⟩)
    · exact hneg (.inr ⟨he, ha⟩)

/-- The mode is the one with the ratio of the frequencies. -/
theorem computeResamplerMode_eq_some {inFreq outFreq : Int}
    (hok : (computeResamplerMode inFreq outFreq).ok = true) (hout : outFreq ≠ 0)
    (mode : ResamplerMode) :
    (computeResamplerMode inFreq outFreq).val = some mode ↔
      inFreq * mode.outPart = outFreq * mode.inPart := by
  constructor
  · intro hval
    exact (mode_ratio (Chk.eq_pure hval hok)).1
  · intro hratio
    obtain ⟨p, q, hp, hq, hcoprime, hneg⟩ := reduced_spec inFreq hout
    have hd := euclid_ne_zero (a := inFreq) hout
    simp only [computeResamplerMode, Chk.ok_bind, Chk.ok_pure, Bool.and_true, Bool.and_eq_true,
      ok_ck32_iff] at hok
    simp only [computeResamplerMode, Chk.val_bind, Chk.val_pure, val_ck32, i32_of hok.2.1,
      i32_of hok.2.2]
    generalize (euclid inFreq outFreq).val = d at hp hq hd
    subst hp hq
    have hpq : p * mode.outPart = q * mode.inPart := by
      refine mul_left_cancel₀ hd ?_
      rw [← mul_assoc, ← mul_assoc, hratio]
    obtain ⟨rfl, rfl⟩ := eq_parts hcoprime hpq hneg
    rw [Int.mul_tdiv_cancel_left _ hd, Int.mul_tdiv_cancel_left _ hd]
    cases mode <;> rfl

/-- Numbers with the ratio of a mode have the same sign. -/
theorem same_sign {a b : Int} {mode : ResamplerMode} (hb : b ≠ 0)
    (h : a * mode.outPart = b * mode.inPart) : 0 < a ∧ 0 < b ∨ a < 0 ∧ b < 0 := by
  obtain ⟨hi, ho⟩ := parts_pos mode
  rcases lt_or_gt_of_ne hb with hneg | hpos
  · refine .inr ⟨?_, hneg⟩
    by_contra ha
    have := mul_nonneg (not_lt.mp ha) ho.le
    have := mul_neg_of_neg_of_pos hneg hi
    omega
  · refine .inl ⟨?_, hpos⟩
    by_contra ha
    have := mul_nonpos_of_nonpos_of_nonneg (not_lt.mp ha) ho.le
    have := mul_pos hpos hi
    omega

/-- The frequencies are positive, and over their greatest common divisor they
are the parts of the mode. -/
def HasRatio (inFreq outFreq : Int) (mode : ResamplerMode) : Prop :=
  0 < inFreq ∧ 0 < outFreq ∧ inFreq / Int.gcd inFreq outFreq = mode.inPart ∧
    outFreq / Int.gcd inFreq outFreq = mode.outPart

theorem hasRatio_iff {inFreq outFreq : Int} {mode : ResamplerMode} :
    HasRatio inFreq outFreq mode ↔ 0 < inFreq ∧ 0 < outFreq ∧
      inFreq * mode.outPart = outFreq * mode.inPart := by
  refine and_congr_right fun hin => and_congr_right fun hout => ?_
  have hg : (0 : Int) < Int.gcd inFreq outFreq := by
    exact_mod_cast Int.gcd_pos_of_ne_zero_left outFreq (ne_of_gt hin)
  obtain ⟨p, hp⟩ := Int.gcd_dvd_left inFreq outFreq
  obtain ⟨q, hq⟩ := Int.gcd_dvd_right inFreq outFreq
  have hdivp : inFreq / Int.gcd inFreq outFreq = p := Int.ediv_eq_of_eq_mul_right (ne_of_gt hg) hp
  have hdivq : outFreq / Int.gcd inFreq outFreq = q := Int.ediv_eq_of_eq_mul_right (ne_of_gt hg) hq
  rw [hdivp, hdivq]
  constructor
  · rintro ⟨hi, ho⟩
    calc inFreq * mode.outPart = Int.gcd inFreq outFreq * p * q := by rw [← ho, ← hp]
      _ = Int.gcd inFreq outFreq * q * p := mul_right_comm _ _ _
      _ = outFreq * mode.inPart := by rw [← hi, ← hq]
  · intro h
    refine eq_parts (gcd_quotients hg hp hq) ?_ fun hneg => ?_
    · refine mul_left_cancel₀ (ne_of_gt hg) ?_
      rw [← mul_assoc, ← mul_assoc, ← hp, ← hq, h]
    · have := mul_neg_of_pos_of_neg hg hneg.1
      omega

/-- The choice has a meaning and is the mode of the ratio exactly where the
output frequency is not 0, no quotient of `INT_MIN` by -1 comes up, and the
frequencies are not two negative ones with the ratio of a mode. -/
theorem mode_exact_iff {inFreq outFreq : Int} (hin : InI32 inFreq) (hout : InI32 outFreq) :
    ((computeResamplerMode inFreq outFreq).ok = true ∧
        ∀ mode, (computeResamplerMode inFreq outFreq).val = some mode ↔
          HasRatio inFreq outFreq mode) ↔
      outFreq ≠ 0 ∧ ¬ Overflows inFreq outFreq ∧
        ¬ (inFreq < 0 ∧ outFreq < 0 ∧ ∃ mode : ResamplerMode,
          inFreq * mode.outPart = outFreq * mode.inPart) := by
  rw [computeResamplerMode_ok_iff hin hout]
  constructor
  · rintro ⟨⟨h0, hover⟩, hmode⟩
    refine ⟨h0, hover, fun ⟨hin', _, mode, hratio⟩ => ?_⟩
    have hok := (computeResamplerMode_ok_iff hin hout).mpr ⟨h0, hover⟩
    have hpos := (hmode mode).mp ((computeResamplerMode_eq_some hok h0 mode).mpr hratio)
    exact absurd hpos.1 (by omega)
  · rintro ⟨h0, hover, hneg⟩
    have hok := (computeResamplerMode_ok_iff hin hout).mpr ⟨h0, hover⟩
    refine ⟨⟨h0, hover⟩, fun mode => ?_⟩
    rw [computeResamplerMode_eq_some hok h0 mode, hasRatio_iff]
    constructor
    · intro hratio
      rcases same_sign h0 hratio with hpos | hneg'
      · exact ⟨hpos.1, hpos.2, hratio⟩
      · exact absurd ⟨hneg'.1, hneg'.2, mode, hratio⟩ hneg
    · exact fun h => h.2.2

/-- 8 kHz to 16 kHz, where the condition holds. -/
theorem mode_exact_iff_double : (8000 : Int) ≠ 0 ∧
    ((computeResamplerMode 8000 16000).val = some .mode1To2 ↔ HasRatio 8000 16000 .mode1To2) :=
  ⟨by decide, ((mode_exact_iff ⟨by decide, by decide⟩ ⟨by decide, by decide⟩).mpr
    ⟨by decide, fun h => absurd h.1 (by decide), fun h => absurd h.1 (by decide)⟩).2 _⟩

/-- An output frequency 0 is a divisor, and two negative frequencies are
accepted. -/
theorem mode_not_exact : (computeResamplerMode 8000 0).ok = false ∧
    (computeResamplerMode (-8000) (-16000)) = pure (some .mode1To2) := by
  constructor
  · simp [computeResamplerMode, euclid, flag]
  · simp [computeResamplerMode, euclid, flag]
    rfl

/-! ### `ResetIfNeeded` -/

/-- The calls that choose a mode. -/
inductive Call where
  | reset (inFreq outFreq : Int) (num_channels : ℕ)
  | resetIfNeeded (inFreq outFreq : Int) (num_channels : ℕ)

def Call.run (r : Resampler) : Call → Chk (Int × Resampler)
  | reset inFreq outFreq num_channels => r.reset inFreq outFreq num_channels
  | resetIfNeeded inFreq outFreq num_channels => r.resetIfNeeded inFreq outFreq num_channels

/-- A call that has a meaning, and the object after it. -/
def Step (r : Resampler) (call : Call) (r' : Resampler) : Prop :=
  (call.run r).ok = true ∧ (call.run r).val.2 = r'

theorem num_channels_le {r : Resampler} {calls : List Call} (hrun : Run Step .new calls r) :
    r.num_channels_ ≤ 2 := by
  refine hrun.invariant (I := fun r => r.num_channels_ ≤ 2) (Nat.zero_le 2) ?_
  rintro r call r' hr ⟨-, rfl⟩
  have hreset : ∀ inFreq outFreq n, (r.reset inFreq outFreq n).val.2.num_channels_ ≤ 2 := by
    intro inFreq outFreq n
    rcases r.reset_cases inFreq outFreq n
      with ⟨-, h⟩ | ⟨hn, -, ⟨-, h⟩ | ⟨mode, -, h⟩⟩
    · rw [h]
      exact hr
    · rw [h]
      exact hr
    · rw [h]
      exact show n ≤ 2 by omega
  cases call with
  | reset inFreq outFreq n => exact hreset inFreq outFreq n
  | resetIfNeeded inFreq outFreq n =>
    simp only [Call.run, Resampler.resetIfNeeded]
    split
    · exact hreset inFreq outFreq n
    · exact hr

/-- `ResetIfNeeded` returns what `Reset` returns, and if that is 0, the object
is in the mode `Reset` chooses. -/
def Agrees (r : Resampler) (inFreq outFreq : Int) (num_channels : ℕ) : Prop :=
  (r.resetIfNeeded inFreq outFreq num_channels).val.1 =
    (r.reset inFreq outFreq num_channels).val.1 ∧
      ((r.resetIfNeeded inFreq outFreq num_channels).val.1 = 0 →
        (computeResamplerMode inFreq outFreq).val =
          some (r.resetIfNeeded inFreq outFreq num_channels).val.2.my_mode_)

theorem computeResamplerMode_ok {inFreq outFreq : Int} (hin : 0 < inFreq ∧ InI32 inFreq)
    (hout : 0 < outFreq ∧ InI32 outFreq) : (computeResamplerMode inFreq outFreq).ok = true := by
  refine (computeResamplerMode_ok_iff hin.2 hout.2).mpr ⟨ne_of_gt hout.1, fun h => ?_⟩
  rcases h.1 with h' | h'
  · omega
  · omega

theorem reset_ok {r : Resampler} {inFreq outFreq : Int}
    (h : (computeResamplerMode inFreq outFreq).ok = true) (n : ℕ) :
    (r.reset inFreq outFreq n).ok = true := by
  rcases r.reset_cases inFreq outFreq n with ⟨-, hret⟩ | ⟨-, hok, -⟩
  · rw [hret]
    rfl
  · exact hok.trans h

/-- After `Reset` has returned 0, the object is in the mode it has chosen. -/
theorem mode_of_reset {r : Resampler} {inFreq outFreq : Int} {n : ℕ}
    (h : (r.reset inFreq outFreq n).val.1 = 0) :
    (computeResamplerMode inFreq outFreq).val = some (r.reset inFreq outFreq n).val.2.my_mode_ := by
  rcases r.reset_cases inFreq outFreq n
    with ⟨-, hret⟩ | ⟨-, -, ⟨-, hret⟩ | ⟨mode, hmode, hret⟩⟩
  · rw [hret] at h
    cases h
  · rw [hret] at h
    cases h
  · rw [hret, hmode]

/-- `Reset` returns 0 for one or two channels and frequencies that have a mode. -/
theorem reset_ret (r : Resampler) (inFreq outFreq : Int) {n : ℕ} (hn : n = 1 ∨ n = 2) :
    (r.reset inFreq outFreq n).val.1 = 0 ↔ ∃ mode,
      (computeResamplerMode inFreq outFreq).val = some mode := by
  rcases r.reset_cases inFreq outFreq n
    with ⟨hn', -⟩ | ⟨-, -, ⟨hmode, hret⟩ | ⟨mode, hmode, hret⟩⟩
  · omega
  · rw [hret, hmode]
    exact iff_of_false (by decide : ¬ (-1 : Int) = 0) (by simp)
  · rw [hret]
    exact iff_of_true rfl ⟨mode, hmode⟩

/-- After any sequence of the two calls, and for positive frequencies and a
positive number of channels, `ResetIfNeeded` agrees with `Reset` exactly where
it calls it, or where the frequencies have the ratio of the mode the object is
in. -/
theorem resetIfNeeded_iff {r : Resampler} {calls : List Call} {inFreq outFreq : Int} {n : ℕ}
    (hrun : Run Step .new calls r) (hin : 0 < inFreq ∧ InI32 inFreq)
    (hout : 0 < outFreq ∧ InI32 outFreq) (hn : 0 < n) :
    (r.resetIfNeeded inFreq outFreq n).ok = true ∧ (r.reset inFreq outFreq n).ok = true ∧
      (Agrees r inFreq outFreq n ↔
        (inFreq / 1000 ≠ r.my_in_frequency_khz_ ∨ outFreq / 1000 ≠ r.my_out_frequency_khz_ ∨
          n ≠ r.num_channels_) ∨
          inFreq * r.my_mode_.outPart = outFreq * r.my_mode_.inPart) := by
  have hmode := computeResamplerMode_ok hin hout
  have hok := reset_ok (r := r) hmode n
  rw [← Int.tdiv_eq_ediv_of_nonneg hin.1.le, ← Int.tdiv_eq_ediv_of_nonneg hout.1.le]
  unfold Agrees Resampler.resetIfNeeded
  split
  · rename_i hdiff
    exact ⟨hok, hok, iff_of_true ⟨rfl, mode_of_reset⟩ (.inl hdiff)⟩
  · rename_i hsame
    refine ⟨rfl, hok, ?_⟩
    rw [or_iff_right hsame, ← computeResamplerMode_eq_some hmode (ne_of_gt hout.1)]
    have hn' : n = 1 ∨ n = 2 := by
      have := num_channels_le hrun
      omega
    constructor
    · rintro ⟨-, h⟩
      exact h rfl
    · intro h
      exact ⟨((reset_ret r inFreq outFreq hn').mpr ⟨_, h⟩).symm, fun _ => h⟩

theorem computeResamplerMode_8000_16000 :
    computeResamplerMode 8000 16000 = pure (some .mode1To2) := by
  simp [computeResamplerMode, euclid, flag]
  rfl

/-- The object after `Reset(8000, 16000, 1)`. -/
def doubling : Resampler := ⟨8, 16, 1, .mode1To2, .mono FiltState.zero, by decide⟩

theorem run_doubling : Run Step .new [.reset 8000 16000 1] doubling := by
  apply Run.one
  have h : Resampler.new.reset 8000 16000 1 = pure (0, doubling) := by
    unfold Resampler.reset
    rw [computeResamplerMode_8000_16000]
    rfl
  rw [Step, Call.run, h]
  exact ⟨rfl, rfl⟩

/-- 8200 Hz to 16400 Hz is 8 kHz to 16 kHz for `ResetIfNeeded`, and has its mode. -/
theorem resetIfNeeded_iff_doubling :
    (8200 * doubling.my_mode_.outPart : Int) = 16400 * doubling.my_mode_.inPart ∧
    Agrees doubling 8200 16400 1 :=
  ⟨rfl, (@resetIfNeeded_iff _ _ 8200 16400 1 run_doubling ⟨by decide, by decide, by decide⟩
    ⟨by decide, by decide, by decide⟩ one_pos).2.2.mpr (.inr rfl)⟩

/-- 8500 Hz is 8 kHz for `ResetIfNeeded`, which keeps the mode for 8000 Hz where
`Reset` has none. -/
theorem resetIfNeeded_keeps : Run Step .new [.reset 8000 16000 1] doubling ∧
    (doubling.resetIfNeeded 8500 16000 1).val.1 = 0 ∧
      (doubling.reset 8500 16000 1).val.1 = -1 := by
  refine ⟨run_doubling, rfl, ?_⟩
  have h : computeResamplerMode 8500 16000 = pure none := by
    simp [computeResamplerMode, euclid, flag]
    rfl
  unfold Resampler.reset
  rw [h]
  rfl

end Modes
end AgcSpec
