/-
# The limiter

The limiting loop of the digital stage lowers the gain of a sub-frame until
the loudest sample of the sub-frame does not overload. Its test is a rounded
one, on the squares of gain and sample, with the bits of both rounded up, so a
gain it lets through is safe: no sample of the sub-frame leaves 16 bits
(`no_clip`).

A sub-frame is scaled by a ramp from the gain of the one before to its own.
After the reductions have been moved one sub-frame ahead, both ends of the
ramp are below the gain the limiter has left for the sub-frame
(`reduceEarlier_le`), and so is the ramp: from the second sub-frame on the
samples of the first band are the plain products (`limited_ramp`).
-/
import AgcSpec.Samples

namespace AgcSpec
namespace Limiter

open FixedPoint Gains Samples

/-! ### A gain the loop lets through -/

/-- Full scale in the units of the loop's test, times the bits that the test
rounds away. -/
theorem limitOf_full_scale {zeros : Int} (hz : 10 ≤ zeros ∧ zeros ≤ 16) :
    2 ^ 12 * (2 ^ zeros.toNat * 2 ^ zeros.toNat) * ((limitOf zeros + 1) * 2 ^ 13) ≤ 2 ^ 62 := by
  obtain ⟨hz0, hz1⟩ := hz
  interval_cases zeros <;> decide

/-- The test of the loop is safe: with a gain that does not meet it no sample
of the energy clips. -/
theorem no_clip {env zeros g x : Int} (he : 0 ≤ env) (hz : 10 ≤ zeros ∧ zeros ≤ 16)
    (h0 : 0 ≤ g) (hexit : roundedEnergy env * (roundedGain zeros g * roundedGain zeros g) / 2 ^
      13 ≤ limitOf zeros)
    (hx : x * x ≤ env) : InI16 (x * g / 2 ^ 16) := by
  have hg : g ≤ 2 ^ zeros.toNat * roundedGain zeros g := by
    have := Int.lt_mul_ediv_self_add (x := g) (k := 2 ^ zeros.toNat) (by positivity)
    rw [roundedGain, mul_add, mul_one]
    omega
  have henv : env ≤ 2 ^ 12 * roundedEnergy env := by
    rw [roundedEnergy]
    omega
  have hA : 0 ≤ roundedEnergy env := by
    rw [roundedEnergy]
    omega
  have hm : roundedEnergy env * (roundedGain zeros g * roundedGain zeros g) <
    (limitOf zeros + 1) * 2 ^ 13 := by omega
  have hsq : (x * g) ^ 2 < (2 ^ 31) ^ 2 := by
    calc (x * g) ^ 2 = x * x * (g * g) := by ring
      _ ≤ env * (g * g) := mul_le_mul_of_nonneg_right hx (mul_self_nonneg g)
      _ ≤ 2 ^ 12 * roundedEnergy env *
          (2 ^ zeros.toNat * roundedGain zeros g * (2 ^ zeros.toNat * roundedGain zeros g)) :=
          mul_le_mul henv (mul_le_mul hg hg h0 (h0.trans hg)) (mul_self_nonneg g) (by omega)
      _ = 2 ^ 12 * (2 ^ zeros.toNat * 2 ^ zeros.toNat) *
            (roundedEnergy env * (roundedGain zeros g * roundedGain zeros g)) := by ring
      _ < 2 ^ 12 * (2 ^ zeros.toNat * 2 ^ zeros.toNat) * ((limitOf zeros + 1) * 2 ^ 13) :=
          mul_lt_mul_of_pos_left hm (by positivity)
      _ ≤ (2 ^ 31) ^ 2 := limitOf_full_scale hz
  obtain ⟨hlo, hhi⟩ := abs_lt.mp (abs_lt_of_sq_lt_sq hsq (by decide))
  exact ⟨by omega, by omega⟩

theorem tame_of_ok {env zeros g : Int} (h0 : 0 ≤ g) (h1 : g < 2 ^ 31) (hz : 10 ≤ zeros)
    (hok : (overloads env zeros g).ok = true) : Tame env zeros g := by
  have hr : roundedGain zeros g ≤ 2 ^ 21 := by
    have hpow : (2 : Int) ^ 10 ≤ 2 ^ zeros.toNat := pow_le_pow_right₀ (by decide) (by omega)
    have : g / 2 ^ zeros.toNat ≤ 2 ^ 21 - 1 := by
      refine Int.le_sub_one_of_lt (Int.ediv_lt_of_lt_mul (by positivity) ?_)
      calc g < 2 ^ 21 * 2 ^ 10 := by omega
        _ ≤ 2 ^ 21 * 2 ^ zeros.toNat := mul_le_mul_of_nonneg_left hpow (by decide)
    rw [roundedGain]
    omega
  have hr0 := (roundedGain_mono zeros h0 le_rfl).1
  have hrI : i32 (g / 2 ^ zeros.toNat + 1) = roundedGain zeros g :=
      i32_of ⟨by unfold roundedGain at *; omega, by
    unfold roundedGain at *; omega⟩
  simp only [overloads, agcMul32, Chk.ok_bind, Chk.val_bind, val_ck32, hrI, Bool.and_eq_true,
    ok_ck32_iff] at hok
  obtain ⟨-, hsq, ⟨hhi, hlo, hsum⟩, -⟩ := hok
  rw [i32_of hsq] at hhi hlo hsum
  rw [i32_of hhi, i32_of hlo] at hsum
  have hsplit := floor_mul_split (roundedEnergy env) (roundedGain zeros g * roundedGain zeros g)
    (d := 2 ^ 13) (by decide)
  refine ⟨hsq.2, ?_⟩
  rw [← hsplit]
  exact hsum.2

/-- From the largest shift on, the loop's test bounds the energy. -/
theorem overloads_zero_of_tame {env g : Int} (he : InEnergy env) (h0 : 0 ≤ g) (h1 : g < 2 ^ 31)
    (ht : Tame env (limitShift g) g) : (overloads env (limitShift g) 0).val = false := by
  obtain ⟨hz0, hz1, hsmall⟩ := limitShift_range h1
  by_cases hg : g < 2 ^ 30
  · exact overloads_zero_of_le he ⟨hz0, hsmall hg⟩
  -- the gain has 31 bits, so its square leaves little room for the energy
  obtain ⟨z, hz, hz11, -, -, hhi⟩ := limitShift_large (g := g) (by omega) h1
  have hz16 : limitShift g = 16 := by
    by_contra hne
    have : (2 : Int) ^ (z + 15) ≤ 2 ^ 30 := pow_le_pow_right₀ (by decide) (by omega)
    omega
  rw [hz16] at ht ⊢
  have hr : 2 ^ 14 ≤ roundedGain 16 g := by
    rw [roundedGain, show (16 : Int).toNat = 16 from rfl]
    omega
  have hA : 0 ≤ roundedEnergy env := by
    have := he.1
    rw [roundedEnergy]
    omega
  have hsq : (2 : Int) ^ 28 ≤ roundedGain 16 g * roundedGain 16 g :=
    mul_le_mul hr hr (by decide) (by omega)
  have hm := mul_le_mul_of_nonneg_left hsq hA
  have := ht.2
  refine overloads_zero he (by decide) ?_
  rw [show limitOf 16 = 31 by decide]
  omega

/-! ### A frame -/

theorem maxEnergy_covers : ∀ (xs : List Int) (m : Int), (∀ x ∈ xs, InI16 x) →
    m ≤ (maxEnergy m xs).val ∧ ∀ x ∈ xs, x * x ≤ (maxEnergy m xs).val
  | [], m, _ => ⟨le_rfl, by simp⟩
  | x :: xs, m, hx => by
    obtain ⟨h0, h1⟩ := mul_self_range (hx x List.mem_cons_self)
    rw [maxEnergy, ck32_eq ⟨by omega, by omega⟩, pure_bind]
    obtain ⟨hm, hxs⟩ := maxEnergy_covers xs (if x * x > m then x * x else m) fun y hy =>
      hx y (List.mem_cons_of_mem _ hy)
    have hmax : m ≤ (if x * x > m then x * x else m) ∧
        x * x ≤ (if x * x > m then x * x else m) := by
      split <;> omega
    refine ⟨hmax.1.trans hm, fun y hy => ?_⟩
    rcases List.mem_cons.mp hy with rfl | hy
    · exact hmax.2.trans hm
    · exact hxs y hy

/-- The envelope is above the energy of every sample. -/
theorem envelope_covers {L : ℕ} {band env : List Int} (hx : ∀ x ∈ band, InI16 x)
    (h : envelope L band = pure env) {k : ℕ}
    (hk : k < 10) : ∀ x ∈ subframe L k band, x * x ≤ env.getD k 0 := by
  have hval : env = (List.range 10).map fun k => (maxEnergy 0 (subframe L k band)).val := by
    rw [← val_mapM]
    exact (congrArg Chk.val h).symm
  have hget : env.getD k 0 = (maxEnergy 0 (subframe L k band)).val := by
    rw [hval, List.getD_eq_getElem _ _ (by simpa using hk)]
    simp
  rw [hget]
  exact (maxEnergy_covers _ 0 fun x hm => hx x (List.mem_of_mem_drop (List.mem_of_mem_take hm))).2

/-- A reduction comes one sub-frame earlier: a gain is not above its own limit
and not above the next one. -/
theorem reduceEarlier_le : ∀ (rs : List Int) (i : ℕ),
    (reduceEarlier rs).getD i 0 ≤ rs.getD i 0 ∧
      (i + 1 < rs.length → (reduceEarlier rs).getD i 0 ≤ rs.getD (i + 1) 0)
  | [], _ => by simp [reduceEarlier]
  | [_], _ => by simp [reduceEarlier]
  | a :: b :: rest, 0 => by
    simp only [reduceEarlier, List.getD_cons_zero, List.getD_cons_succ]
    split <;> omega
  | a :: b :: rest, i + 1 => by
    obtain ⟨h1, h2⟩ := reduceEarlier_le (b :: rest) i
    simp only [reduceEarlier, List.getD_cons_succ] at *
    exact ⟨h1, fun h => h2 (by simpa using h)⟩

/-- A gain that is safe for a sub-frame stays safe when it is lowered. -/
theorem inI16_of_le {x g G : Int} (hG : InI16 (x * G / 2 ^ 16)) (h0 : 0 ≤ g) (hle : g ≤ G) :
    InI16 (x * g / 2 ^ 16) := by
  obtain ⟨hlo, hhi⟩ := hG
  rcases le_total 0 x with hx | hx
  · have := mul_le_mul_of_nonneg_left hle hx
    have := mul_nonneg hx h0
    exact ⟨by omega, by omega⟩
  · have := mul_le_mul_of_nonpos_left hle hx
    have := mul_nonpos_of_nonpos_of_nonneg hx h0
    exact ⟨by omega, by omega⟩

/-- A sub-frame between two gains that are below a safe one is scaled by the
plain product. -/
theorem limited_ramp {L2 : ℕ} (hL : L2 = 3 ∨ L2 = 4) {g0 g1 G : Int}
    (h0 : 0 ≤ g0 ∧ g0 ≤ G) (h1 : 0 ≤ g1 ∧ g1 ≤ G) (hfit0 : InI32 (g0 * 2 ^ 4))
    (hfit1 : InI32 (g1 * 2 ^ 4)) {xs : List Int} (hlen : xs.length ≤ 2 ^ L2)
    (hsafe : ∀ x ∈ xs, InI16 (x * G / 2 ^ 16)) :
    applySubframe sampleRest L2 g0 g1 xs =
      pure (xs.zipIdx.map fun p => p.1 * (rampQ20 L2 g0 g1 p.2 / 2 ^ 4) / 2 ^ 16) ∧
      ∀ p ∈ xs.zipIdx, InI16 (p.1 * (rampQ20 L2 g0 g1 p.2 / 2 ^ 4) / 2 ^ 16) := by
  have hfit : InI32 ((g1 - g0) * 2 ^ (4 - L2)) := by
    obtain ⟨ha, hb⟩ := hfit0
    obtain ⟨hc, hd⟩ := hfit1
    rcases hL with rfl | rfl <;> exact ⟨by omega, by omega⟩
  have hL4 : L2 ≤ 4 := by omega
  have hin : ∀ p ∈ xs.zipIdx, InI16 (p.1 * (rampQ20 L2 g0 g1 p.2 / 2 ^ 4) / 2 ^ 16) :=
      fun p hp => by
    obtain ⟨-, hlt, hget⟩ := List.mem_zipIdx hp
    obtain ⟨hr0, hr1⟩ := rampQ20_between hL4 h0 h1 (show p.2 ≤ 2 ^ L2 by omega)
    exact inI16_of_le (hsafe _ (hget ▸ List.getElem_mem _)) (by omega) (by omega)
  refine ⟨?_, hin⟩
  rw [applySubframe_eq sampleRest hL4 hfit0 hfit1 hfit hlen]
  exact mapM_eq_pure _ fun p hp => by rw [sampleRest, sat16_of (hin p hp)]

/-- A gain on which the loop's test is exact: the loop ends, the gain does not
go up, and no sample of the energy clips. -/
theorem limitGain_no_clip {env g : Int} (he : InEnergy env) (h0 : 0 ≤ g) (h1 : g < 2 ^ 31)
    (hok : (overloads env (limitShift g) g).ok = true) :
    ∃ g', limitGain env g = pure (some g') ∧ 0 ≤ g' ∧ g' ≤ g ∧ ∀ x, x * x ≤ env →
      InI16 (x * g' / 2 ^ 16) := by
  obtain ⟨hz0, hz1, -⟩ := limitShift_range h1
  have ht := tame_of_ok h0 h1 hz0 hok
  obtain ⟨g', hl, hg0, hle, hexit⟩ :=
    limitGain_tame he h0 h1 ht (overloads_zero_of_tame he h0 h1 ht)
  exact ⟨g', hl, hg0, hle, fun x hx => no_clip he.1 ⟨hz0, hz1⟩ hg0 hexit hx⟩

/-- From the second sub-frame on, limited gains scale a band without
saturation, if its energies are the ones they were limited for. -/
theorem limited_frame {L2 : ℕ} (hL : L2 = 3 ∨ L2 = 4) {band envs rs : List Int}
    (hlen : band.length = 10 * 2 ^ L2) (hx : ∀ x ∈ band, InI16 x)
    (henv : envelope (2 ^ L2) band = pure envs)
    (hall : List.Forall₂ (fun env g => 0 ≤ g ∧ ∀ x, x * x ≤ env →
      InI16 (x * g / 2 ^ 16)) envs rs)
    (hfit : ∀ g ∈ reduceEarlier rs, InI32 (16 * g)) {j : ℕ} (hj : j < 9) :
    let g0 := (reduceEarlier rs).getD j 0
    let g1 := (reduceEarlier rs).getD (j + 1) 0
    let xs := subframe (2 ^ L2) (j + 1) band
    applySubframe sampleRest L2 g0 g1 xs =
      pure (xs.zipIdx.map fun p => p.1 * (rampQ20 L2 g0 g1 p.2 / 2 ^ 4) / 2 ^ 16) ∧
      ∀ p ∈ xs.zipIdx, InI16 (p.1 * (rampQ20 L2 g0 g1 p.2 / 2 ^ 4) / 2 ^ 16) := by
  obtain ⟨envs', henv', hlen10, -⟩ := envelope_exact (2 ^ L2) hx
  obtain rfl : envs = envs' := congrArg Chk.val (henv.symm.trans henv')
  have hlen' : rs.length = 10 := by rw [← hall.length_eq, hlen10]
  have hnonneg : ∀ i, 0 ≤ (reduceEarlier rs).getD i 0 :=
      forall_getD (P := fun g => 0 ≤ g) le_rfl fun g hg => by
    obtain ⟨_, -, hr⟩ := exists_of_forall₂ hall g (mem_reduceEarlier hg)
    exact hr.1
  have hfits : ∀ i, InI32 ((reduceEarlier rs).getD i 0 * 2 ^ 4) :=
    forall_getD (P := fun g => InI32 (g * 2 ^ 4)) (by decide)
    fun g hg => by
      have := hfit g hg
      rwa [mul_comm] at this
  refine limited_ramp hL ⟨hnonneg j, (reduceEarlier_le rs j).2 (by omega)⟩ ⟨hnonneg (j + 1),
    (reduceEarlier_le rs (j + 1)).1⟩
    (hfits j) (hfits (j + 1)) (length_subframe (by omega) (by omega)).le fun x hxs => ?_
  -- the limiter's gain for this sub-frame, with its own energy
  have hpair := (List.forall₂_iff_get.mp hall).2 (j + 1) (by omega) (by omega)
  have hcov := envelope_covers hx henv (show j + 1 < 10 by omega) x hxs
  rw [List.getD_eq_getElem rs 0 (show j + 1 < rs.length by omega)]
  rw [List.getD_eq_getElem envs 0 (show j + 1 < envs.length by omega)] at hcov
  exact hpair.2 x hcov

/-- The limiter's guarantee. On every gain the loop ends, the gain does not go
up, and no sample of the sub-frame's energy clips. If the energies are those
of a band and the gains fit 32 bits in Q20, the band is scaled without
saturation from the second sub-frame on. -/
theorem limiter_no_clip {envs gs : List Int}
    (h : List.Forall₂ (fun env g => (0 ≤ env ∧ env ≤ 2 ^ 30) ∧
      (0 ≤ g ∧ g ≤ 2 ^ 31 - 1) ∧ (overloads env (limitShift g) g).ok = true) envs gs) :
    ∃ rs, limitGains envs gs = pure (some rs) ∧ rs.length = gs.length ∧
      (∀ k < gs.length, 0 ≤ rs.getD k 0 ∧ rs.getD k 0 ≤ gs.getD k 0 ∧
        ∀ x, x * x ≤ envs.getD k 0 → -32768 ≤ x * rs.getD k 0 / 65536 ∧
          x * rs.getD k 0 / 65536 ≤ 32767) ∧
      ∀ {L2 : ℕ} {band : List Int} (gain : Int), L2 = 3 ∨ L2 = 4 →
        band.length = 10 * 2 ^ L2 → (∀ x ∈ band, InI16 x) →
        envelope (2 ^ L2) band = pure envs →
        (∀ g ∈ gain :: reduceEarlier rs, InI32 (16 * g)) →
        ∀ k, 1 ≤ k → k ≤ 9 →
          let g0 := (gain :: reduceEarlier rs).getD k 0
          let g1 := (gain :: reduceEarlier rs).getD (k + 1) 0
          let xs := subframe (2 ^ L2) k band
          applySubframe sampleRest L2 g0 g1 xs =
              pure (xs.zipIdx.map fun p => p.1 * (rampQ20 L2 g0 g1 p.2 / 2 ^ 4) / 2 ^ 16) ∧
            ∀ p ∈ xs.zipIdx, InI16 (p.1 * (rampQ20 L2 g0 g1 p.2 / 2 ^ 4) / 2 ^ 16) := by
  obtain ⟨rs, hrs, hall, hle⟩ := limitGains_exact (Q := fun g g' => g' ≤ g)
    (h.imp fun env g hg => by
      obtain ⟨he, ⟨h0, h1⟩, hok⟩ := hg
      obtain ⟨g', hl, hn, hle, hclip⟩ := limitGain_no_clip he h0 (by omega) hok
      exact ⟨g', hl, (⟨hn, hclip⟩ : 0 ≤ g' ∧ ∀ x, x * x ≤ env →
        InI16 (x * g' / 2 ^ 16)), hle⟩)
  have hlen := hle.length_eq
  have hlen' := hall.length_eq
  refine ⟨rs, hrs, hlen.symm, fun k hk => ?_, fun gain hL hband hx henv hfit k hk1 hk9 => ?_⟩
  · obtain ⟨hn, hclip⟩ := (List.forall₂_iff_get.mp hall).2 k (by omega) (by omega)
    have hle' := (List.forall₂_iff_get.mp hle).2 k hk (by omega)
    rw [List.getD_eq_getElem rs 0 (by omega), List.getD_eq_getElem gs 0 hk,
      List.getD_eq_getElem envs 0 (by omega)]
    refine ⟨hn, hle', fun x hxx => ?_⟩
    obtain ⟨hlo, hhi⟩ := hclip x hxx
    exact ⟨hlo, Int.le_of_lt_add_one hhi⟩
  · obtain ⟨j, rfl⟩ := Nat.exists_eq_add_of_le' hk1
    exact limited_frame hL hband hx henv hall (fun g hg => hfit g (List.mem_cons_of_mem _ hg))
      (by omega)

/-- Full scale with a gain of 4. -/
theorem limiter_no_clip_full_scale : ∃ rs, limitGains [2 ^ 30] [2 ^ 18] = pure (some rs) ∧
    -32768 ≤ -32768 * rs.getD 0 0 / 65536 ∧ 32767 * rs.getD 0 0 / 65536 ≤ 32767 := by
  obtain ⟨rs, h, -, hall, -⟩ := @limiter_no_clip [2 ^ 30] [2 ^ 18] (.cons (by decide) .nil)
  obtain ⟨-, -, hclip⟩ := hall 0 (by decide)
  exact ⟨rs, h, (hclip (-32768) (by decide)).1, (hclip 32767 (by decide)).2⟩

end Limiter
end AgcSpec
