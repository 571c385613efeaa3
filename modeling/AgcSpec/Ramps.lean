/-
# The gains of every configuration

The gain computation for the tables of all modes, with compression gains from
0 to 90 dB and target levels from 0 to 31 (`TableRange.tableOf_wide`). Nothing
is small here. The interpolation multiplies the difference of two entries by
12 bits, and where the entries are more than `2^19` apart the product leaves
32 bits; the gain then is between the two entries only if the wrapped product
has the sign of the exact one (`interpolation_between_iff`). A table whose
neighbouring entries are at most that far apart is safe at every level
(`interpolation_between_of_close`).

The gains in front of the limiter go up to `2^31`, and the ramp between two of
them is computed in Q20, with four bits less. It is the limiter that makes
room: the table is small for loud levels, so a gain of `2^27` and more belongs
to a quiet sub-frame; the test of the limiting loop is exact on it and met, as
the test knows no gain that large (`limitGain_wide`). Every gain that is
applied is therefore below `2^27`, and every ramp is exact, in any run
(`ramps_exact`).
-/
import AgcSpec.Samples
import AgcSpec.TableRange

namespace AgcSpec
namespace Ramps

open FixedPoint Gains Samples TableRange Runs

/-! ### The interpolation -/

/-- The interpolation between two entries of a table, and the last operation
of it, which does not wrap. -/
theorem interpolateGain_val {T : List Int} (hT : Wide T) {level : Int} (h : InEnergy level) :
    (interpolateGain T level).val = T.getD (levelZeros level).toNat 0 +
      i32 ((T.getD (levelZeros level - 1).toNat 0 - T.getD (levelZeros level).toNat 0) *
        levelFrac level) / 2 ^ 12 := by
  have hentry := forall_getD (d := 0) (P := fun x => 0 ≤ x ∧ x ≤ 2 ^ 31 - 2 ^ 20)
    (by decide) hT.range
  obtain ⟨ha0, ha1⟩ := hentry (levelZeros level - 1).toNat
  obtain ⟨hb0, hb1⟩ := hentry (levelZeros level).toNat
  rw [interpolateGain_eq hT.length h, ck32_eq ⟨by omega, by omega⟩, pure_bind, Chk.val_bind,
    val_ck32, val_ck32]
  obtain ⟨h0, h1⟩ := inI32_i32
    ((T.getD (levelZeros level - 1).toNat 0 - T.getD (levelZeros level).toNat 0) * levelFrac level)
  exact i32_of ⟨by omega, by omega⟩

/-- An interpolation by a wrapped product. Outside 32 bits the entries are so
far apart that only the sign of the wrapped product matters. -/
theorem between_iff {a b frac : Int} (ha : 0 ≤ a ∧ a < 2 ^ 31) (hb : 0 ≤ b ∧ b < 2 ^ 31)
    (hf : 0 ≤ frac ∧ frac ≤ 4095) :
    (min a b ≤ b + i32 ((a - b) * frac) / 2 ^ 12 ∧
      b + i32 ((a - b) * frac) / 2 ^ 12 ≤ max a b) ↔
      InI32 ((a - b) * frac) ∨ (a ≤ b ∧ i32 ((a - b) * frac) < 2 ^ 12) ∨
      (b < a ∧ 0 ≤ i32 ((a - b) * frac)) := by
  by_cases hin : InI32 ((a - b) * frac)
  · have hfrac : 0 ≤ frac ∧ frac ≤ 2 ^ 12 := ⟨hf.1, by omega⟩
    have ha' : min a b ≤ a ∧ a ≤ max a b := ⟨min_le_left _ _, le_max_left _ _⟩
    have hb' : min a b ≤ b ∧ b ≤ max a b := ⟨min_le_right _ _, le_max_right _ _⟩
    have := step_between hfrac (by decide) ha' hb'
    rw [i32_of hin]
    exact ⟨fun _ => .inl hin, fun _ => this⟩
  have hwrap := inI32_i32 ((a - b) * frac)
  rw [InI32] at hin hwrap
  rcases le_or_gt a b with hab | hab
  · -- the product is below the range, so the entries are more than 2^19 apart
    have hnonpos : (a - b) * frac ≤ 0 := mul_nonpos_of_nonpos_of_nonneg (by omega) hf.1
    have hlow : (a - b) * 4095 ≤ (a - b) * frac := mul_le_mul_of_nonpos_left hf.2 (by omega)
    rw [InI32]
    omega
  · have hnonneg : 0 ≤ (a - b) * frac := mul_nonneg (by omega) hf.1
    have hhigh : (a - b) * frac ≤ (a - b) * 4095 := mul_le_mul_of_nonneg_left hf.2 (by omega)
    rw [InI32]
    omega

theorem interpolateGain_between_iff {T : List Int} (hT : Wide T) {level : Int}
    (h : InEnergy level) :
    let a := T.getD (levelZeros level - 1).toNat 0
    let b := T.getD (levelZeros level).toNat 0
    let product := (a - b) * levelFrac level
    (min a b ≤ (interpolateGain T level).val ∧ (interpolateGain T level).val ≤ max a b) ↔
      InI32 product ∨ (a ≤ b ∧ i32 product < 2 ^ 12) ∨ (b < a ∧ 0 ≤ i32 product) := by
  have hentry : ∀ i, 0 ≤ T.getD i 0 ∧ T.getD i 0 < 2 ^ 31 :=
    forall_getD (P := fun x => 0 ≤ x ∧ x < 2 ^ 31) (by decide) fun x hx => by
      have := hT.range x hx
      omega
  intro a b product
  rw [interpolateGain_val hT h]
  exact between_iff (hentry _) (hentry _) (levelFrac_range level)

/-- The gain of a level is between the two entries it is interpolated from
exactly if the product with the fraction fits 32 bits, or wraps to the side
it was on. -/
theorem interpolation_between_iff (agcMode : Int) {c : WebRtcAgcConfig}
    (ht : 0 ≤ c.targetLevelDbfs ∧ c.targetLevelDbfs ≤ 31)
    (hg : 0 ≤ c.compressionGaindB ∧ c.compressionGaindB ≤ 90) {T : List Int}
    (hT : tableOf agcMode c = some T) {level : Int} (hl : 0 ≤ level ∧ level ≤ 2 ^ 30) :
    let a := T.getD (levelZeros level - 1).toNat 0
    let b := T.getD (levelZeros level).toNat 0
    let product := (a - b) * levelFrac level
    (min a b ≤ (interpolateGain T level).val ∧ (interpolateGain T level).val ≤ max a b) ↔
      InI32 product ∨ (a ≤ b ∧ i32 product < 2 ^ 12) ∨ (b < a ∧ 0 ≤ i32 product) := by
  obtain ⟨T', hT', hw⟩ := tableOf_wide agcMode ht hg
  obtain rfl : T = T' := Option.some.inj (hT.symm.trans hT')
  exact interpolateGain_between_iff hw hl

/-- A fixed digital gain of 30 dB, 1 dB below full scale, with the limiter. -/
def loudConfig : WebRtcAgcConfig := ⟨1, 30, kAgcTrue⟩

/-- At a quiet level the product fits. -/
theorem interpolation_between_quiet : ∃ T, tableOf kAgcModeFixedDigital loudConfig = some T ∧
    min (T.getD 29 0) (T.getD 30 0) ≤ (interpolateGain T 3).val ∧
    (interpolateGain T 3).val ≤ max (T.getD 29 0) (T.getD 30 0) := by
  obtain ⟨T, hT, -⟩ := tableOf_wide kAgcModeFixedDigital (c := loudConfig)
    (by decide) (by decide)
  have hfits : ∀ t ∈ tableOf kAgcModeFixedDigital loudConfig,
    InI32 ((t.getD (levelZeros 3 - 1).toNat 0 -
      t.getD (levelZeros 3).toNat 0) * levelFrac 3) := by decide +kernel
  refine ⟨T, hT, ?_⟩
  have hlevel : (0 : Int) ≤ 3 ∧ (3 : Int) ≤ 2 ^ 30 := by decide
  exact (interpolation_between_iff kAgcModeFixedDigital (c := loudConfig) (by decide)
    (by decide) hT hlevel).mpr
    (.inl (hfits T hT))

/-- The gain of this level is above both its entries. -/
theorem interpolation_escapes : ∃ T, tableOf kAgcModeFixedDigital loudConfig = some T ∧
    T.getD 10 0 = 1323456 ∧ T.getD 11 0 = 1885504 ∧ levelZeros 2026752 = 11 ∧
      (interpolateGain T 2026752).val = 2409767 := by
  have hval : ((tableOf kAgcModeFixedDigital loudConfig).map fun T =>
      (T.getD 10 0, T.getD 11 0, (interpolateGain T 2026752).val)) =
        some (1323456, 1885504, 2409767) := by decide +kernel
  obtain ⟨T, hT, hv⟩ := Option.map_eq_some_iff.mp hval
  obtain ⟨ha, hb⟩ := Prod.mk.inj hv
  obtain ⟨hb, hg⟩ := Prod.mk.inj hb
  exact ⟨T, hT, ha, hb, by decide, hg⟩

/-- A table whose neighbouring entries are so close that the product with any
fraction of 12 bits fits 32 bits. -/
def Close (T : List Int) : Prop := ∀ i < 31, |T.getD i 0 - T.getD (i + 1) 0| ≤ 2 ^ 19 + 128

instance (T : List Int) : Decidable (Close T) :=
  inferInstanceAs (Decidable (∀ i < 31, |T.getD i 0 - T.getD (i + 1) 0| ≤ 2 ^ 19 + 128))

/-- The gain of every level is between the two entries in a table that is close. -/
theorem interpolation_between_of_close (agcMode : Int) {c : WebRtcAgcConfig}
    (ht : 0 ≤ c.targetLevelDbfs ∧ c.targetLevelDbfs ≤ 31)
    (hg : 0 ≤ c.compressionGaindB ∧ c.compressionGaindB ≤ 90) {T : List Int}
    (hT : tableOf agcMode c = some T) (hclose : Close T) {level : Int}
    (hl : 0 ≤ level ∧ level ≤ 2 ^ 30) :
    let a := T.getD (levelZeros level - 1).toNat 0
    let b := T.getD (levelZeros level).toNat 0
    min a b ≤ (interpolateGain T level).val ∧ (interpolateGain T level).val ≤ max a b := by
  obtain ⟨T', hT', hw⟩ := tableOf_wide agcMode ht hg
  obtain rfl : T = T' := Option.some.inj (hT.symm.trans hT')
  refine (interpolateGain_between_iff hw hl).mpr (.inl ?_)
  obtain ⟨hz0, hz1⟩ := levelZeros_range hl
  have hentries := hclose (levelZeros level - 1).toNat (by omega)
  rw [show (levelZeros level - 1).toNat + 1 = (levelZeros level).toNat by omega] at hentries
  obtain ⟨hf0, hf1⟩ := levelFrac_range level
  have hproduct := mul_range (abs_le.mp hentries) ⟨(by omega : -4095 ≤ levelFrac level), hf1⟩
  exact ⟨by omega, by omega⟩

-- the configuration that `WebRtcAgc_Init` sets, in each mode
example : ∀ mode ∈ [kAgcModeAdaptiveAnalog, kAgcModeAdaptiveDigital, kAgcModeFixedDigital],
    ∀ T ∈ tableOf mode ⟨3, 9, kAgcTrue⟩, Close T := by
  decide +kernel

/-! ### The stages

Three relations between the energy of a sub-frame and its gain, behind the
interpolation, the gate and the limiter. A loud sub-frame has a gain below
`2^27` from the start. -/

/-- The gain of a level. -/
def Looked (env g : Int) : Prop :=
  InEnergy env ∧ -2 ^ 19 ≤ g ∧ g < 2 ^ 31 - 2 ^ 19 ∧ (2 ^ 25 ≤ env → g < 2 ^ 27)

/-- The gain behind the gate. -/
def Gated (env g : Int) : Prop :=
  InEnergy env ∧ -2 ^ 23 ≤ g ∧ g < 2 ^ 31 ∧ (2 ^ 25 ≤ env → g < 2 ^ 27)

/-- A gain that can be applied. -/
def Applied (g : Int) : Prop := -2 ^ 23 ≤ g ∧ g < 2 ^ 27

/-- A level of 26 bits has at most six leading zeros. -/
theorem levelZeros_loud {level : Int} (h : InEnergy level) (hl : 2 ^ 25 ≤ level) :
    levelZeros level ≤ 6 := by
  have hpos : level.toNat ≠ 0 := by omega
  have hlog : 25 ≤ Nat.log2 level.toNat := (Nat.le_log2 hpos).mpr (by omega)
  have h' := h.2
  rw [levelZeros, if_neg (by omega), u32_of ⟨h.1, by omega⟩]
  simp only [normU32, countLeadingZeros32, show level ≠ 0 by omega, if_false]
  omega

theorem interpolateGain_wide {T : List Int} (hT : Wide T) {env level : Int} (he : InEnergy env)
    (h : InEnergy level) (hle : env ≤ level) : Looked env (interpolateGain T level).val := by
  have hentry := forall_getD (d := 0) (P := fun x => 0 ≤ x ∧ x ≤ 2 ^ 31 - 2 ^ 20)
    (by decide) hT.range
    (levelZeros level).toNat
  have hwrap := inI32_i32
    ((T.getD (levelZeros level - 1).toNat 0 - T.getD (levelZeros level).toNat 0) * levelFrac level)
  rw [InI32] at hwrap
  rw [interpolateGain_val hT h]
  refine ⟨he, by omega, by omega, fun hloud => ?_⟩
  have := hT.loud (levelZeros level).toNat (by have := levelZeros_loud h (hloud.trans hle); omega)
  omega

/-- The gate lowers a large gain and leaves a small one small. -/
theorem gateGain_wide {T0 gate env g : Int} (hT : 0 ≤ T0 ∧ T0 ≤ 2 ^ 24) (hgate : 0 < gate)
    (hg : Looked env g) : Gated env (gateGain T0 gate g).val := by
  obtain ⟨he, hg0, hg1, hloud⟩ := hg
  obtain ⟨ha0, ha1⟩ := gainAdj_range hgate
  rw [gateGain, ck32_eq ⟨by omega, by omega⟩, pure_bind]
  dsimp only
  split
  · -- a large step is shifted down before it is multiplied, by at most 256
    have hm0 : 0 ≤ (g - T0) / 2 ^ 8 * (178 + gainAdj gate) := mul_nonneg (by omega) (by omega)
    have hm1 : (g - T0) / 2 ^ 8 * (178 + gainAdj gate) ≤ (g - T0) / 2 ^ 8 * 256 :=
      mul_le_mul_of_nonneg_left (by omega) (by omega)
    rw [ck32_eq ⟨by omega, by omega⟩, pure_bind, ck32_eq ⟨by omega, by omega⟩, Chk.val_pure]
    exact ⟨he, by omega, by omega, fun h => by have := hloud h; omega⟩
  · obtain ⟨h0, h1⟩ := inI32_i32 ((g - T0) * (178 + gainAdj gate))
    rw [Chk.val_bind, pure_bind]
    show Gated env (i32 (T0 + i32 ((g - T0) * (178 + gainAdj gate)) / 2 ^ 8))
    rw [i32_of ⟨by omega, by omega⟩]
    exact ⟨he, by omega, by omega, fun _ => by omega⟩

/-- The loop's test on a large gain with a quiet sub-frame is exact. -/
theorem tame_of_quiet {env g : Int} {z : ℕ} (h0 : 0 ≤ env) (henv : env < 2 ^ 25) (hg0 : 0 ≤ g)
    (hg : g < 2 ^ (z + 15)) : Tame env z g := by
  have hr0 := (roundedGain_mono z hg0 le_rfl).1
  have hr1 : roundedGain z g ≤ 2 ^ 15 := by
    have : g / 2 ^ z < 2 ^ 15 :=
      Int.ediv_lt_of_lt_mul (by positivity) (by rw [← pow_add, add_comm]; exact hg)
    rw [roundedGain, Int.toNat_natCast]
    omega
  have hA : 0 ≤ roundedEnergy env ∧ roundedEnergy env ≤ 2 ^ 13 := by
    rw [roundedEnergy]
    omega
  have hsq : roundedGain z g * roundedGain z g ≤ 2 ^ 15 * 2 ^ 15 :=
    mul_le_mul hr1 hr1 (by omega) (by decide)
  have hm := mul_le_mul hA.2 hsq (mul_self_nonneg _) (by decide)
  exact ⟨by omega, by omega⟩

/-- The shifts of gains from `2^27` on: no such gain passes the test. -/
theorem overloaded_of_large {env g : Int} {z : ℕ} (hz : 13 ≤ z ∧ z ≤ 16) (h0 : 0 ≤ env)
    (hg : 2 ^ 27 ≤ g) :
    limitOf z < roundedEnergy env * (roundedGain z g * roundedGain z g) / 2 ^ 13 := by
  have hA : 1 ≤ roundedEnergy env := by
    rw [roundedEnergy]
    omega
  have hr : 2 ^ (27 - z) ≤ roundedGain z g := by
    have : (2 : Int) ^ (27 - z) * 2 ^ z = 2 ^ 27 := by rw [← pow_add]; congr 1; omega
    have := (Int.le_ediv_iff_mul_le (c := 2 ^ z) (by positivity)).mpr (this ▸ hg)
    rw [roundedGain, Int.toNat_natCast]
    omega
  have hsq := mul_le_mul hr hr (by positivity) (by have : (0 : Int) < 2 ^ (27 - z) := by positivity
                                                   omega)
  have hm := mul_le_mul hA hsq (by positivity) (by omega)
  have hlimit : (limitOf z + 1) * 2 ^ 13 ≤ 1 * (2 ^ (27 - z) * 2 ^ (27 - z)) := by
    obtain ⟨hz0, hz1⟩ := hz
    interval_cases z <;> decide
  omega

/-- The limiter leaves a gain below `2^27`. -/
theorem limitGain_wide {env g : Int} (h : Gated env g) :
    ∃ g', (limitGain env g).val = some g' ∧ Applied g' := by
  obtain ⟨he, h0, h1, hloud⟩ := h
  obtain ⟨hz0, hz1, hsmall⟩ := limitShift_range h1
  by_cases hg : g < 2 ^ 27
  · obtain ⟨g', hl, -, htow⟩ :=
      limitGain_val h0 h1 (overloads_zero_of_le he ⟨hz0, hsmall (by omega)⟩)
    refine ⟨g', hl, ?_⟩
    unfold Towards at htow
    exact ⟨by omega, by omega⟩
  have hquiet : env < 2 ^ 25 := not_le.mp fun hle => hg (hloud hle)
  obtain ⟨z, hz, -, hz16, hlo, hhi⟩ := limitShift_large (g := g) (by omega) h1
  have hz13 : 13 ≤ z := by
    by_contra hlt
    have : (2 : Int) ^ (z + 15) ≤ 2 ^ 27 := pow_le_pow_right₀ (by decide) (by omega)
    omega
  have hzero : (overloads env (limitShift g) 0).val = false := by
    refine overloads_zero he ⟨hz0, hz1⟩ ?_
    have hlimit : 1 ≤ limitOf (limitShift g) := by
      rw [hz]
      interval_cases z <;> decide
    have := he.1
    rw [roundedEnergy]
    omega
  obtain ⟨g', hl, hg0, -, hexit⟩ :=
    limitGain_tame he (by omega) h1 (hz ▸ tame_of_quiet he.1 hquiet (by omega) hhi) hzero
  refine ⟨g', by rw [hl]; rfl, by omega, ?_⟩
  by_contra hge
  have := overloaded_of_large ⟨hz13, hz16⟩ he.1 (not_lt.mp hge)
  rw [hz] at hexit
  omega

/-! ### A frame -/

/-- What the digital stage keeps from frame to frame, whatever the table. -/
structure WideState (s : DigitalAgc) : Prop where
  table : Wide s.gainTable
  capacitors : CapRange ⟨s.capacitorFast, s.capacitorSlow⟩
  gain : Applied s.gain

/-- The gain computation of a frame of 16-bit samples ends with eleven gains
that can be applied. -/
theorem planGains_wide {s : DigitalAgc} (hs : WideState s) (L : ℕ) (low : Int) {band : List Int}
    (hx : ∀ x ∈ band, InI16 x) :
    ∃ p, (planGains s L low band).val = some p ∧ CapRange p.capacitors ∧
      p.gains.length = 11 ∧
      ∀ g ∈ p.gains, Applied g := by
  have h0 : 0 ≤ s.gainTable.getD 0 0 ∧ s.gainTable.getD 0 0 ≤ 2 ^ 24 :=
    ⟨forall_getD (P := fun x => 0 ≤ x) le_rfl (fun x hx => (hs.table.range x hx).1) 0,
      hs.table.loud 0 (by decide)⟩
  obtain ⟨p, hp, hc, rs, hgains, hlen, hrs⟩ :=
    planGains_val (P := Looked) (Q := Gated) (R := fun _ => Applied) hs.capacitors
    (fun _ _ => interpolateGain_wide hs.table) (fun _ _ _ => gateGain_wide h0)
    (fun _ _ h => ⟨h.1, by have := h.2; omega, by have := h.2; omega, h.2.2.2⟩)
    (fun _ _ => limitGain_wide) L low hx
  refine ⟨p, hp, hc, by rw [hgains, List.length_cons, length_reduceEarlier, hlen],
    fun g hg => ?_⟩
  rw [hgains] at hg
  rcases List.mem_cons.mp hg with rfl | hg
  · exact hs.gain
  · obtain ⟨_, h⟩ := hrs g (mem_reduceEarlier hg)
    exact h

theorem wideState_processDigital {s d : DigitalAgc} {bands out : List (List Int)} {FS low : Int}
    (hs : WideState s) (hx : ∀ x ∈ bands.headD [], InI16 x)
    (h : (processDigital s bands FS low).val = .done d out) : WideState d := by
  rw [processDigital] at h
  split at h
  · cases h
  rename_i L L2 _
  obtain ⟨p, hp, hc, hlen, hgains⟩ := planGains_wide (s := s.nearend L (bands.headD []))
    ⟨hs.table, hs.capacitors, hs.gain⟩
    L low hx
  rw [Chk.val_bind, hp] at h
  obtain ⟨rfl, -⟩ := DigitalResult.done.inj h
  refine ⟨hs.table, hc, ?_⟩
  show Applied (p.gains.getD 10 0)
  rw [List.getD_eq_getElem p.gains 0 (by omega)]
  exact hgains _ (List.getElem_mem _)

/-! ### A run -/

/-- What a call can do to the digital stage. -/
inductive DigitalOutcome (s : LegacyAgc) : Op → DigitalAgc → Prop
  | keeps (op : Op) : DigitalOutcome s op s.digitalAgc
  | table {c : WebRtcAgcConfig} {T : List Int} (ht : Config.TargetOk c)
    (h : tableOf s.agcMode c = some T) :
      DigitalOutcome s (.setConfig c) { s.digitalAgc with gainTable := T }
  | farend (x : List Int) :
    DigitalOutcome s (.addFarend x) (addFarendToDigital s.digitalAgc x x.length)
  | frame {x out o : List (List Int)} {l echo : Int} {d : DigitalAgc}
      (h : (processDigital s.digitalAgc x s.fs s.lowLevelSignal).val = .done d o) :
      DigitalOutcome s (.process x out l echo) d

theorem digital_setConfig (s : LegacyAgc) (c : WebRtcAgcConfig) :
    DigitalOutcome s (.setConfig c) (setConfig s c).1.digitalAgc := by
  by_cases hs : s.initFlag = kInitCheck
  swap
  · rw [setConfig, if_pos hs]
    exact .keeps _
  by_cases hl : Config.LimiterOk c
  swap
  · rw [Config.setConfig_limiter hs hl]
    exact .keeps _
  by_cases ht : Config.TargetOk c
  swap
  · rw [Config.setConfig_target hs hl ht]
    exact .keeps _
  rw [Config.setConfig_table hs hl ht]
  rcases hT : tableOf s.agcMode c with _ | T
  · exact .keeps _
  · exact .table ht hT

theorem digital_process {s : LegacyAgc} {x out : List (List Int)} {l echo : Int} {r : ProcessResult}
    (h : (process s x out l echo).val = some r) :
    DigitalOutcome s (.process x out l echo) r.agc.digitalAgc := by
  rcases process_cases h
    with ⟨-, rfl⟩ | ⟨-, d, o, hd, ⟨-, -, rfl⟩ | ⟨a, -, ha, rfl⟩ | ⟨-, rfl⟩⟩
  · exact .keeps _
  · exact .frame hd
  · have hdig := eq_of_untouched LegacyAgc.digitalAgc (fun _ => rfl) (untouched_processAnalog ha)
    show DigitalOutcome s _ a.agc.digitalAgc
    rw [hdig]
    exact .frame hd
  · exact .frame hd

theorem digital_step {s t : LegacyAgc} {l : Op × Int} (h : Step s l t) :
    DigitalOutcome s l.1 t.digitalAgc := by
  obtain ⟨op, ret⟩ := l
  cases h.outcome with
  | setConfig c => exact digital_setConfig s c
  | addMic x =>
    rw [digitalAgc_addMic]
    exact .keeps _
  | virtualMic x m =>
    rw [digitalAgc_addMic, digitalAgc_virtualState]
    exact .keeps _
  | addFarend x =>
    rw [addFarend]
    split
    · exact .keeps _
    · exact .farend x
  | process hr => exact digital_process hr

/-- A call as the gain control makes it: the configuration is in the ranges of
its setters, and the samples have 16 bits. -/
def Allowed : Op → Prop
  | .setConfig c => 0 ≤ c.compressionGaindB ∧ c.compressionGaindB ≤ 90
  | .process x _ _ _ => ∀ y ∈ x.headD [], InI16 y
  | _ => True

theorem wideState_step {s t : LegacyAgc} {l : Op × Int} (hs : WideState s.digitalAgc)
    (hl : Allowed l.1) (h : Step s l t) : WideState t.digitalAgc := by
  have hout := digital_step h
  generalize l.1 = op at hl hout
  generalize t.digitalAgc = d at hout
  cases hout with
  | keeps => exact hs
  | table ht hT =>
    obtain ⟨T', hT', hw⟩ := tableOf_wide s.agcMode ht hl
    obtain rfl := Option.some.inj (hT.symm.trans hT')
    exact ⟨hw, hs.capacitors, hs.gain⟩
  | farend x => exact ⟨hs.table, hs.capacitors, hs.gain⟩
  | frame hd => exact wideState_processDigital hs hl hd

theorem wideState_init {mem s : LegacyAgc} {minLevel maxLevel agcMode fs : Int}
    (h : (init mem minLevel maxLevel agcMode fs).val = (s, 0)) : WideState s.digitalAgc := by
  obtain ⟨-, -, i, T, hi, hT, rfl⟩ := Config.init_ok h
  obtain ⟨T', hT', hw⟩ := tableOf_wide agcMode (c := Config.defaultConfig)
    (by decide) (by decide)
  obtain rfl := Option.some.inj (hT.symm.trans hT')
  subst hi
  have hslow : InEnergy (if agcMode = kAgcModeFixedDigital then 0 else 134217728) := by
    split
    · exact ⟨le_rfl, by decide⟩
    · exact ⟨by decide, by decide⟩
  have hgain : Applied 65536 := ⟨by decide, by decide⟩
  exact ⟨hw, ⟨(⟨le_rfl, by decide⟩ : InEnergy 0), hslow⟩, hgain⟩

theorem ramp_exact {L2 : ℕ} (hL : L2 = 3 ∨ L2 = 4) {g0 g1 : Int} (h0 : Applied g0)
    (h1 : Applied g1) (sample : Int → Int → Chk Int) {xs : List Int}
    (hlen : xs.length ≤ 2 ^ L2) :
    applySubframe sample L2 g0 g1 xs = xs.zipIdx.mapM fun q =>
      sample (rampQ20 L2 g0 g1 q.2) q.1 := by
  obtain ⟨ha, hb⟩ := h0
  obtain ⟨hc, hd⟩ := h1
  refine applySubframe_eq sample (by omega) ⟨by omega, by omega⟩
    ⟨by omega, by omega⟩ ?_ hlen
  rcases hL with rfl | rfl <;> exact ⟨by omega, by omega⟩

theorem subframeLength_log {FS : Int} {L L2 : ℕ} (h : subframeLength FS = some (L, L2)) :
    L2 = 3 ∨ L2 = 4 := by
  rw [subframeLength] at h
  split at h
  · exact .inl (Prod.mk.inj (Option.some.inj h)).2.symm
  · split at h
    · exact .inr (Prod.mk.inj (Option.some.inj h)).2.symm
    · cases h

/-- After any run of calls on an initialised instance, in any mode, the gains
of the next frame give exact ramps: every sub-frame's samples meet the gains
`16 * gains[k] + n * delta`, which stay between the two ends and reach the
second one, all in 32 bits. -/
theorem ramps_exact {mem s t : LegacyAgc} {minLevel maxLevel agcMode fs : Int}
    {ls : List (Op × Int)} (hinit : (init mem minLevel maxLevel agcMode fs).val = (s, 0))
    (hrun : Run Step s ls t) (hls : ∀ l ∈ ls, Allowed l.1) {L L2 : ℕ}
    (hL : subframeLength t.fs = some (L, L2)) (low : Int) {band : List Int}
    (hx : ∀ x ∈ band, InI16 x) :
    ∃ p, (planGains (t.digitalAgc.nearend L band) L low band).val = some p ∧
      p.gains.length = 11 ∧ ∀ k < 10,
        let g0 := p.gains.getD k 0
        let g1 := p.gains.getD (k + 1) 0
        (∀ sample xs, xs.length ≤ L →
          applySubframe sample L2 g0 g1 xs = xs.zipIdx.mapM fun q =>
            sample (rampQ20 L2 g0 g1 q.2) q.1) ∧
        (∀ n ≤ L, InI32 (rampQ20 L2 g0 g1 n) ∧
          min (16 * g0) (16 * g1) ≤ rampQ20 L2 g0 g1 n ∧ rampQ20 L2 g0 g1 n ≤ max (16 * g0)
            (16 * g1)) ∧
        rampQ20 L2 g0 g1 0 = 16 * g0 ∧ rampQ20 L2 g0 g1 L = 16 * g1 := by
  have hs : WideState t.digitalAgc :=
    hrun.history (I := fun ls t => (∀ l ∈ ls, Allowed l.1) → WideState t.digitalAgc)
      (fun _ => wideState_init hinit)
      (fun ls t l u ih hstep hall =>
        wideState_step (ih fun l hl => hall l (List.mem_append_left _ hl)) (hall l (by simp)) hstep)
          hls
  obtain ⟨p, hp, -, hlen, hgains⟩ := planGains_wide (s := t.digitalAgc.nearend L band)
    ⟨hs.table, hs.capacitors, hs.gain⟩ L
    low hx
  have hgain : ∀ k, Applied (p.gains.getD k 0) := forall_getD ⟨by decide, by decide⟩ hgains
  have hlog := subframeLength_log hL
  obtain ⟨rfl, hL4⟩ := subframeLength_eq hL
  refine ⟨p, hp, hlen, fun k _ =>
    ⟨fun sample xs hxs => ramp_exact hlog (hgain k) (hgain (k + 1)) sample hxs, fun n hn =>
      ?_, ?_, ?_⟩⟩
  · obtain ⟨h0, h1⟩ := rampQ20_min_max hL4 (p.gains.getD k 0) (p.gains.getD (k + 1) 0) hn
    obtain ⟨ha, hb⟩ := hgain k
    obtain ⟨hc, hd⟩ := hgain (k + 1)
    exact ⟨⟨by omega, by omega⟩, by omega, by omega⟩
  · rw [rampQ20_zero, mul_comm]
    rfl
  · rw [rampQ20_end hL4, mul_comm]
    rfl

/-- The largest gain of the fixed digital mode, on a frame at 8 kHz. -/
theorem ramps_exact_fixed :
    ∃ s t p, (init (create .cleared) 0 255 kAgcModeFixedDigital 8000).val = (s, 0) ∧
    t = (setConfig s ⟨0, 90, kAgcFalse⟩).1 ∧
    (planGains (t.digitalAgc.nearend 8 (List.replicate 80 1000)) 8 0 (List.replicate 80 1000)).val =
      some p ∧
    ∀ k < 10, rampQ20 3 (p.gains.getD k 0) (p.gains.getD (k + 1) 0) 8 =
      16 * p.gains.getD (k + 1) 0 := by
  obtain ⟨s, hs⟩ := Config.init_returns (create .cleared) 0 255 kAgcModeFixedDigital 8000
    (by decide) (by decide)
  have hfs : s.fs = 8000 := by
    obtain ⟨-, -, i, T, hi, -, rfl⟩ := Config.init_ok hs
    subst hi
    rfl
  have hfs' : (setConfig s ⟨0, 90, kAgcFalse⟩).1.fs = 8000 :=
    (congrArg Ranges.fs (ranges_setConfig s _)).trans hfs
  have hstep : Step s (.setConfig ⟨0, 90, kAgcFalse⟩, (setConfig s ⟨0, 90, kAgcFalse⟩).2)
      (setConfig s ⟨0, 90, kAgcFalse⟩).1 := rfl
  have hL : subframeLength (setConfig s ⟨0, 90, kAgcFalse⟩).1.fs = some (8, 3) := by
    rw [hfs']
    rfl
  have hband : ∀ x ∈ List.replicate 80 (1000 : Int), InI16 x := fun x hx => by
    rw [List.eq_of_mem_replicate hx]
    decide
  obtain ⟨p, hp, -, hall⟩ := ramps_exact hs (Run.one hstep)
    (fun l hl => by rw [List.mem_singleton.mp hl]; exact ⟨by decide, by decide⟩) hL 0 hband
  exact ⟨s, _, p, hs, rfl, hp, fun k hk => (hall k hk).2.2.2⟩

end Ramps
end AgcSpec
