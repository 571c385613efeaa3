/-
# The gains of a frame

The gain computation of the digital stage (`planGains`), function by function.
Whatever the history, the envelope followers stay between 0 and the energy of
a full-scale sample (`follow_exact`), so that the index into the gain table is
always one of its places; the capacitors are the only state that has to be in
range for that (`CapRange`).

For a mild gain table, whose entries are not below the first and less than 8
in Q16 (`Mild`), every operation is exact: the interpolation, the gate and the
limiter give gains between 0 and the largest of the table, and the limiting
loop ends (`planGains_mild`). For any table below `2 ^ 29` (`Bounded`) the
products may wrap, but the gains stay where the limiting loop ends
(`planGains_bounded`).
-/
import AgcSpec.Digital

namespace AgcSpec
namespace Gains

open FixedPoint

/-! ### The envelope -/

/-- The energy of a sample, and a level made from such energies. -/
def InEnergy (x : Int) : Prop := 0 ≤ x ∧ x ≤ 2 ^ 30

theorem maxEnergy_exact : ∀ (xs : List Int) {m : Int}, (∀ x ∈ xs, InI16 x) → InEnergy m →
    ∃ e, maxEnergy m xs = pure e ∧ InEnergy e
  | [], m, _, hm => ⟨m, rfl, hm⟩
  | x :: xs, m, hx, hm => by
    obtain ⟨h0, h1⟩ := mul_self_range (hx x List.mem_cons_self)
    rw [maxEnergy, ck32_eq ⟨by omega, by omega⟩, pure_bind]
    refine maxEnergy_exact xs (fun y hy => hx y (List.mem_cons_of_mem _ hy)) ?_
    split
    · exact ⟨h0, h1⟩
    · exact hm

/-- The envelope of 16-bit samples is exact: ten energies. -/
theorem envelope_exact (L : ℕ) {band : List Int} (hx : ∀ x ∈ band, InI16 x) :
    ∃ env, envelope L band = pure env ∧ env.length = 10 ∧ ∀ e ∈ env, InEnergy e := by
  obtain ⟨e, he, hr⟩ := mapM_exists (f := fun k => maxEnergy 0 (subframe L k band))
    (P := fun _ => InEnergy)
    (List.range 10) fun k _ =>
      maxEnergy_exact _ (fun x h => hx x (List.mem_of_mem_drop (List.mem_of_mem_take h)))
        ⟨le_rfl, by decide⟩
  refine ⟨(List.range 10).map e, he, by simp, ?_⟩
  intro x h
  obtain ⟨k, hk, rfl⟩ := List.mem_map.mp h
  exact (hr k hk).2

/-! ### The followers -/

/-- The capacitors are levels. -/
def CapRange (c : Capacitors) : Prop := InEnergy c.fast ∧ InEnergy c.slow

/-- A step of a follower is exact, and a fraction of the way. -/
theorem agcScaleDiff32_eq {A B C : Int} (hA : -1000 ≤ A ∧ A ≤ 500) (hB : InEnergy B)
    (hC : InEnergy C) : agcScaleDiff32 A B C = pure (C + A * B / 2 ^ 16) := by
  obtain ⟨hB0, hB1⟩ := hB
  obtain ⟨hC0, hC1⟩ := hC
  obtain ⟨h1, h2⟩ := mul_range (x := B / 2 ^ 16) (y := A) (X := 2 ^ 14) (Y := 1000)
    ⟨by omega, by omega⟩ ⟨by omega, by omega⟩
  obtain ⟨h3, h4⟩ := mul_range (x := B % 2 ^ 16) (y := A) (X := 2 ^ 16) (Y := 1000)
    ⟨by omega, by omega⟩ ⟨by omega, by omega⟩
  rw [agcScaleDiff32, ck32_eq ⟨by omega, by omega⟩, pure_bind, ck32_eq ⟨by omega, by omega⟩,
    pure_bind, ck32_eq ⟨by omega, by omega⟩, pure_bind, ck32_eq ⟨by omega, by omega⟩,
    ← floor_mul_split A B (by decide), add_assoc]

theorem speechDecay_range (lr : Int) : -65 ≤ speechDecay lr ∧ speechDecay lr ≤ 0 := by
  rw [speechDecay]
  split
  · omega
  split
  · omega
  · rw [i16_of ⟨by omega, by omega⟩]
    omega

theorem decayFactor_range (s : DigitalAgc) (low : Int) :
    -65 ≤ decayFactor s low ∧ decayFactor s low ≤ 0 := by
  rw [decayFactor]
  have hd := speechDecay_range (if s.vadFarend.counter > 10 then
    i16 ((3 * s.vadNearend.logRatio - s.vadFarend.logRatio) / 2 ^ 2) else s.vadNearend.logRatio)
  generalize speechDecay (if s.vadFarend.counter > 10 then
    i16 ((3 * s.vadNearend.logRatio - s.vadFarend.logRatio) / 2 ^ 2) else s.vadNearend.logRatio) = d
      at hd
  dsimp only
  split
  · split
    · omega
    split
    · omega
    split
    · -- the factor is scaled down by less than one
      rename_i h0 h1
      obtain ⟨hm0, hm1⟩ := mul_range (x := s.vadNearend.stdLongTerm - 4000) (y := d)
        (X := 4095) (Y := 65)
        ⟨by omega, by omega⟩ ⟨by omega, by omega⟩
      have hneg : (s.vadNearend.stdLongTerm - 4000) * d ≤ 0 :=
        mul_nonpos_of_nonneg_of_nonpos (by omega) hd.2
      rw [i16_of ⟨by omega, by omega⟩]
      omega
    · exact hd
  · exact hd

/-- One sub-frame of the followers in exact arithmetic. -/
def nextCapacitors (decay env : Int) (c : Capacitors) : Capacitors :=
  ⟨max env (c.fast + -1000 * c.fast / 2 ^ 16),
    if env > c.slow then c.slow + 500 * (env - c.slow) / 2 ^ 16 else c.slow +
      decay * c.slow / 2 ^ 16⟩

theorem follow_eq {decay env : Int} {c : Capacitors} (hd : -65 ≤ decay ∧ decay ≤ 0)
    (he : InEnergy env)
    (hc : CapRange c) : c.follow decay env = pure (nextCapacitors decay env c) := by
  obtain ⟨hf, hs⟩ := hc
  have hmax : ∀ x : Int, (if env > x then env else x) = max env x := fun x => by omega
  rw [Capacitors.follow, agcScaleDiff32_eq (by decide) hf hf, pure_bind, nextCapacitors]
  by_cases hgt : env > c.slow
  · have hdiff : InEnergy (env - c.slow) := ⟨by omega, by have := he.2; have := hs.1; omega⟩
    rw [if_pos hgt, if_pos hgt, ck32_eq ⟨by have := hdiff.1; omega, by have := hdiff.2; omega⟩,
      pure_bind, agcScaleDiff32_eq (by decide) hdiff hs, pure_bind, hmax]
  · rw [if_neg hgt, if_neg hgt, agcScaleDiff32_eq ⟨by omega, by omega⟩ hs hs, pure_bind, hmax]

/-- The slow follower rises by a fraction of the way. -/
theorem rise_between {env slow : Int} (h : slow < env) :
    slow ≤ slow + 500 * (env - slow) / 2 ^ 16 ∧ slow + 500 * (env - slow) / 2 ^ 16 ≤ env := by
  omega

theorem next_range {decay env : Int} {c : Capacitors} (hd : -65 ≤ decay ∧ decay ≤ 0)
    (he : InEnergy env) (hc : CapRange c) : CapRange (nextCapacitors decay env c) := by
  obtain ⟨⟨hf0, hf1⟩, hs0, hs1⟩ := hc
  obtain ⟨he0, he1⟩ := he
  unfold nextCapacitors
  refine ⟨⟨by dsimp only; omega, by dsimp only; omega⟩, ?_⟩
  dsimp only
  split
  · rename_i hgt
    obtain ⟨h0, h1⟩ := rise_between hgt
    exact ⟨by omega, by omega⟩
  · -- it falls with the decay factor
    have hfall := step_between (a := 0) (b := c.slow) (f := -decay) (d := 2 ^ 16)
      ⟨by omega, by omega⟩ (by decide)
      ⟨le_rfl, by decide⟩ ⟨hs0, hs1⟩
    rw [show (0 - c.slow) * -decay = decay * c.slow by ring] at hfall
    exact hfall

theorem follow_exact {decay env : Int} {c : Capacitors} (hd : -65 ≤ decay ∧ decay ≤ 0)
    (he : InEnergy env) (hc : CapRange c) : ∃ c', c.follow decay env = pure c' ∧ CapRange c' :=
  ⟨_, follow_eq hd he hc, next_range hd he hc⟩

theorem le_curLevel_follow (decay env : Int) (c : Capacitors) :
    env ≤ (c.follow decay env).val.curLevel := by
  have hmax : ∀ fast slow : Int,
      env ≤ Capacitors.curLevel ⟨if env > fast then env else fast, slow⟩ := by
    intro fast slow
    rw [Capacitors.curLevel]
    split <;> dsimp only at * <;> split at * <;> omega
  rw [Capacitors.follow, Chk.val_bind]
  by_cases h : env > c.slow
  · rw [if_pos h]
    exact hmax _ _
  · rw [if_neg h]
    exact hmax _ _

theorem curLevel_range {c : Capacitors} (hc : CapRange c) : InEnergy c.curLevel := by
  rw [Capacitors.curLevel]
  split
  · exact hc.1
  · exact hc.2

/-! ### From a level to a gain -/

theorem levelZeros_range {level : Int} (h : InEnergy level) :
    1 ≤ levelZeros level ∧ levelZeros level ≤ 31 := by
  obtain ⟨h0, h1⟩ := h
  rw [levelZeros]
  split
  · omega
  · rw [u32_of ⟨h0, by omega⟩]
    exact normU32_range (by omega) (by omega)

theorem levelFrac_range (level : Int) : 0 ≤ levelFrac level ∧ levelFrac level ≤ 4095 := by
  have h0 : 0 ≤ levelMantissa level := Int.emod_nonneg _ (by decide)
  have h1 : levelMantissa level < 2 ^ 31 := Int.emod_lt_of_pos _ (by decide)
  rw [levelFrac, i16_of ⟨by omega, by omega⟩]
  omega

/-- A level in range is looked up at two places of the table. -/
theorem interpolateGain_eq {T : List Int} (hT : T.length = 32) {level : Int} (h : InEnergy level) :
    interpolateGain T level = (do
      let d ← ck32 (T.getD (levelZeros level - 1).toNat 0 - T.getD (levelZeros level).toNat 0)
      let t ← ck32 (d * levelFrac level)
      ck32 (T.getD (levelZeros level).toNat 0 + t / 2 ^ 12)) := by
  obtain ⟨h0, h1⟩ := levelZeros_range h
  rw [interpolateGain, ckGet_eq ⟨by omega, by omega⟩, pure_bind,
    ckGet_eq ⟨by omega, by omega⟩, pure_bind]

theorem interpolateGain_lookup {T : List Int} (hT : T.length = 32) {level : Int}
    (h : InEnergy level) :
    ∃ a ∈ T, ∃ b ∈ T, interpolateGain T level =
      (do let d ← ck32 (a - b); let t ← ck32 (d * levelFrac level); ck32 (b + t / 2 ^ 12)) := by
  obtain ⟨h0, h1⟩ := levelZeros_range h
  have hmem : ∀ i : Int, 0 ≤ i → i < 32 → T.getD i.toNat 0 ∈ T := fun i hi0 hi1 => by
    rw [List.getD_eq_getElem T 0 (by omega)]
    exact List.getElem_mem _
  exact ⟨_, hmem (levelZeros level - 1) (by omega) (by omega), _,
    hmem (levelZeros level) (by omega) (by omega), interpolateGain_eq hT h⟩

/-- A gain table whose entries are not below the first one and less than 8 in
Q16. -/
structure Mild (T : List Int) : Prop where
  length : T.length = 32
  nonneg : 0 ≤ T.getD 0 0
  range : ∀ x ∈ T, T.getD 0 0 ≤ x ∧ x < 2 ^ 19

/-- A gain between the first entry of the table and 8. -/
def InMild (T : List Int) (g : Int) : Prop := T.getD 0 0 ≤ g ∧ g < 2 ^ 19

theorem interpolateGain_mild {T : List Int} (hT : Mild T) {level : Int} (h : InEnergy level) :
    ∃ g, interpolateGain T level = pure g ∧ InMild T g := by
  obtain ⟨a, ha, b, hb, heq⟩ := interpolateGain_lookup hT.length h
  have h0 := hT.nonneg
  have hlt : ∀ x ∈ T, T.getD 0 0 ≤ x ∧ x ≤ 2 ^ 19 - 1 := fun x hx => by
    obtain ⟨h1, h2⟩ := hT.range x hx
    exact ⟨h1, by omega⟩
  obtain ⟨ha0, ha1⟩ := hlt a ha
  obtain ⟨hb0, hb1⟩ := hlt b hb
  obtain ⟨hf0, hf1⟩ := levelFrac_range level
  obtain ⟨hm0, hm1⟩ := mul_range (x := a - b) (y := levelFrac level) (X := 2 ^ 19) (Y := 4095)
    ⟨by omega, by omega⟩ ⟨by omega, by omega⟩
  obtain ⟨hg0, hg1⟩ := step_between (a := a) (b := b) (f := levelFrac level) (d := 2 ^ 12)
    ⟨hf0, by omega⟩ (by decide)
    (hlt a ha) (hlt b hb)
  rw [heq, ck32_eq ⟨by omega, by omega⟩, pure_bind, ck32_eq ⟨by omega, by omega⟩, pure_bind,
    ck32_eq ⟨by omega, by omega⟩]
  exact ⟨_, rfl, hg0, by omega⟩

/-- The gains of the ten levels, and the followers after them. -/
theorem levelGains_mild {T : List Int} (hT : Mild T) {decay : Int}
    (hd : -65 ≤ decay ∧ decay ≤ 0) :
    ∀ (env : List Int) {c : Capacitors}, (∀ e ∈ env, InEnergy e) → CapRange c →
      ∃ c' gs, levelGains T decay c env = pure (c', gs) ∧ CapRange c' ∧
        gs.length = env.length ∧ ∀ g ∈ gs, InMild T g
  | [], c, _, hc => ⟨c, [], rfl, hc, rfl, by simp⟩
  | e :: env, c, he, hc => by
    obtain ⟨c1, h1, hc1⟩ := follow_exact hd (he e List.mem_cons_self) hc
    obtain ⟨g, h2, hg⟩ := interpolateGain_mild hT (curLevel_range hc1)
    obtain ⟨c', gs, h3, hc', hl, hgs⟩ := levelGains_mild hT hd env
      (fun x hx => he x (List.mem_cons_of_mem _ hx)) hc1
    refine ⟨c', g :: gs, ?_, hc', by simp [hl], ?_⟩
    · rw [levelGains, h1, pure_bind, h2, pure_bind, h3, pure_bind]
    · intro x hx
      rcases List.mem_cons.mp hx with rfl | hx
      · exact hg
      · exact hgs x hx

/-! ### The gate -/

theorem gainAdj_range {gate : Int} (h : 0 < gate) : 0 ≤ gainAdj gate ∧ gainAdj gate ≤ 78 := by
  rw [gainAdj]
  split <;> omega

theorem gateGain_mild {T : List Int} (hT : Mild T) {gate g : Int} (hgate : 0 < gate)
    (hg : InMild T g) : ∃ g', gateGain (T.getD 0 0) gate g = pure g' ∧ InMild T g' := by
  obtain ⟨hg0, hg1⟩ := hg
  have h0 := hT.nonneg
  obtain ⟨ha0, ha1⟩ := gainAdj_range hgate
  obtain ⟨hm0, hm1⟩ := mul_range (x := g - T.getD 0 0) (y := 178 + gainAdj gate)
    (X := 2 ^ 19) (Y := 256)
    ⟨by omega, by omega⟩ ⟨by omega, by omega⟩
  obtain ⟨hs0, hs1⟩ := step_between (a := g) (b := T.getD 0 0) (f := 178 + gainAdj gate)
    (d := 2 ^ 8)
    ⟨by omega, by omega⟩ (by decide) ⟨hg0, le_rfl⟩ ⟨le_rfl, hg0⟩
  rw [gateGain, ck32_eq ⟨by omega, by omega⟩, pure_bind, if_neg (by omega),
    ck32_eq ⟨by omega, by omega⟩, pure_bind, pure_bind]
  exact ⟨_, ck32_eq ⟨by omega, by omega⟩, hs0, by omega⟩

theorem gateGains_mild {T : List Int} (hT : Mild T) (gate : Int) {gs : List Int}
    (hgs : ∀ g ∈ gs, InMild T g) :
    ∃ gs', gateGains (T.getD 0 0) gate gs = pure gs' ∧ gs'.length = gs.length ∧ ∀ g ∈ gs',
      InMild T g := by
  rw [gateGains]
  split
  · rename_i hgate
    obtain ⟨f, heq, hf⟩ := mapM_exists (P := fun _ => InMild T) gs fun g hg =>
      gateGain_mild hT hgate (hgs g hg)
    refine ⟨gs.map f, heq, by simp, ?_⟩
    intro x hx
    obtain ⟨g, hg, rfl⟩ := List.mem_map.mp hx
    exact (hf g hg).2
  · exact ⟨gs, rfl, rfl, hgs⟩

/-! ### The limiter

The loop's condition squares the gain and multiplies by the energy, both
rounded up at the bits they lose. Where the two products fit 32 bits
(`Tame`), the condition is what it says; they fit on all smaller gains then.
A turn of the loop is always exact. -/

/-- The gain as the loop's condition sees it, and the energy. -/
def roundedGain (zeros g : Int) : Int := g / 2 ^ zeros.toNat + 1

def roundedEnergy (env : Int) : Int := env / 2 ^ 12 + 1

/-- The full scale the condition compares with. -/
def limitOf (zeros : Int) : Int := (shiftW32 32767 (2 * (1 - zeros + 10))).val

theorem shiftW32_limit {zeros : Int} (hz : 10 ≤ zeros ∧ zeros ≤ 16) :
    shiftW32 32767 (2 * (1 - zeros + 10)) = pure (limitOf zeros) := by
  obtain ⟨hz0, hz1⟩ := hz
  interval_cases zeros <;> rfl

theorem agcMul32_eq {A B : Int} (hA : 0 ≤ A ∧ A ≤ 2 ^ 18 + 1) (hB : 0 ≤ B)
    (h : A * B / 2 ^ 13 < 2 ^ 31) : agcMul32 A B = pure (A * B / 2 ^ 13) := by
  have hsum := floor_mul_split A B (d := 2 ^ 13) (by decide)
  have hhi : 0 ≤ B / 2 ^ 13 * A := mul_nonneg (by omega) hA.1
  have hlo : 0 ≤ B % 2 ^ 13 * A := mul_nonneg (by omega) hA.1
  have hlo' : B % 2 ^ 13 * A ≤ 8191 * (2 ^ 18 + 1) :=
    mul_le_mul (by omega) hA.2 hA.1 (by decide)
  rw [agcMul32, ck32_eq ⟨by omega, by omega⟩, pure_bind, ck32_eq ⟨by omega, by omega⟩,
    pure_bind, ck32_eq ⟨by omega, by omega⟩, hsum]

/-- The two products of the loop's condition fit 32 bits. -/
def Tame (env zeros g : Int) : Prop :=
  roundedGain zeros g * roundedGain zeros g < 2 ^ 31 ∧
    roundedEnergy env * (roundedGain zeros g * roundedGain zeros g) / 2 ^ 13 < 2 ^ 31

theorem roundedGain_mono (zeros : Int) {g g' : Int} (h0 : 0 ≤ g') (h : g' ≤ g) :
    1 ≤ roundedGain zeros g' ∧ roundedGain zeros g' ≤ roundedGain zeros g := by
  have h1 : 0 ≤ g' / 2 ^ zeros.toNat := Int.ediv_nonneg h0 (by positivity)
  have h2 : g' / 2 ^ zeros.toNat ≤ g / 2 ^ zeros.toNat := Int.ediv_le_ediv (by positivity) h
  rw [roundedGain, roundedGain]
  omega

theorem Tame.mono {env zeros g g' : Int} (h : Tame env zeros g) (he : 0 ≤ env) (h0 : 0 ≤ g')
    (hle : g' ≤ g) : Tame env zeros g' := by
  obtain ⟨hr0, hr1⟩ := roundedGain_mono zeros h0 hle
  have hsq := mul_le_mul hr1 hr1 (by omega) (by omega)
  have hA : 0 ≤ roundedEnergy env := by
    rw [roundedEnergy]
    omega
  exact ⟨hsq.trans_lt h.1,
    (Int.ediv_le_ediv (by decide) (mul_le_mul_of_nonneg_left hsq hA)).trans_lt h.2⟩

theorem overloads_eq {env zeros g : Int} (he : InEnergy env) (hz : 10 ≤ zeros ∧ zeros ≤ 16)
    (h0 : 0 ≤ g) (h : Tame env zeros g) :
    overloads env zeros g = pure (decide (limitOf zeros <
      roundedEnergy env * (roundedGain zeros g * roundedGain zeros g) / 2 ^ 13)) := by
  obtain ⟨he0, he1⟩ := he
  have hr := (roundedGain_mono zeros h0 le_rfl).1
  have hsq : roundedGain zeros g ≤ roundedGain zeros g * roundedGain zeros g :=
    le_mul_of_one_le_left (by omega) hr
  obtain ⟨h1, h2⟩ := h
  show (do
    let r ← ck32 (roundedGain zeros g)
    let gain32 ← ck32 (r * r)
    let m ← agcMul32 (roundedEnergy env) gain32
    let limit ← shiftW32 32767 (2 * (1 - zeros + 10))
    pure (decide (m > limit))) = _
  rw [ck32_eq ⟨by omega, by omega⟩, pure_bind, ck32_eq ⟨by omega, h1⟩, pure_bind,
    agcMul32_eq ⟨by rw [roundedEnergy]; omega, by rw [roundedEnergy]; omega⟩ (by omega) h2,
    pure_bind, shiftW32_limit hz, pure_bind]

theorem overloads_zero {env zeros : Int} (he : InEnergy env) (hz : 10 ≤ zeros ∧ zeros ≤ 16)
    (h : roundedEnergy env / 2 ^ 13 ≤ limitOf zeros) : (overloads env zeros 0).val = false := by
  have hr : roundedGain zeros 0 = 1 := by simp [roundedGain]
  have hA : roundedEnergy env ≤ 2 ^ 18 + 1 := by
    have := he.2
    rw [roundedEnergy]
    omega
  rw [overloads_eq he hz le_rfl ⟨by rw [hr]; decide, by rw [hr, mul_one, mul_one]; omega⟩, hr,
    mul_one, mul_one, Chk.val_pure, decide_eq_false_iff_not]
  omega

theorem limitOf_ge {zeros : Int} (hz : 10 ≤ zeros ∧ zeros ≤ 15) : 127 ≤ limitOf zeros := by
  obtain ⟨hz0, hz1⟩ := hz
  interval_cases zeros <;> decide

/-- Up to the shift 15 every energy is below the full scale. -/
theorem overloads_zero_of_le {env zeros : Int} (he : InEnergy env)
    (hz : 10 ≤ zeros ∧ zeros ≤ 15) : (overloads env zeros 0).val = false := by
  have hlimit := limitOf_ge hz
  have he' := he.2
  refine overloads_zero he ⟨hz.1, by omega⟩ ?_
  rw [roundedEnergy]
  omega

theorem limitShift_large {g : Int} (h0 : 47453132 < g) (h1 : g < 2 ^ 31) :
    ∃ z : ℕ, limitShift g = z ∧ 11 ≤ z ∧ z ≤ 16 ∧ 2 ^ (z + 14) ≤ g ∧
      g < 2 ^ (z + 15) := by
  obtain ⟨k, hk, -, hlo, hhi⟩ := normW32_pos (a := g) (by omega) h1
  have hk5 : k ≤ 5 := by
    by_contra hk6
    have : (2 : Int) ^ 6 ≤ 2 ^ k := pow_le_pow_right₀ (by decide) (by omega)
    have := mul_le_mul_of_nonneg_left this (show 0 ≤ g by omega)
    omega
  refine ⟨16 - k, ?_, by omega, by omega, ?_⟩
  · rw [limitShift, if_pos h0, hk]
    omega
  · interval_cases k <;> norm_num <;> omega

theorem limitShift_range {g : Int} (h : g < 2 ^ 31) :
    10 ≤ limitShift g ∧ limitShift g ≤ 16 ∧ (g < 2 ^ 30 → limitShift g ≤ 15) := by
  by_cases hg : 47453132 < g
  · obtain ⟨z, hz, hz0, hz1, hlo, -⟩ := limitShift_large hg h
    refine ⟨by omega, by omega, fun hlt => ?_⟩
    by_contra hgt
    obtain rfl : z = 16 := by omega
    omega
  · rw [limitShift, if_neg hg]
    omega

/-- The gain `g'` is between 0 and the gain `g`. -/
def Towards (g g' : Int) : Prop := (0 ≤ g' ∧ g' ≤ g) ∨ (g ≤ g' ∧ g' ≤ 0)

theorem Towards.trans {a b c : Int} (h1 : Towards a b) (h2 : Towards b c) : Towards a c := by
  unfold Towards at *
  omega

/-- A turn of the loop is exact and moves the gain towards 0, which it
reaches. -/
theorem reduceGain_exact {g : Int} (h0 : -2 ^ 23 ≤ g) (h1 : g < 2 ^ 31) :
    ∃ g', reduceGain g = pure g' ∧ Towards g g' ∧ (g ≠ 0 → g'.natAbs < g.natAbs) := by
  rw [reduceGain]
  unfold Towards
  split
  · rw [tdiv_eq, if_pos (by omega), ck32_eq ⟨by omega, by omega⟩]
    exact ⟨_, rfl, by omega, by omega⟩
  · rw [ck32_eq ⟨by omega, by omega⟩, pure_bind, tdiv_eq]
    refine ⟨_, rfl, ?_⟩
    split <;> omega

/-- What the loop leaves: a gain between 0 and the first one that does not
overload. It ends within as many turns as there are gains in between, and it
is exact if its condition is on all of these. -/
theorem limitLoop_spec {env zeros : Int} (hzero : (overloads env zeros 0).val = false) :
    ∀ (n : ℕ) {g : Int}, -2 ^ 23 ≤ g → g < 2 ^ 31 → g.natAbs < n →
      ∃ g', (limitLoop env zeros n g).val = some g' ∧ (overloads env zeros g').val = false ∧
        Towards g g' ∧ ((∀ x, Towards g x → (overloads env zeros x).ok = true) →
          (limitLoop env zeros n g).ok = true)
  | 0, g, _, _, hn => by omega
  | n + 1, g, h0, h1, hn => by
    have hself : Towards g g := by
      unfold Towards
      omega
    rw [limitLoop, Chk.val_bind, Chk.ok_bind]
    by_cases hb : (overloads env zeros g).val = true
    · have hne : g ≠ 0 := by
        rintro rfl
        rw [hzero] at hb
        cases hb
      obtain ⟨g1, hr, htow, hlt⟩ := reduceGain_exact h0 h1
      have hrange : -2 ^ 23 ≤ g1 ∧ g1 < 2 ^ 31 := by
        unfold Towards at htow
        omega
      obtain ⟨g', hl, hov, htow', hok⟩ :=
        limitLoop_spec hzero n hrange.1 hrange.2 (by have := hlt hne; omega)
      rw [if_pos hb, hr, pure_bind]
      refine ⟨g', hl, hov, htow.trans htow', fun hall => ?_⟩
      rw [hall g hself, hok fun x hx => hall x (htow.trans hx)]
      rfl
    · rw [if_neg hb]
      refine ⟨g, rfl, Bool.eq_false_iff.mpr hb, hself, fun hall => ?_⟩
      rw [hall g hself]
      rfl

theorem natAbs_lt_limitTurns {g : Int} (h0 : -2 ^ 23 ≤ g) (h1 : g < 2 ^ 31) :
    g.natAbs < limitTurns := by
  rw [limitTurns]
  omega

/-- The limiter on any gain below `2^31` whose loop ends at 0 at the latest. -/
theorem limitGain_val {env g : Int} (h0 : -2 ^ 23 ≤ g) (h1 : g < 2 ^ 31)
    (hzero : (overloads env (limitShift g) 0).val = false) :
    ∃ g', (limitGain env g).val = some g' ∧ (overloads env (limitShift g) g').val = false ∧
      Towards g g' := by
  obtain ⟨g', hl, hov, htow, -⟩ :=
    limitLoop_spec hzero limitTurns h0 h1 (natAbs_lt_limitTurns h0 h1)
  exact ⟨g', hl, hov, htow⟩

/-- The limiter where the condition is exact on the first gain: so is the
loop, and its condition is not met at the end. -/
theorem limitGain_tame {env g : Int} (he : InEnergy env) (h0 : 0 ≤ g) (h1 : g < 2 ^ 31)
    (ht : Tame env (limitShift g) g) (hzero : (overloads env (limitShift g) 0).val = false) :
    ∃ g', limitGain env g = pure (some g') ∧ 0 ≤ g' ∧ g' ≤ g ∧
      roundedEnergy env * (roundedGain (limitShift g) g' * roundedGain (limitShift g) g') / 2 ^
        13 ≤ limitOf (limitShift g) := by
  obtain ⟨hz0, hz1, -⟩ := limitShift_range h1
  obtain ⟨g', hl, hov, htow, hok⟩ :=
    limitLoop_spec hzero limitTurns (by omega) h1 (natAbs_lt_limitTurns (by omega) h1)
  have hbelow : ∀ x, Towards g x → 0 ≤ x ∧ x ≤ g := fun x hx => by
    unfold Towards at hx
    omega
  have hexact : ∀ x, Towards g x → _ := fun x hx =>
    overloads_eq he ⟨hz0, hz1⟩ (hbelow x hx).1 (ht.mono he.1 (hbelow x hx).1 (hbelow x hx).2)
  refine ⟨g', Chk.eq_pure hl (hok fun x hx => by rw [hexact x hx]; rfl), (hbelow g' htow).1,
    (hbelow g' htow).2, ?_⟩
  rw [hexact g' htow, Chk.val_pure, decide_eq_false_iff_not] at hov
  omega

theorem limitGain_mild {env g : Int} (he : InEnergy env) (h0 : 0 ≤ g) (h1 : g < 2 ^ 19) :
    ∃ g', limitGain env g = pure (some g') ∧ 0 ≤ g' ∧ g' ≤ g := by
  obtain ⟨he0, he1⟩ := he
  have hs : limitShift g = 10 := by
    rw [limitShift, if_neg (by omega)]
  have htame : Tame env (limitShift g) g := by
    have hr : 1 ≤ roundedGain 10 g ∧ roundedGain 10 g ≤ 2 ^ 9 := by
      rw [roundedGain, show (10 : Int).toNat = 10 from rfl]
      omega
    have hsq : roundedGain 10 g * roundedGain 10 g ≤ 2 ^ 9 * 2 ^ 9 :=
      mul_le_mul hr.2 hr.2 (by omega) (by decide)
    have hA : 0 ≤ roundedEnergy env ∧ roundedEnergy env ≤ 2 ^ 18 + 1 := by
      rw [roundedEnergy]
      omega
    have hm := mul_le_mul hA.2 hsq (mul_self_nonneg _) (by decide)
    rw [hs]
    exact ⟨by omega, by omega⟩
  obtain ⟨g', h, h2, h3, -⟩ := limitGain_tame ⟨he0, he1⟩ h0 (by omega) htame
    (overloads_zero_of_le ⟨he0, he1⟩ (by rw [hs]; decide))
  exact ⟨g', h, h2, h3⟩

/-- The limiter on the gains of a frame, from what it does on each. -/
theorem limitGains_val {P : Int → Int → Prop} {envs gs : List Int}
    (h : List.Forall₂ (fun env g => ∃ g', (limitGain env g).val = some g' ∧
      P env g') envs gs) :
    ∃ rs, (limitGains envs gs).val = some rs ∧ List.Forall₂ P envs rs := by
  induction h with
  | nil => exact ⟨[], rfl, .nil⟩
  | cons hhead _ ih =>
    obtain ⟨g', hg, hP⟩ := hhead
    obtain ⟨rs, hrs, hall⟩ := ih
    refine ⟨g' :: rs, ?_, .cons hP hall⟩
    rw [limitGains, Chk.val_bind, hg]
    simp only [Chk.val_bind, Chk.val_pure, hrs, Option.map_some]

/-- The same where it is exact, beside the energies and beside the gains. -/
theorem limitGains_exact {P Q : Int → Int → Prop} {envs gs : List Int}
    (h : List.Forall₂ (fun env g => ∃ g', limitGain env g = pure (some g') ∧ P env g' ∧
      Q g g') envs gs) :
    ∃ rs, limitGains envs gs = pure (some rs) ∧ List.Forall₂ P envs rs ∧
      List.Forall₂ Q gs rs := by
  induction h with
  | nil => exact ⟨[], rfl, .nil, .nil⟩
  | cons hhead _ ih =>
    obtain ⟨g', hg, hP, hQ⟩ := hhead
    obtain ⟨rs, hrs, hP', hQ'⟩ := ih
    refine ⟨g' :: rs, ?_, .cons hP hP', .cons hQ hQ'⟩
    simp only [limitGains, hg, hrs, pure_bind, Option.map_some]

/-! ### The plan -/

theorem length_reduceEarlier : ∀ gs : List Int, (reduceEarlier gs).length = gs.length
  | [] => rfl
  | [_] => rfl
  | a :: b :: rest => by
    simp [reduceEarlier, length_reduceEarlier (b :: rest)]

theorem mem_reduceEarlier : ∀ {gs : List Int} {x : Int}, x ∈ reduceEarlier gs → x ∈ gs
  | [], _, h => h
  | [_], _, h => h
  | a :: b :: rest, x, h => by
    rw [reduceEarlier, List.mem_cons] at h
    rcases h with rfl | h
    · split <;> simp
    · exact List.mem_cons_of_mem _ (mem_reduceEarlier h)

theorem exists_of_forall₂ {α β : Type} {R : α → β → Prop} {l : List α} {r : List β}
    (h : List.Forall₂ R l r) : ∀ b ∈ r, ∃ a ∈ l, R a b := by
  induction h with
  | nil => simp
  | cons hhead _ ih =>
    intro b hb
    rcases List.mem_cons.mp hb with rfl | hb
    · exact ⟨_, List.mem_cons_self, hhead⟩
    · obtain ⟨a, ha, hR⟩ := ih b hb
      exact ⟨a, List.mem_cons_of_mem _ ha, hR⟩

/-- What the digital stage keeps from frame to frame under a mild table. -/
structure MildState (s : DigitalAgc) : Prop where
  table : Mild s.gainTable
  capacitors : CapRange ⟨s.capacitorFast, s.capacitorSlow⟩
  gain : 0 ≤ s.gain ∧ s.gain < 2 ^ 19

/-- The gain computation of a frame of 16-bit samples under a mild table: it
is exact, it ends, and its eleven gains are less than 8. -/
theorem planGains_mild {s : DigitalAgc} (hs : MildState s) (L : ℕ) (low : Int) {band : List Int}
    (hx : ∀ x ∈ band, InI16 x) :
    ∃ p, planGains s L low band = pure (some p) ∧ CapRange p.capacitors ∧
      p.gains.length = 11 ∧
      ∀ g ∈ p.gains, 0 ≤ g ∧ g < 2 ^ 19 := by
  obtain ⟨env, h1, hl1, henv⟩ := envelope_exact L hx
  obtain ⟨c, gs, h2, hc, hl2, hgs⟩ :=
    levelGains_mild hs.table (decayFactor_range s low) env henv hs.capacitors
  obtain ⟨gs', h3, hl3, hgs'⟩ :=
    gateGains_mild hs.table (gateOf c s.vadNearend.stdShortTerm s.gatePrevious).1 hgs
  have hpos : ∀ g ∈ gs', 0 ≤ g ∧ g < 2 ^ 19 := fun g hg =>
    ⟨hs.table.nonneg.trans (hgs' g hg).1, (hgs' g hg).2⟩
  obtain ⟨rs, h4, hall, hlim⟩ := limitGains_exact (P := fun _ g => 0 ≤ g ∧ g < 2 ^ 19)
    (Q := fun g g' => g' ≤ g)
    (List.forall₂_iff_zip.mpr ⟨show env.length = gs'.length by omega, fun hz => by
      obtain ⟨h0, h1⟩ := hpos _ (List.of_mem_zip hz).2
      obtain ⟨g', hg', hn, hle⟩ := limitGain_mild (henv _ (List.of_mem_zip hz).1) h0 h1
      exact ⟨g', hg', ⟨hn, by omega⟩, hle⟩⟩)
  have hl4 := hlim.length_eq
  refine ⟨⟨c, (gateOf c s.vadNearend.stdShortTerm s.gatePrevious).2,
    s.gain :: reduceEarlier rs⟩, ?_, hc, ?_, ?_⟩
  · rw [planGains, h1, pure_bind, h2, pure_bind]
    dsimp only
    rw [h3, pure_bind, h4, pure_bind]
    rfl
  · simp only [List.length_cons, length_reduceEarlier]
    omega
  · intro g hg
    rcases List.mem_cons.mp hg with rfl | hg
    · exact hs.gain
    · obtain ⟨_, -, hr⟩ := exists_of_forall₂ hall g (mem_reduceEarlier hg)
      exact hr

/-! ### A frame, flags aside

The gain of a sub-frame goes through the four stages beside the energy of the
sub-frame, so what a stage does to one gain is a relation between the two. -/

theorem levelGains_val {T : List Int} {P : Int → Int → Prop}
    (hP : ∀ e level, InEnergy e → InEnergy level → e ≤ level →
      P e (interpolateGain T level).val)
    {decay : Int} (hd : -65 ≤ decay ∧ decay ≤ 0) : ∀ (env : List Int) {c : Capacitors},
      (∀ e ∈ env, InEnergy e) → CapRange c → CapRange (levelGains T decay c env).val.1 ∧
        List.Forall₂ P env (levelGains T decay c env).val.2
  | [], c, _, hc => ⟨hc, .nil⟩
  | e :: env, c, he, hc => by
    obtain ⟨c1, h1, hc1⟩ := follow_exact hd (he e List.mem_cons_self) hc
    have hle := le_curLevel_follow decay e c
    obtain ⟨hc', hgs⟩ :=
      levelGains_val hP hd env (fun x hx => he x (List.mem_cons_of_mem _ hx)) hc1
    rw [h1, Chk.val_pure] at hle
    rw [levelGains, h1, pure_bind, Chk.val_bind, Chk.val_bind, Chk.val_pure]
    exact ⟨hc', .cons (hP e _ (he e List.mem_cons_self) (curLevel_range hc1) hle) hgs⟩

theorem gateGains_val {P Q : Int → Int → Prop} {T0 gate : Int}
    (hopen : ∀ e g, 0 < gate → P e g → Q e (gateGain T0 gate g).val)
    (hclosed : ∀ e g, P e g → Q e g) {env gs : List Int} (h : List.Forall₂ P env gs) :
    List.Forall₂ Q env (gateGains T0 gate gs).val := by
  rw [gateGains]
  split
  · rename_i hgate
    rw [val_mapM, List.forall₂_map_right_iff]
    exact h.imp fun e g => hopen e g hgate
  · exact h.imp hclosed

theorem planGains_val {s : DigitalAgc} {P Q R : Int → Int → Prop}
    (hc : CapRange ⟨s.capacitorFast, s.capacitorSlow⟩)
    (hP : ∀ e level, InEnergy e → InEnergy level → e ≤ level →
      P e (interpolateGain s.gainTable level).val)
    (hopen : ∀ gate e g, 0 < gate → P e g → Q e (gateGain (s.gainTable.getD 0 0) gate g).val)
    (hclosed : ∀ e g, P e g → Q e g)
    (hR : ∀ e g, Q e g → ∃ g', (limitGain e g).val = some g' ∧ R e g') (L : ℕ) (low : Int)
    {band : List Int} (hx : ∀ x ∈ band, InI16 x) :
    ∃ p, (planGains s L low band).val = some p ∧ CapRange p.capacitors ∧
      ∃ rs, p.gains = s.gain :: reduceEarlier rs ∧ rs.length = 10 ∧ ∀ g ∈ rs,
        ∃ e, R e g := by
  obtain ⟨env, h1, hlen, henv⟩ := envelope_exact L hx
  obtain ⟨hc', hgs⟩ := levelGains_val hP (decayFactor_range s low) env henv hc
  rw [planGains, h1, pure_bind, Chk.val_bind]
  generalize (levelGains s.gainTable (decayFactor s low) ⟨s.capacitorFast, s.capacitorSlow⟩
    env).val = r at hc' hgs
  dsimp only
  obtain ⟨rs, h4, hall⟩ := limitGains_val
    ((gateGains_val (hopen (gateOf r.1 s.vadNearend.stdShortTerm s.gatePrevious).1) hclosed hgs).imp
      hR)
  rw [Chk.val_bind, Chk.val_bind, Chk.val_pure, h4]
  refine ⟨_, rfl, hc', rs, rfl, by rw [← hall.length_eq, hlen], fun g hg => ?_⟩
  obtain ⟨e, -, he⟩ := exists_of_forall₂ hall g hg
  exact ⟨e, he⟩

/-! ### Any table up to 2^29

Nothing is exact here: an interpolation or a step of the gate may wrap. But a
wrapped product is shifted down before it is added, so the gains stay away
from the ends of the 32 bits, and the limiting loop still ends. -/

/-- A gain table with entries from 0 to `2^29`. -/
structure Bounded (T : List Int) : Prop where
  length : T.length = 32
  range : ∀ x ∈ T, 0 ≤ x ∧ x ≤ 2 ^ 29

theorem interpolateGain_bounded {T : List Int} (hT : Bounded T) {level : Int} (h : InEnergy level) :
    -2 ^ 19 ≤ (interpolateGain T level).val ∧
      (interpolateGain T level).val ≤ 2 ^ 29 + 2 ^ 19 := by
  obtain ⟨a, ha, b, hb, heq⟩ := interpolateGain_lookup hT.length h
  have ha' := hT.range a ha
  have hb' := hT.range b hb
  obtain ⟨h0, h1⟩ := inI32_i32 ((a - b) * levelFrac level)
  rw [heq, ck32_eq ⟨by omega, by omega⟩, pure_bind]
  show -2 ^ 19 ≤ i32 (b + i32 ((a - b) * levelFrac level) / 2 ^ 12) ∧
    i32 (b + i32 ((a - b) * levelFrac level) / 2 ^ 12) ≤ 2 ^ 29 + 2 ^ 19
  rw [i32_of ⟨by omega, by omega⟩]
  omega

theorem gateGain_bounded {T0 gate g : Int} (hT : 0 ≤ T0 ∧ T0 ≤ 2 ^ 29) (hgate : 0 < gate)
    (hg : -2 ^ 19 ≤ g ∧ g ≤ 2 ^ 29 + 2 ^ 19) :
    -2 ^ 23 ≤ (gateGain T0 gate g).val ∧ (gateGain T0 gate g).val < 2 ^ 30 := by
  obtain ⟨ha0, ha1⟩ := gainAdj_range hgate
  rw [gateGain, ck32_eq ⟨by omega, by omega⟩, pure_bind]
  dsimp only
  split
  · -- a large step is shifted down before it is multiplied, by less than 256
    obtain ⟨hm0, hm1⟩ := mul_range (x := (g - T0) / 2 ^ 8) (y := 178 + gainAdj gate)
      (X := (g - T0) / 2 ^ 8) (Y := 256)
      ⟨by omega, by omega⟩ ⟨by omega, by omega⟩
    have hpos : 0 ≤ (g - T0) / 2 ^ 8 * (178 + gainAdj gate) := mul_nonneg (by omega) (by omega)
    rw [ck32_eq ⟨by omega, by omega⟩, pure_bind, ck32_eq ⟨by omega, by omega⟩, Chk.val_pure]
    omega
  · obtain ⟨h0, h1⟩ := inI32_i32 ((g - T0) * (178 + gainAdj gate))
    rw [Chk.val_bind, pure_bind]
    show -2 ^ 23 ≤ i32 (T0 + i32 ((g - T0) * (178 + gainAdj gate)) / 2 ^ 8) ∧
      i32 (T0 + i32 ((g - T0) * (178 + gainAdj gate)) / 2 ^ 8) < 2 ^ 30
    rw [i32_of ⟨by omega, by omega⟩]
    omega

theorem limitGain_bounded {env g : Int} (he : InEnergy env) (hg : -2 ^ 23 ≤ g ∧ g < 2 ^ 30) :
    ∃ g', (limitGain env g).val = some g' := by
  obtain ⟨hz0, -, hz1⟩ := limitShift_range (show g < 2 ^ 31 by omega)
  obtain ⟨g', h, -⟩ :=
    limitGain_val hg.1 (by omega) (overloads_zero_of_le he ⟨hz0, hz1 hg.2⟩)
  exact ⟨g', h⟩

/-- The gain computation of a frame of 16-bit samples ends. -/
theorem planGains_bounded {s : DigitalAgc} (hT : Bounded s.gainTable)
    (hc : CapRange ⟨s.capacitorFast, s.capacitorSlow⟩) (L : ℕ) (low : Int) {band : List Int}
    (hx : ∀ x ∈ band, InI16 x) :
    ∃ p, (planGains s L low band).val = some p ∧ CapRange p.capacitors := by
  have h0 : 0 ≤ s.gainTable.getD 0 0 ∧ s.gainTable.getD 0 0 ≤ 2 ^ 29 :=
    forall_getD (P := fun x => 0 ≤ x ∧ x ≤ 2 ^ 29) (by decide) hT.range 0
  obtain ⟨p, hp, hc', -⟩ :=
    planGains_val (s := s) (P := fun e g => InEnergy e ∧ -2 ^ 19 ≤ g ∧ g ≤ 2 ^ 29 + 2 ^ 19)
    (Q := fun e g => InEnergy e ∧ -2 ^ 23 ≤ g ∧ g < 2 ^ 30) (R := fun _ _ => True) hc
    (fun e level he hl _ => ⟨he, interpolateGain_bounded hT hl⟩)
    (fun gate e g hgate h => ⟨h.1, gateGain_bounded h0 hgate h.2⟩)
    (fun e g h => ⟨h.1, by omega, by omega⟩)
    (fun e g h => by
      obtain ⟨g', hg'⟩ := limitGain_bounded h.1 h.2
      exact ⟨g', hg', trivial⟩) L low hx
  exact ⟨p, hp, hc'⟩

end Gains
end AgcSpec
