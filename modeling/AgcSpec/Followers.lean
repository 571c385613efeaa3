/-
# The followers and the gate

The look-up in the gain table has no bounds check. It is safe because of two
coupled filters: whatever frames the digital stage has seen since
`WebRtcAgc_InitDigital`, and whatever its voice detectors made of them, both
capacitors are between 0 and the energy `2^30` of a full-scale sample, their
updates are exact, and the level's leading zeros are between 1 and 31
(`followers_in_range`).

The gate that comes after the look-up moves a gain towards the first entry of
the table, by a factor between 178/256 and 1. It has two branches to keep the
product in 32 bits, and they miss it at one point: a difference of exactly
`2^23` goes to the branch that multiplies first, where the factor 1 gives
`2^31` (`gate_step_iff`).
-/
import AgcSpec.Gains
import AgcSpec.Analog
import AgcSpec.Lib.Run

namespace AgcSpec
namespace Followers

open FixedPoint Gains Runs

/-! ### The gate -/

/-- The factor of the gate is 1 for the first four values of an open gate. -/
theorem gainAdj_eq_78_iff {gate : Int} (h : 0 < gate) : gainAdj gate = 78 ↔ gate ≤ 4 := by
  rw [gainAdj]
  split <;> omega

theorem gateGain_large {table0 gate g : Int} (h0 : 0 ≤ table0) (h32 : g < 2 ^ 31)
    (hgate : 0 < gate) (hd : 8388608 < g - table0) :
    gateGain table0 gate g = pure (table0 + (g - table0) / 2 ^ 8 * (178 + gainAdj gate)) ∧
      table0 ≤ table0 + (g - table0) / 2 ^ 8 * (178 + gainAdj gate) ∧
      table0 + (g - table0) / 2 ^ 8 * (178 + gainAdj gate) ≤ g := by
  obtain ⟨ha0, ha1⟩ := gainAdj_range hgate
  have hm0 : 0 ≤ (g - table0) / 2 ^ 8 * (178 + gainAdj gate) := mul_nonneg (by omega) (by omega)
  have hm1 : (g - table0) / 2 ^ 8 * (178 + gainAdj gate) ≤ (g - table0) / 2 ^ 8 * 256 :=
    mul_le_mul_of_nonneg_left (by omega) (by omega)
  rw [gateGain, ck32_eq ⟨by omega, by omega⟩, pure_bind, if_pos hd,
    ck32_eq ⟨by omega, by omega⟩, pure_bind]
  exact ⟨ck32_eq ⟨by omega, by omega⟩, by omega, by omega⟩

/-- The branch for small differences multiplies first, where the product fits. -/
theorem gateGain_small {table0 gate g : Int} (h0 : 0 ≤ table0) (hg : table0 ≤ g)
    (h32 : g < 2 ^ 31) (hgate : 0 < gate) (hd : g - table0 ≤ 8388608)
    (hfit : (g - table0) * (178 + gainAdj gate) < 2 ^ 31) :
    gateGain table0 gate g = pure (table0 + (g - table0) * (178 + gainAdj gate) / 2 ^ 8) ∧
      table0 ≤ table0 + (g - table0) * (178 + gainAdj gate) / 2 ^ 8 ∧
      table0 + (g - table0) * (178 + gainAdj gate) / 2 ^ 8 ≤ g := by
  obtain ⟨ha0, ha1⟩ := gainAdj_range hgate
  have hm0 : 0 ≤ (g - table0) * (178 + gainAdj gate) := mul_nonneg (by omega) (by omega)
  obtain ⟨hs0, hs1⟩ := step_between (a := g) (b := table0) (f := 178 + gainAdj gate)
    (d := 2 ^ 8)
    ⟨by omega, by omega⟩ (by decide) ⟨hg, le_rfl⟩ ⟨le_rfl, hg⟩
  rw [gateGain, ck32_eq ⟨by omega, by omega⟩, pure_bind, if_neg (by omega),
    ck32_eq ⟨by omega, hfit⟩, pure_bind, pure_bind]
  exact ⟨ck32_eq ⟨by omega, by omega⟩, hs0, hs1⟩

/-- At the split point with the factor 1 the product wraps. -/
theorem gateGain_split {table0 gate g : Int} (hd : g - table0 = 8388608) (ha : gainAdj gate = 78) :
    (gateGain table0 gate g).ok = false := by
  rw [gateGain, hd, ha, ck32_eq (by decide), pure_bind, if_neg (by decide), Chk.ok_bind]
  rfl

/-- The gate's step is exact and leads to a gain between the first entry of
the table and the old gain, except at the split point of its two branches with
the gate at its first values. -/
theorem gate_step_iff {table0 gate g : Int} (h0 : 0 ≤ table0) (hg : table0 ≤ g)
    (h32 : g < 2 ^ 31) (hgate : 0 < gate) :
    (∃ g', gateGain table0 gate g = pure g' ∧ table0 ≤ g' ∧ g' ≤ g) ↔
      ¬ (g - table0 = 8388608 ∧ gate ≤ 4) := by
  constructor
  · rintro ⟨g', heq, -, -⟩ ⟨hd, hle⟩
    have hok := gateGain_split hd ((gainAdj_eq_78_iff hgate).mpr hle)
    rw [heq] at hok
    cases hok
  · intro hne
    by_cases hd : 8388608 < g - table0
    · exact ⟨_, gateGain_large h0 h32 hgate hd⟩
    -- below the split point any factor is small enough, at it any but 1
    have hfit : (g - table0) * (178 + gainAdj gate) < 2 ^ 31 := by
      obtain ⟨ha0, ha1⟩ := gainAdj_range hgate
      rcases (show g - table0 < 8388608 ∨ g - table0 = 8388608 by omega) with hlt | heq
      · have := mul_le_mul (show g - table0 ≤ 8388607 by omega) (show 178 + gainAdj gate ≤
          256 by omega) (by omega)
          (by decide)
        omega
      · have := mt (gainAdj_eq_78_iff hgate).mp fun hle => hne ⟨heq, hle⟩
        rw [heq]
        omega
    exact ⟨_, gateGain_small h0 hg h32 hgate (by omega) hfit⟩

/-- A gate of 100 on the difference of the split point. -/
theorem gate_step_open :
    ∃ g', gateGain 65536 100 8454144 = pure g' ∧ 65536 ≤ g' ∧ g' ≤ 8454144 :=
  (gate_step_iff (by decide) (by decide) (by decide) (by decide)).mpr (by decide)

/-- A gate of 1 there gives a negative gain. -/
theorem gate_step_wraps :
    (gateGain 0 1 8388608).val = -8388608 ∧ (gateGain 0 1 8388608).ok = false := by decide

/-! ### The followers in a frame -/

/-- The capacitors of a frame go through its sub-frames in order. -/
theorem levelGains_snoc (T : List Int) (decay env : Int) : ∀ (envs : List Int) (c : Capacitors),
    (levelGains T decay c (envs ++ [env])).val.1 =
      ((levelGains T decay c envs).val.1.follow decay env).val
  | [], _ => rfl
  | e :: envs, c => by
    simp only [List.cons_append, levelGains, Chk.val_bind, Chk.val_pure]
    exact levelGains_snoc T decay env envs _

theorem capRange_levelGains (T : List Int) {decay : Int} (hd : -65 ≤ decay ∧ decay ≤ 0)
    {envs : List Int} {c : Capacitors} (he : ∀ e ∈ envs, InEnergy e) (hc : CapRange c) :
    CapRange (levelGains T decay c envs).val.1 :=
  (levelGains_val (P := fun _ _ => True) (fun _ _ _ _ _ => trivial) hd envs he hc).1

/-- What holds at a sub-frame of energy `env`, with the capacitors `c` before
it: they are levels and so are the next ones; the uses of `AGC_SCALEDIFF32` and
with them the update are exact; the slow follower does not overshoot the energy
it rises towards; and both places of the look-up are in the table. -/
structure SubframeExact (decay env : Int) (c : Capacitors) : Prop where
  before : CapRange c
  fast : agcScaleDiff32 (-1000) c.fast c.fast = pure (c.fast + -1000 * c.fast / 2 ^ 16)
  rising : c.slow < env →
    agcScaleDiff32 500 (env - c.slow) c.slow = pure (c.slow + 500 * (env - c.slow) / 2 ^ 16)
  falling : env ≤ c.slow →
    agcScaleDiff32 decay c.slow c.slow = pure (c.slow + decay * c.slow / 2 ^ 16)
  update : c.follow decay env = pure (nextCapacitors decay env c)
  after : CapRange (nextCapacitors decay env c)
  rise : c.slow < env → c.slow ≤ (nextCapacitors decay env c).slow ∧
    (nextCapacitors decay env c).slow ≤ env
  lookup : 0 ≤ levelZeros (nextCapacitors decay env c).curLevel - 1 ∧
    levelZeros (nextCapacitors decay env c).curLevel ≤ 31

theorem subframeExact {decay env : Int} {c : Capacitors} (hd : -65 ≤ decay ∧ decay ≤ 0)
    (he : InEnergy env) (hc : CapRange c) : SubframeExact decay env c := by
  have hn := next_range hd he hc
  obtain ⟨hz0, hz1⟩ := levelZeros_range (curLevel_range hn)
  exact {
    before := hc
    fast := agcScaleDiff32_eq (by decide) hc.1 hc.1
    rising := fun hlt => agcScaleDiff32_eq (by decide)
      ⟨by omega, by have := he.2; have := hc.2.1; omega⟩ hc.2
    falling := fun _ => agcScaleDiff32_eq ⟨by omega, by omega⟩ hc.2 hc.2
    update := follow_eq hd he hc
    after := hn
    rise := fun hlt => by
      rw [nextCapacitors, if_pos hlt]
      exact rise_between hlt
    lookup := ⟨by omega, hz1⟩ }

/-! ### The followers in a run -/

/-- A frame of the digital stage. Between two frames a configuration can
change the gain table, and the voice detectors may be in any state. -/
structure DigitalFrame where
  gainTable : List Int
  vadNearend : AgcVad
  vadFarend : AgcVad
  in_near : List (List Int)
  FS : Int
  lowlevelSignal : Int

/-- The stage as the frame finds it. -/
def DigitalFrame.enter (f : DigitalFrame) (s : DigitalAgc) : DigitalAgc :=
  { s with gainTable := f.gainTable, vadNearend := f.vadNearend, vadFarend := f.vadFarend }

/-- A frame of 16-bit samples that `WebRtcAgc_ProcessDigital` returns from. -/
def FrameStep (s : DigitalAgc) (f : DigitalFrame) (t : DigitalAgc) : Prop :=
  (∀ x ∈ f.in_near.headD [], InI16 x) ∧
    ∃ out, (processDigital (f.enter s) f.in_near f.FS f.lowlevelSignal).val = .done t out

/-- The capacitors of the digital stage. -/
def capacitorsOf (s : DigitalAgc) : Capacitors := ⟨s.capacitorFast, s.capacitorSlow⟩

theorem capRange_planGains {s : DigitalAgc} {L : ℕ} {low : Int} {band : List Int} {p : GainPlan}
    (hc : CapRange (capacitorsOf s)) (hx : ∀ x ∈ band, InI16 x)
    (h : (planGains s L low band).val = some p) : CapRange p.capacitors := by
  obtain ⟨env, he, -, henv⟩ := envelope_exact L hx
  rw [planGains, he, pure_bind] at h
  obtain ⟨gs, -, rfl⟩ := Option.map_eq_some_iff.mp h
  exact capRange_levelGains _ (decayFactor_range s low) henv hc

theorem capRange_step {s t : DigitalAgc} {f : DigitalFrame} (hc : CapRange (capacitorsOf s))
    (h : FrameStep s f t) : CapRange (capacitorsOf t) := by
  obtain ⟨hx, out, hdone⟩ := h
  rw [processDigital] at hdone
  split at hdone
  · cases hdone
  rename_i L L2 _
  rw [Chk.val_bind] at hdone
  rcases hp : (planGains ((f.enter s).nearend L (f.in_near.headD [])) L f.lowlevelSignal
    (f.in_near.headD [])).val with _ | p
  · rw [hp] at hdone
    cases hdone
  · rw [hp] at hdone
    obtain ⟨rfl, -⟩ := DigitalResult.done.inj hdone
    exact capRange_planGains (s := (f.enter s).nearend L (f.in_near.headD [])) hc hx hp

theorem capRange_init (s : DigitalAgc) (agcMode : Int) :
    CapRange (capacitorsOf (initDigital s agcMode)) := by
  refine ⟨(⟨le_rfl, by decide⟩ : InEnergy 0), ?_⟩
  show InEnergy (if agcMode = kAgcModeFixedDigital then 0 else 134217728)
  split <;> exact ⟨by decide, by decide⟩

/-- After any number of frames since the initialisation, in any mode, the
capacitors are in range, and the next frame finds them so at each of its ten
sub-frames, whatever its samples are and whatever the voice detectors say. -/
theorem followers_in_range {mem s : DigitalAgc} {agcMode : Int} {fs : List DigitalFrame}
    (hrun : Run FrameStep (initDigital mem agcMode) fs s) :
    CapRange (capacitorsOf s) ∧
      ∀ (T : List Int) (near far : AgcVad) (L : ℕ) (low : Int) (band : List Int),
        (∀ x ∈ band, InI16 x) →
        let decay := decayFactor { s with vadNearend := near, vadFarend := far } low
        (-65 ≤ decay ∧ decay ≤ 0) ∧ ∃ env, envelope L band = pure env ∧
          env.length = 10 ∧ ∀ k < 10, SubframeExact decay (env.getD k 0)
            (levelGains T decay (capacitorsOf s) (env.take k)).val.1 ∧
              (levelGains T decay (capacitorsOf s) (env.take (k + 1))).val.1 =
              nextCapacitors decay (env.getD k 0)
                (levelGains T decay (capacitorsOf s) (env.take k)).val.1 := by
  have hc : CapRange (capacitorsOf s) :=
    hrun.invariant (I := fun s => CapRange (capacitorsOf s)) (capRange_init mem agcMode)
      fun _ _ _ => capRange_step
  refine ⟨hc, fun T near far L low band hx => ?_⟩
  intro decay
  have hd : -65 ≤ decay ∧ decay ≤ 0 := decayFactor_range _ low
  obtain ⟨env, he, hlen, henv⟩ := envelope_exact L hx
  refine ⟨hd, env, he, hlen, fun k hk => ?_⟩
  have hk' : k < env.length := by omega
  have hget : env.getD k 0 = env[k] := List.getD_eq_getElem env 0 hk'
  have hcap : CapRange (levelGains T decay (capacitorsOf s) (env.take k)).val.1 :=
    capRange_levelGains T hd (fun e h => henv e (List.mem_of_mem_take h)) hc
  have hsub := subframeExact hd (hget ▸ henv _ (List.getElem_mem hk')) hcap
  refine ⟨hsub, ?_⟩
  rw [List.take_succ_eq_append_getElem hk', ← hget, levelGains_snoc, hsub.update, Chk.val_pure]

/-- The first frame after the initialisation, at full scale. -/
theorem followers_first_frame :
    let s := initDigital LegacyAgc.cleared.digitalAgc kAgcModeAdaptiveDigital
    let decay := decayFactor s 0
    ∃ env, envelope 8 (List.replicate 80 (-32768)) = pure env ∧ env.length = 10 ∧
      ∀ k < 10, SubframeExact decay (env.getD k 0)
        (levelGains [] decay (capacitorsOf s) (env.take k)).val.1 := by
  obtain ⟨-, hnext⟩ := followers_in_range (.nil : Run FrameStep
    (initDigital LegacyAgc.cleared.digitalAgc kAgcModeAdaptiveDigital) [] _)
  obtain ⟨-, env, he, hlen, hsub⟩ := hnext [] initVad initVad 8 0 (List.replicate 80 (-32768))
      fun x hx => by
    rw [List.eq_of_mem_replicate hx]
    decide
  exact ⟨env, he, hlen, fun k hk => (hsub k hk).1⟩

end Followers
end AgcSpec
