/-
# The saturation detector

`WebRtcAgc_SaturationCtrl` adds the scaled envelope values of a frame to a
decaying sum and reports saturation when the sum is above 25000. The sum is
kept in 16 bits: a stored value is at most 24749, a frame adds up to 10240,
and what is above 32767 wraps to a negative number. A call does what it is
for exactly if the sum it forms fits (`detectsExactly_iff`), and so does a run of
calls (`detects_run_iff`); a frame at full scale right after four louder than
average ones goes undetected (`undetected`).
-/
import AgcSpec.Lib.Run
import AgcSpec.ProcessAnalog

namespace AgcSpec
namespace Saturation

open FixedPoint Runs

/-- The envelope of a frame: ten peak energies of 16-bit samples. -/
structure Envelope where
  env : List Int
  length : env.length = 10
  range : ∀ x ∈ env, 0 ≤ x ∧ x ≤ 2 ^ 30

/-- What a frame adds to `envSum`: the scaled values above 875. -/
def loudSum (env : List Int) : Int := ((env.map (· / 2 ^ 20)).filter (875 < ·)).sum

/-- A call of the detector, as a step on `envSum`. -/
def Call (envSum : Int) (f : Envelope) (envSum' : Int) : Prop :=
  envSum' = (saturationCtrl envSum f.env).1

/-- A call on the stored `envSum` is exact: the sum does not wrap at any of
the ten values, saturation is reported for an exact sum above 25000 and only
then, and the decayed sum is stored as it is. -/
structure DetectsExactly (envSum : Int) (f : Envelope) : Prop where
  noWrap : ∀ n, envSumLoop envSum (f.env.take n) = envSum + loudSum (f.env.take n)
  detects : (saturationCtrl envSum f.env).2 = true ↔ envSum + loudSum f.env > 25000
  stored : (saturationCtrl envSum f.env).1 =
    (if envSum + loudSum f.env > 25000 then 0 else envSum + loudSum f.env) * 32440 / 2 ^ 15

/-! ### One call -/

theorem loudSum_cons (x : Int) (env : List Int) :
    loudSum (x :: env) = (if 875 < x / 2 ^ 20 then x / 2 ^ 20 else 0) + loudSum env := by
  simp only [loudSum, List.map_cons, List.filter_cons, decide_eq_true_eq]
  split <;> simp

theorem loudSum_nonneg : ∀ env : List Int, 0 ≤ loudSum env
  | [] => le_rfl
  | x :: env => by
    have ih := loudSum_nonneg env
    rw [loudSum_cons]
    split <;> omega

/-- A part of the frame adds no more than the whole. -/
theorem loudSum_take_le : ∀ (env : List Int) (n : ℕ), loudSum (env.take n) ≤ loudSum env
  | env, 0 => loudSum_nonneg env
  | [], n + 1 => le_rfl
  | x :: env, n + 1 => by
    have ih := loudSum_take_le env n
    rw [List.take_succ_cons, loudSum_cons, loudSum_cons]
    omega

/-- The loop stays in 16 bits, whatever it adds. -/
theorem envSumLoop_range : ∀ (env : List Int) {e : Int}, InI16 e → InI16 (envSumLoop e env)
  | [], _, h => h
  | x :: env, e, h => by
    refine envSumLoop_range env ?_
    split
    · exact inI16_i16 _
    · exact h

/-- As long as the exact sum fits, the loop forms it. -/
theorem envSumLoop_eq : ∀ (env : List Int) {e : Int},
    (∀ x ∈ env, 0 ≤ x ∧ x ≤ 2 ^ 30) → InI16 e → e + loudSum env ≤ 32767 →
      envSumLoop e env = e + loudSum env
  | [], e, _, _, _ => by simp [envSumLoop, loudSum]
  | x :: env, e, hx, he, hs => by
    have h0 := loudSum_nonneg env
    obtain ⟨hx0, hx1⟩ := hx x List.mem_cons_self
    have htmp : i16 (x / 2 ^ 20) = x / 2 ^ 20 := i16_of ⟨by omega, by omega⟩
    rw [loudSum_cons] at hs ⊢
    have ih := fun e' => envSumLoop_eq env (e := e') fun y hy => hx y (List.mem_cons_of_mem _ hy)
    obtain ⟨he0, he1⟩ := he
    simp only [envSumLoop, htmp, gt_iff_lt]
    split at hs
    · rename_i hloud
      have hadd : i16 (e + x / 2 ^ 20) = e + x / 2 ^ 20 := i16_of ⟨by omega, by omega⟩
      rw [if_pos hloud, if_pos hloud, hadd, ih _ ⟨by omega, by omega⟩ (by omega)]
      omega
    · rename_i hquiet
      rw [if_neg hquiet, if_neg hquiet, ih _ ⟨he0, he1⟩ (by omega)]
      omega

theorem call_range {e e' : Int} {f : Envelope} (h : Call e f e') : InI16 e' := by
  rw [Call] at h
  rw [h]
  exact inI16_i16 _

/-- A call is exact if and only if the sum it has to form fits into 16 bits. -/
theorem detectsExactly_iff {e : Int} (he : InI16 e) (f : Envelope) :
    DetectsExactly e f ↔ e + loudSum f.env ≤ 32767 := by
  constructor
  · intro h
    -- the whole frame is one of its parts, and the loop never leaves 16 bits
    have h10 := h.noWrap 10
    rw [List.take_of_length_le f.length.le] at h10
    have hr := envSumLoop_range f.env he
    rw [h10] at hr
    have := hr.2
    omega
  · intro hs
    have hloop := envSumLoop_eq f.env f.range he hs
    have h0 := loudSum_nonneg f.env
    obtain ⟨he0, he1⟩ := he
    refine ⟨fun n => ?_, ?_, ?_⟩
    · have hn := loudSum_take_le f.env n
      exact envSumLoop_eq _ (fun x hx => f.range x (List.mem_of_mem_take hx))
        ⟨he0, he1⟩ (by omega)
    · simp only [saturationCtrl, hloop, decide_eq_true_eq]
    · simp only [saturationCtrl, hloop]
      exact i16_of ⟨by split <;> omega, by split <;> omega⟩

/-! ### Runs -/

/-- Along every run from a cleared sum, all calls are exact if and only if no
call has to form a sum above 32767. -/
theorem detects_run_iff (frames : List Envelope) :
    EveryStep Call 0 frames DetectsExactly ↔
      EveryStep Call 0 frames fun envSum f => envSum + loudSum f.env ≤ 32767 :=
  EveryStep.congr (I := InI16) ⟨by decide, by decide⟩ (fun _ _ _ _ h => call_range h)
    fun _ f _ he => detectsExactly_iff he f

/-- The envelope of a frame with full-scale samples in its first `n` sub-frames
and silence in the others. -/
def fullScale (n : ℕ) (h : n ≤ 10) : Envelope where
  env := List.replicate n (2 ^ 30) ++ List.replicate (10 - n) 0
  length := by simp; omega
  range := by
    intro x hx
    rcases List.mem_append.mp hx with h | h
    · rw [List.eq_of_mem_replicate h]; decide
    · rw [List.eq_of_mem_replicate h]; decide

/-- Two frames at full scale, one in two of its sub-frames and one in one: the
next frame at full scale has the exact sum 33031, and is not reported. -/
theorem undetected :
    Run Call 0 [fullScale 10 (by omega), fullScale 10 (by omega), fullScale 2 (by omega),
      fullScale 1 (by omega)] 22791 ∧
    22791 + loudSum (fullScale 10 (by omega)).env = 33031 ∧
    saturationCtrl 22791 (fullScale 10 (by omega)).env = (-32180, false) := by
  refine ⟨?_, by decide, by decide⟩
  have h1 : Run Call 0 [] 0 := .nil
  have h2 := h1.snoc (a := fullScale 10 (by omega)) (u := 10137) (by rw [Call]; decide)
  have h3 := h2.snoc (a := fullScale 10 (by omega)) (u := 20173) (by rw [Call]; decide)
  have h4 := h3.snoc (a := fullScale 2 (by omega)) (u := 21998) (by rw [Call]; decide)
  exact h4.snoc (a := fullScale 1 (by omega)) (u := 22791) (by rw [Call]; decide)

end Saturation
end AgcSpec
