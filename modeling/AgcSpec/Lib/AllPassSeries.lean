/-
# All-pass sections as power series

A section `v = x + a (u - y)`, started at rest, multiplies the power series of
its inputs by `(X + a) / (1 + a X)`; sections in a row multiply, so their order
does not matter. A section that is computed with rounding, on inputs that are
off by at most `δ`, stays within `spread` of the exact one. The quantity that
carries this is the error of `y - a x`, which a step takes to its own part `a`
and what `δ` and the rounding add (`Off.next`).

Key definitions: `transfer`, `spread`, `Off`, `Beside`.
Key theorems: `transfer_mul`, `Beside.next`, `Beside.output_le`.
-/
import Mathlib.RingTheory.PowerSeries.Inverse
import Mathlib.Algebra.Order.Field.Basic
import Mathlib.Tactic.FieldSimp
import Mathlib.Tactic.Linarith
import Mathlib.Tactic.Ring

namespace AllPass

open PowerSeries

variable {K : Type} [Field K]

/-! ### The exact section -/

/-- What the series of the inputs is multiplied by. -/
noncomputable def transfer (a : K) : K⟦X⟧ := (X + C a) * (1 + C a * X)⁻¹

/-- The recursion of the section, for all its outputs at once; `X` shifts by one. -/
theorem transfer_mul (a : K) (f : K⟦X⟧) :
    transfer a * f = X * f + C a * (f - X * (transfer a * f)) := by
  have hinv : (1 + C a * X) * (1 + C a * X : K⟦X⟧)⁻¹ = 1 :=
    PowerSeries.mul_inv_cancel _ (by simp)
  have hden : (1 + C a * X) * (transfer a * f) = (X + C a) * f := by
    rw [transfer]
    linear_combination (X + C a) * f * hinv
  linear_combination hden

/-! ### A section beside the exact one -/

variable [LinearOrder K] [IsStrictOrderedRing K]

/-- The bound for the outputs, for inputs that are off by `δ` and rounding errors
up to `ρ`. -/
def spread (a ρ δ : K) : K := (1 + a + a) * δ + ρ / (1 - a)

/-- The errors of the last input and of the last output. -/
structure Off (a ρ δ ex ey : K) : Prop where
  input : |ex| ≤ δ
  output : |ey - a * ex| ≤ (1 + a) * δ + ρ / (1 - a)

variable {a ρ δ : K}

theorem Off.zero (ha : 0 ≤ a ∧ a < 1) (hρ : 0 ≤ ρ) (hδ : 0 ≤ δ) : Off a ρ δ 0 0 := by
  refine ⟨by simpa using hδ, ?_⟩
  rw [mul_zero, sub_zero, abs_zero]
  exact add_nonneg (mul_nonneg (by linarith) hδ) (div_nonneg hρ (by linarith))

theorem Off.output_le {ex ey : K} (ha : 0 ≤ a) (h : Off a ρ δ ex ey) :
    |ey| ≤ spread a ρ δ := by
  calc |ey| = |(ey - a * ex) + a * ex| := by rw [sub_add_cancel]
    _ ≤ |ey - a * ex| + |a * ex| := abs_add_le _ _
    _ = |ey - a * ex| + a * |ex| := by rw [abs_mul, abs_of_nonneg ha]
    _ ≤ ((1 + a) * δ + ρ / (1 - a)) + a * δ :=
      add_le_add h.output (mul_le_mul_of_nonneg_left h.input ha)
    _ = spread a ρ δ := by
      unfold spread
      ring

/-- One step, whose output has the error `ev` on an input with the error `eu`. -/
theorem Off.next {ex ey eu ev : K} (ha : 0 ≤ a ∧ a < 1) (h : Off a ρ δ ex ey)
    (hu : |eu| ≤ δ) (hv : |ev - (ex + a * (eu - ey))| ≤ ρ) : Off a ρ δ eu ev := by
  have hpos : 0 < 1 - a := by linarith
  have hsq : 0 ≤ 1 - a ^ 2 := by nlinarith
  refine ⟨hu, ?_⟩
  calc |ev - a * eu| = |(1 - a ^ 2) * ex - a * (ey - a * ex) +
    (ev - (ex + a * (eu - ey)))| := by ring_nf
    _ ≤ |(1 - a ^ 2) * ex| + |a * (ey - a * ex)| + |ev - (ex + a * (eu - ey))| :=
      (abs_add_le _ _).trans (add_le_add_left (abs_sub _ _) _)
    _ = (1 - a ^ 2) * |ex| + a * |ey - a * ex| + |ev - (ex + a * (eu - ey))| := by
      rw [abs_mul, abs_mul, abs_of_nonneg hsq, abs_of_nonneg ha.1]
    _ ≤ (1 - a ^ 2) * δ + a * ((1 + a) * δ + ρ / (1 - a)) + ρ := by
      refine add_le_add (add_le_add ?_ ?_) hv
      · exact mul_le_mul_of_nonneg_left h.input hsq
      · exact mul_le_mul_of_nonneg_left h.output ha.1
    _ = (1 + a) * δ + ρ / (1 - a) := by
      field_simp
      ring

/-- A section before step `n`, with the last input `x` and the last output `y`,
beside the exact one on the series `f`. -/
def Beside (a ρ δ : K) (f : K⟦X⟧) (n : ℕ) (x y : K) : Prop :=
  Off a ρ δ (x - coeff n (X * f)) (y - coeff n (X * (transfer a * f)))

variable {f : K⟦X⟧} {n : ℕ} {x y u v : K}

theorem Beside.start (ha : 0 ≤ a ∧ a < 1) (hρ : 0 ≤ ρ) (hδ : 0 ≤ δ) :
    Beside a ρ δ f 0 0 0 := by
  simpa [Beside] using Off.zero ha hρ hδ

/-- Step `n` on an input that is off by at most `δ`. -/
theorem Beside.next (ha : 0 ≤ a ∧ a < 1) (h : Beside a ρ δ f n x y)
    (hu : |u - coeff n f| ≤ δ)
    (hv : |v - (x + a * (u - y))| ≤ ρ) : Beside a ρ δ f (n + 1) u v := by
  have hexact := congrArg (coeff n) (transfer_mul a f)
  rw [map_add, coeff_C_mul, map_sub] at hexact
  unfold Beside
  rw [coeff_succ_X_mul, coeff_succ_X_mul]
  refine Off.next ha h hu ?_
  rw [show v - coeff n (transfer a * f) -
      (x - coeff n (X * f) + a * (u - coeff n f - (y - coeff n (X * (transfer a * f))))) =
        v - (x + a * (u - y)) by
    rw [hexact]
    ring]
  exact hv

theorem Beside.output_le (ha : 0 ≤ a) (h : Beside a ρ δ f (n + 1) u v) :
    |v - coeff n (transfer a * f)| ≤ spread a ρ δ := by
  have := Off.output_le ha h
  rwa [coeff_succ_X_mul] at this

end AllPass
