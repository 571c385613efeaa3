/-
# First-order all-pass sections with rounding

A section with the coefficient `a / d` has a last input `x` and a last output
`y`; on the input `u` its output is `x + a (u - y) / d`, up to a rounding error.
It is a recursion, and a bound for `|y|` alone grows by `a / d` of itself at
every step. The quantity `d y - a x` does better: one step takes it to
`d x - a y`, which is `(d² - a²) x - a (d y - a x)` over `d`. So inputs up to
`X` keep it within `slack`, and the outputs within `gain`, which is `X` times
`1 + 2 a / d` and a term for the rounding.

Key definitions: `slack`, `gain`, `Held`.
Key theorems: `Held.next`, `Held.output_le`.
-/
import Mathlib.Tactic.Linarith
import Mathlib.Tactic.Ring
import Mathlib.Algebra.Order.Ring.Int
import Mathlib.Algebra.Order.Ring.Abs

namespace AllPass

/-- The bound on `d y - a x`, for inputs up to `X` and rounding errors up to
`E / d`. -/
def slack (d a E X : Int) : Int := (d + a) * X + (d * E / (d - a) + 1)

/-- The bound on the outputs. -/
def gain (d a E X : Int) : Int := (slack d a E X + a * X) / d

/-- The state of a section whose inputs are at most `X`. -/
structure Held (d a E X x y : Int) : Prop where
  input : |x| ≤ X
  output : |d * y - a * x| ≤ slack d a E X

variable {d a E X x y u v : Int}

/-- The bound leaves room for its own part that comes back, and for an error. -/
theorem slack_step (ha : a < d) :
    (d ^ 2 - a ^ 2) * X + a * slack d a E X + d * E ≤ d * slack d a E X := by
  have hda : 0 < d - a := by omega
  have hround : d * E ≤ (d - a) * (d * E / (d - a) + 1) :=
    (Int.lt_mul_ediv_self_add hda).le.trans_eq (by ring)
  have hsplit : d * slack d a E X - a * slack d a E X =
      (d ^ 2 - a ^ 2) * X + (d - a) * (d * E / (d - a) + 1) := by
    unfold slack
    ring
  linarith

theorem slack_nonneg (hd : 0 < d) (ha : 0 ≤ a ∧ a < d) (hE : 0 ≤ E) (hX : 0 ≤ X) :
    0 ≤ slack d a E X := by
  have hround : 0 ≤ d * E / (d - a) := Int.ediv_nonneg (by positivity) (by omega)
  have := mul_nonneg (show 0 ≤ d + a by omega) hX
  unfold slack
  omega

theorem Held.zero (hd : 0 < d) (ha : 0 ≤ a ∧ a < d) (hE : 0 ≤ E) (hX : 0 ≤ X) :
    Held d a E X 0 0 :=
  ⟨by simpa using hX, by simpa using slack_nonneg hd ha hE hX⟩

theorem Held.output_le (hd : 0 < d) (ha : 0 ≤ a) (h : Held d a E X x y) :
    |y| ≤ gain d a E X := by
  rw [gain, Int.le_ediv_iff_mul_le hd]
  calc |y| * d = |d * y| := by rw [abs_mul, abs_of_pos hd, mul_comm]
    _ = |(d * y - a * x) + a * x| := by ring_nf
    _ ≤ |d * y - a * x| + |a * x| := abs_add_le _ _
    _ = |d * y - a * x| + a * |x| := by rw [abs_mul, abs_of_nonneg ha]
    _ ≤ slack d a E X + a * X := add_le_add h.output (mul_le_mul_of_nonneg_left h.input ha)

theorem Held.next (hd : 0 < d) (ha : 0 ≤ a ∧ a < d) (h : Held d a E X x y) (hu : |u| ≤ X)
    (hv : |d * (v - x) - a * (u - y)| ≤ E) : Held d a E X u v := by
  refine ⟨hu, le_of_mul_le_mul_left ?_ hd⟩
  have hsq : 0 ≤ d ^ 2 - a ^ 2 := by nlinarith
  calc d * |d * v - a * u| = |d * (d * v - a * u)| := by rw [abs_mul, abs_of_pos hd]
    _ = |((d ^ 2 - a ^ 2) * x - a * (d * y - a * x)) + d * (d * (v - x) - a * (u - y))| := by
      ring_nf
    _ ≤ |(d ^ 2 - a ^ 2) * x| + |a * (d * y - a * x)| + |d * (d * (v - x) - a * (u - y))| :=
      (abs_add_le _ _).trans (add_le_add_left (abs_sub _ _) _)
    _ = (d ^ 2 - a ^ 2) * |x| + a * |d * y - a * x| + d * |d * (v - x) - a * (u - y)| := by
      rw [abs_mul, abs_mul, abs_mul, abs_of_nonneg hsq, abs_of_nonneg ha.1, abs_of_pos hd]
    _ ≤ (d ^ 2 - a ^ 2) * X + a * slack d a E X + d * E := by
      refine add_le_add (add_le_add ?_ ?_) ?_
      · exact mul_le_mul_of_nonneg_left h.input hsq
      · exact mul_le_mul_of_nonneg_left h.output ha.1
      · exact mul_le_mul_of_nonneg_left hv hd.le
    _ ≤ d * slack d a E X := slack_step ha.2

/-- A product that is rounded down is off by less than one. -/
theorem floor_error (hd : 0 < d) (c z : Int) : |d * (c + z / d - c) - z| ≤ d - 1 := by
  have h0 := Int.emod_nonneg z (ne_of_gt hd)
  have h1 := Int.emod_lt_of_pos z hd
  have h2 := Int.mul_ediv_add_emod z d
  rw [add_sub_cancel_left, abs_le]
  constructor <;> linarith

end AllPass
