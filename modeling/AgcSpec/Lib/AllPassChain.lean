/-
# Three all-pass sections in a row

The bounds of `AllPass` for one section multiply along a chain, and this is
more than the chain can reach: the outputs of a section are not arbitrary
inputs of the next. A closer bound looks back. A linear form of the states
after a step is one of the input, of the states before it and of the rounding
errors (`Chain.back`); step by step the form of the states gets smaller, and
what it leaves behind adds up to the peak of the form. After `n` steps the
bounds of the sections do for the rest (`Chain.peak_bound`).

Forms have integer coefficients and are rounded at every step. This is exact up
to `d` for each difference of a section, so a form is scaled up first.

The states from which a run can have come, for any number of steps, are
`Settled`; a chain at rest is (`settled_rest`), as it stays at rest under the
input 0, and every step keeps it (`Settled.next`).

Key definitions: `Chain`, `Chain.Step`, `Form`, `Chain.back`, `Chain.peak`, `Chain.Settled`.
Key theorems: `Chain.form_step`, `Chain.peak_bound`, `Chain.Settled.next`.
-/
import AgcSpec.Lib.AllPass

namespace AllPass

/-- Three sections with the coefficients `k1 / d`, `k2 / d`, `k3 / d` and
rounding errors up to `e1 / d`, `e2 / d`, `e3 / d`. -/
structure Chain where
  d : Int
  k1 : Int
  k2 : Int
  k3 : Int
  e1 : Int
  e2 : Int
  e3 : Int

/-- The last input of a chain and the last outputs of its sections. -/
structure State where
  s0 : Int
  s1 : Int
  s2 : Int
  s3 : Int

/-- A linear form of the states. -/
structure Form where
  g0 : Int
  g1 : Int
  g2 : Int
  g3 : Int

def Form.at (g : Form) (s : State) : Int := g.g0 * s.s0 + g.g1 * s.s1 + g.g2 * s.s2 + g.g3 * s.s3

def Form.sub (g h : Form) : Form := ⟨g.g0 - h.g0, g.g1 - h.g1, g.g2 - h.g2, g.g3 - h.g3⟩

theorem Form.at_sub (g h : Form) (s : State) : (g.sub h).at s = g.at s - h.at s := by
  unfold Form.at Form.sub
  ring

namespace Chain

variable (c : Chain)

/-- The coefficients are between 0 and 1. -/
structure Proper : Prop where
  d : 0 < c.d
  k1 : 0 ≤ c.k1 ∧ c.k1 < c.d
  k2 : 0 ≤ c.k2 ∧ c.k2 < c.d
  k3 : 0 ≤ c.k3 ∧ c.k3 < c.d
  e1 : 0 ≤ c.e1
  e2 : 0 ≤ c.e2
  e3 : 0 ≤ c.e3

/-- A step from the states `s` to the states `t`, on the input `u`. -/
structure Step (s : State) (u : Int) (t : State) : Prop where
  input : t.s0 = u
  first : |c.d * (t.s1 - s.s0) - c.k1 * (u - s.s1)| ≤ c.e1
  second : |c.d * (t.s2 - s.s1) - c.k2 * (t.s1 - s.s2)| ≤ c.e2
  third : |c.d * (t.s3 - s.s2) - c.k3 * (t.s2 - s.s3)| ≤ c.e3

/-! ### The bounds of the sections -/

/-- What the outputs of the sections are at most, for inputs up to `X`. -/
def gain1 (X : Int) : Int := gain c.d c.k1 c.e1 X

def gain2 (X : Int) : Int := gain c.d c.k2 c.e2 (c.gain1 X)

def gain3 (X : Int) : Int := gain c.d c.k3 c.e3 (c.gain2 X)

/-- The states of a chain with inputs up to `X`, section by section. -/
structure Within (X : Int) (s : State) : Prop where
  first : Held c.d c.k1 c.e1 X s.s0 s.s1
  second : Held c.d c.k2 c.e2 (c.gain1 X) s.s1 s.s2
  third : Held c.d c.k3 c.e3 (c.gain2 X) s.s2 s.s3

variable {c} {X : Int} {s t : State} {u : Int}

theorem Within.le (hc : c.Proper) (h : c.Within X s) :
    |s.s0| ≤ X ∧ |s.s1| ≤ c.gain1 X ∧ |s.s2| ≤ c.gain2 X ∧ |s.s3| ≤ c.gain3 X :=
  ⟨h.first.input, h.second.input, h.third.input, h.third.output_le hc.d hc.k3.1⟩

theorem Within.next (hc : c.Proper) (h : c.Within X s) (hu : |u| ≤ X) (hst : c.Step s u t) :
    c.Within X t := by
  obtain ⟨rfl, h1, h2, h3⟩ := hst
  have hfirst := h.first.next hc.d hc.k1 hu h1
  have hsecond := h.second.next hc.d hc.k2 (hfirst.output_le hc.d hc.k1.1) h2
  exact ⟨hfirst, hsecond, h.third.next hc.d hc.k3 (hsecond.output_le hc.d hc.k2.1) h3⟩

theorem within_rest (hc : c.Proper) (hX : 0 ≤ X) : c.Within X ⟨0, 0, 0, 0⟩ := by
  have h1 : Held c.d c.k1 c.e1 X 0 0 := .zero hc.d hc.k1 hc.e1 hX
  have hX1 : 0 ≤ c.gain1 X := (abs_nonneg 0).trans (h1.output_le hc.d hc.k1.1)
  have h2 : Held c.d c.k2 c.e2 (c.gain1 X) 0 0 := .zero hc.d hc.k2 hc.e2 hX1
  have hX2 : 0 ≤ c.gain2 X := (abs_nonneg 0).trans (h2.output_le hc.d hc.k2.1)
  exact ⟨h1, h2, .zero hc.d hc.k3 hc.e3 hX2⟩

/-! ### Forms before and after a step -/

section Back

variable (c) (g : Form)

/-- The part of a form that a section hands back, in whole numbers. -/
def carry3 : Int := c.k3 * g.g3 / c.d

/-- What the form makes of the new output of the second section, directly and
through the third. -/
def onSecond : Int := g.g2 + c.carry3 g

def carry2 : Int := c.k2 * c.onSecond g / c.d

def onFirst : Int := g.g1 + c.carry2 g

def carry1 : Int := c.k1 * c.onFirst g / c.d

def onInput : Int := g.g0 + c.carry1 g

/-- The form of the states before a step. -/
def back : Form := ⟨c.onFirst g, c.onSecond g - c.carry1 g, g.g3 - c.carry2 g, -c.carry3 g⟩

/-- The parts of the input and of the rounding errors, those of the forms
included. -/
def cost (X : Int) : Int :=
  |c.onInput g| * X + ((|c.onFirst g| * c.e1 + |c.onSecond g| * c.e2 + |g.g3| * c.e3) / c.d + 1) +
    (X + 2 * c.gain1 X + 2 * c.gain2 X + c.gain3 X)

end Back

/-- A form after a step: the parts of the states before it and of the input, and
of the errors of the sections and of the form. -/
theorem form_eq (hst : c.Step s u t) (g : Form) :
    c.d * (g.at t - (c.back g).at s - c.onInput g * u) =
      (c.onFirst g * (c.d * (t.s1 - s.s0) - c.k1 * (u - s.s1)) +
        c.onSecond g * (c.d * (t.s2 - s.s1) - c.k2 * (t.s1 - s.s2)) +
        g.g3 * (c.d * (t.s3 - s.s2) - c.k3 * (t.s2 - s.s3))) +
      (c.k1 * c.onFirst g % c.d * (u - s.s1) + c.k2 * c.onSecond g % c.d * (t.s1 - s.s2) +
        c.k3 * g.g3 % c.d * (t.s2 - s.s3)) := by
  have h1 : c.k1 * c.onFirst g % c.d = c.k1 * c.onFirst g - c.d * c.carry1 g := Int.emod_def _ _
  have h2 : c.k2 * c.onSecond g % c.d = c.k2 * c.onSecond g - c.d * c.carry2 g := Int.emod_def _ _
  have h3 : c.k3 * g.g3 % c.d = c.k3 * g.g3 - c.d * c.carry3 g := Int.emod_def _ _
  unfold Form.at back
  dsimp only
  rw [h1, h2, h3, hst.input, onInput, onFirst, onSecond]
  ring

theorem abs_mul_le {a b B : Int} (h : |b| ≤ B) : |a * b| ≤ |a| * B := by
  rw [abs_mul]
  exact mul_le_mul_of_nonneg_left h (abs_nonneg a)

theorem abs_rest_mul_le {z b B d : Int} (hd : 0 < d) (h : |b| ≤ B) : |z % d * b| ≤ d * B := by
  have h0 := Int.emod_nonneg z (ne_of_gt hd)
  have h1 := Int.emod_lt_of_pos z hd
  rw [abs_mul, abs_of_nonneg h0]
  exact mul_le_mul h1.le h (abs_nonneg b) hd.le

/-- Up to the cost, a form after a step is one before it. -/
theorem form_step (hc : c.Proper) (hs : c.Within X s) (hu : |u| ≤ X) (hst : c.Step s u t)
    (g r : Form) : |g.at t - r.at s| ≤ c.cost g X + |((c.back g).sub r).at s| := by
  obtain ⟨-, hs1, hs2, hs3⟩ := hs.le hc
  obtain ⟨-, ht1, ht2, -⟩ := (hs.next hc hu hst).le hc
  have hd1 : |u - s.s1| ≤ X + c.gain1 X := (abs_sub _ _).trans (add_le_add hu hs1)
  have hd2 : |t.s1 - s.s2| ≤ c.gain1 X + c.gain2 X := (abs_sub _ _).trans (add_le_add ht1 hs2)
  have hd3 : |t.s2 - s.s3| ≤ c.gain2 X + c.gain3 X := (abs_sub _ _).trans (add_le_add ht2 hs3)
  have hform := form_eq hst g
  have hround := (abs_add_three _ _ _).trans
    (add_le_add (add_le_add (abs_mul_le (a := c.onFirst g) hst.first)
      (abs_mul_le (a := c.onSecond g) hst.second)) (abs_mul_le (a := g.g3) hst.third))
  have hrest := (abs_add_three _ _ _).trans (add_le_add (add_le_add
    (abs_rest_mul_le (z := c.k1 * c.onFirst g) hc.d hd1)
      (abs_rest_mul_le (z := c.k2 * c.onSecond g) hc.d hd2))
    (abs_rest_mul_le (z := c.k3 * g.g3) hc.d hd3))
  have hfloor := Int.lt_mul_ediv_self_add (x := |c.onFirst g| * c.e1 + |c.onSecond g| * c.e2 +
    |g.g3| * c.e3) hc.d
  have herror : |g.at t - (c.back g).at s - c.onInput g * u| ≤
      ((|c.onFirst g| * c.e1 + |c.onSecond g| * c.e2 + |g.g3| * c.e3) / c.d + 1) +
        (X + 2 * c.gain1 X + 2 * c.gain2 X + c.gain3 X) := by
    refine le_of_mul_le_mul_left ?_ hc.d
    calc c.d * |g.at t - (c.back g).at s - c.onInput g * u|
        = |c.d * (g.at t - (c.back g).at s - c.onInput g * u)| := by rw [abs_mul, abs_of_pos hc.d]
      _ ≤ (|c.onFirst g| * c.e1 + |c.onSecond g| * c.e2 + |g.g3| * c.e3) +
          (c.d * (X + c.gain1 X) + c.d * (c.gain1 X + c.gain2 X) +
            c.d * (c.gain2 X + c.gain3 X)) := by
        rw [hform]
        exact (abs_add_le _ _).trans (add_le_add hround hrest)
      _ ≤ _ := by linarith
  calc |g.at t - r.at s|
      = |c.onInput g * u + (g.at t - (c.back g).at s - c.onInput g * u) +
        ((c.back g).sub r).at s| := by
        rw [Form.at_sub]
        ring_nf
    _ ≤ |c.onInput g * u| + |g.at t - (c.back g).at s - c.onInput g * u| +
      |((c.back g).sub r).at s| := abs_add_three _ _ _
    _ ≤ c.cost g X + |((c.back g).sub r).at s| := by
      have hinput := abs_mul_le (a := c.onInput g) hu
      unfold cost
      linarith

/-! ### Looking back -/

/-- The peak of a form: `n` steps back, and then the bounds of the sections. -/
def peak (c : Chain) (X : Int) : ℕ → Form → Int
  | 0, g => |g.g0| * X + |g.g1| * c.gain1 X + |g.g2| * c.gain2 X + |g.g3| * c.gain3 X
  | n + 1, g => c.cost g X + peak c X n (c.back g)

/-- States that a run of `n` steps with inputs up to `X` can have led to. -/
def Past (c : Chain) (X : Int) : ℕ → State → Prop
  | 0, s => c.Within X s
  | n + 1, t => ∃ s u, c.Past X n s ∧ |u| ≤ X ∧ c.Step s u t

theorem Past.within (hc : c.Proper) {n : ℕ} (h : c.Past X n s) : c.Within X s := by
  induction n generalizing s with
  | zero => exact h
  | succ n ih =>
    obtain ⟨s', u, hs', hu, hst⟩ := h
    exact (ih hs').next hc hu hst

theorem form_within (hc : c.Proper) (h : c.Within X s) (g : Form) : |g.at s| ≤ c.peak X 0 g := by
  obtain ⟨h0, h1, h2, h3⟩ := h.le hc
  calc |g.at s| ≤ |g.g0 * s.s0| + |g.g1 * s.s1| + |g.g2 * s.s2| + |g.g3 * s.s3| := by
        unfold Form.at
        exact (abs_add_le _ _).trans (add_le_add_left (abs_add_three _ _ _) _)
    _ ≤ |g.g0| * X + |g.g1| * c.gain1 X + |g.g2| * c.gain2 X + |g.g3| * c.gain3 X :=
      add_le_add (add_le_add (add_le_add (abs_mul_le h0) (abs_mul_le h1)) (abs_mul_le h2))
        (abs_mul_le h3)

theorem peak_bound (hc : c.Proper) {n : ℕ} (h : c.Past X n s) (g : Form) :
    |g.at s| ≤ c.peak X n g := by
  induction n generalizing s g with
  | zero => exact form_within hc h g
  | succ n ih =>
    obtain ⟨s', u, hs', hu, hst⟩ := h
    have hstep := form_step hc (hs'.within hc) hu hst g ⟨0, 0, 0, 0⟩
    have hzero : (⟨0, 0, 0, 0⟩ : Form).at s' = 0 := by simp [Form.at]
    rw [Form.at_sub, hzero, sub_zero, sub_zero] at hstep
    exact hstep.trans (add_le_add_right (ih hs' (c.back g)) _)

/-- States with a past of any length. -/
def Settled (c : Chain) (X : Int) (s : State) : Prop := ∀ n, c.Past X n s

theorem settled_rest (hc : c.Proper) (hX : 0 ≤ X) : c.Settled X ⟨0, 0, 0, 0⟩ := by
  intro n
  induction n with
  | zero => exact within_rest hc hX
  | succ n ih =>
    exact ⟨_, 0, ih, by simpa using hX, rfl, by simpa using hc.e1, by simpa using hc.e2,
      by simpa using hc.e3⟩

theorem Settled.next (h : c.Settled X s) (hc : c.Proper) (hu : |u| ≤ X) (hst : c.Step s u t) :
    c.Settled X t := by
  intro n
  cases n with
  | zero => exact (h 0 : c.Within X s).next hc hu hst
  | succ n => exact ⟨s, u, h n, hu, hst⟩

end Chain
end AllPass
