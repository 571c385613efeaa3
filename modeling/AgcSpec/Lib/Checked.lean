/-
# Fixed-width integer arithmetic with an exactness flag

C integers of a fixed width, as integers: `i16`, `i32`, `i64`, `u16`, `u32`
reduce an integer to the type, two's complement, and `InI16`, `InI32`, `InI64`,
`InU32` are the ranges. A computation of type `Chk α` carries, beside its value, a flag
that stays up as long as every operation in it was exact: a signed operation
that leaves its range, an unsigned one that wraps, a narrowing that loses
bits, a shift or an index out of range put the flag down. The value then is
the two's complement one, so a `Chk` computation says both what the code
computes with wrapping arithmetic and whether C gives it a meaning at all.

The rule to use it with: an operation whose exact result is in range is
`pure` of that result (`ck32_eq`, `ck16_eq`, `ck64_eq`, `cku32_eq`), so a whole block
without overflow is rewritten, step by step, to `pure` of its exact value.

Key definitions: `Chk`, `ck32`, `ck16`, `ck64`, `cku32`, `sat16`.
Key theorems: `ck32_eq`, `mapM_eq_pure`, `mapM_exists`, `tdiv_eq`, `floor_mul_split`,
`step_between`.
-/
import Mathlib

namespace FixedPoint

/-! ### Ranges and reductions -/

/-- The range of `int16_t`. -/
def InI16 (x : Int) : Prop := -2 ^ 15 ≤ x ∧ x < 2 ^ 15

/-- The range of `int32_t`. -/
def InI32 (x : Int) : Prop := -2 ^ 31 ≤ x ∧ x < 2 ^ 31

/-- The range of `int64_t`. -/
def InI64 (x : Int) : Prop := -2 ^ 63 ≤ x ∧ x < 2 ^ 63

/-- The range of `uint32_t`. -/
def InU32 (x : Int) : Prop := 0 ≤ x ∧ x < 2 ^ 32

instance : DecidablePred InI16 := fun _ => inferInstanceAs (Decidable (_ ∧ _))
instance : DecidablePred InI32 := fun _ => inferInstanceAs (Decidable (_ ∧ _))
instance : DecidablePred InI64 := fun _ => inferInstanceAs (Decidable (_ ∧ _))
instance : DecidablePred InU32 := fun _ => inferInstanceAs (Decidable (_ ∧ _))

/-- Conversion to `int16_t`. -/
def i16 (x : Int) : Int := (x + 2 ^ 15) % 2 ^ 16 - 2 ^ 15

/-- Conversion to `int32_t`. -/
def i32 (x : Int) : Int := (x + 2 ^ 31) % 2 ^ 32 - 2 ^ 31

/-- Conversion to `int64_t`. -/
def i64 (x : Int) : Int := (x + 2 ^ 63) % 2 ^ 64 - 2 ^ 63

/-- Conversion to `uint16_t`. -/
def u16 (x : Int) : Int := x % 2 ^ 16

/-- Conversion to `uint32_t`. -/
def u32 (x : Int) : Int := x % 2 ^ 32

/-- Saturation to the range of `int16_t`. -/
def sat16 (x : Int) : Int := if x > 32767 then 32767 else if x < -32768 then -32768 else x

theorem i16_of {x : Int} (h : InI16 x) : i16 x = x := by
  obtain ⟨h1, h2⟩ := h
  unfold i16; omega

theorem i32_of {x : Int} (h : InI32 x) : i32 x = x := by
  obtain ⟨h1, h2⟩ := h
  unfold i32; omega

theorem i64_of {x : Int} (h : InI64 x) : i64 x = x := by
  obtain ⟨h1, h2⟩ := h
  unfold i64; omega

theorem u32_of {x : Int} (h : InU32 x) : u32 x = x := by
  obtain ⟨h1, h2⟩ := h
  unfold u32; omega

theorem inI16_i16 (x : Int) : InI16 (i16 x) := by
  unfold InI16 i16; omega

theorem inI32_i32 (x : Int) : InI32 (i32 x) := by
  unfold InI32 i32; omega

theorem inU32_u32 (x : Int) : InU32 (u32 x) := by
  unfold InU32 u32; omega

theorem inI16_sat16 (x : Int) : InI16 (sat16 x) := by
  unfold InI16 sat16; omega

theorem sat16_of {x : Int} (h : InI16 x) : sat16 x = x := by
  obtain ⟨h1, h2⟩ := h
  unfold sat16; omega

/-! ### Rounding

A right shift of a signed integer is a division by a power of two that rounds
down, Lean's `/`; a C division rounds towards zero, `Int.tdiv`. -/

/-- C's division, by cases that `omega` knows for a literal divisor. -/
theorem tdiv_eq (a b : Int) :
    a.tdiv b = if 0 ≤ a then a / b else -(-a / b) := by
  split
  · exact Int.tdiv_eq_ediv_of_nonneg ‹_›
  · rename_i h
    have h1 := Int.neg_tdiv (-a) b
    rw [neg_neg] at h1
    rw [h1, Int.tdiv_eq_ediv_of_nonneg (by omega)]

/-- A product with a number cut in two at a bit, the low part's product
rounded down: nothing is lost. -/
theorem floor_mul_split (a b : Int) {d : Int} (hd : d ≠ 0) :
    b / d * a + b % d * a / d = a * b / d := by
  have h : a * b = b % d * a + b / d * a * d := by
    calc a * b = a * (b % d + d * (b / d)) := by rw [Int.emod_add_mul_ediv]
      _ = b % d * a + b / d * a * d := by ring
  rw [h, Int.add_mul_ediv_right _ _ hd]
  ring

theorem mul_range {x y X Y : Int} (hx : -X ≤ x ∧ x ≤ X) (hy : -Y ≤ y ∧ y ≤ Y) :
    -(X * Y) ≤ x * y ∧ x * y ≤ X * Y := by
  have h : |x * y| ≤ X * Y := by
    rw [abs_mul]
    exact mul_le_mul (abs_le.mpr hx) (abs_le.mpr hy) (abs_nonneg y) (by omega)
  exact abs_le.mp h

theorem mul_self_range {x : Int} (hx : InI16 x) : 0 ≤ x * x ∧ x * x ≤ 2 ^ 30 :=
  ⟨mul_self_nonneg x,
    (mul_range (X := 2 ^ 15) (Y := 2 ^ 15) ⟨hx.1, hx.2.le⟩ ⟨hx.1, hx.2.le⟩).2⟩

/-- A step from `b` towards `a`, rounded down, stays between bounds of both. -/
theorem step_between {a b f d lo hi : Int} (hf : 0 ≤ f ∧ f ≤ d) (hd : 0 < d)
    (ha : lo ≤ a ∧ a ≤ hi)
    (hb : lo ≤ b ∧ b ≤ hi) : lo ≤ b + (a - b) * f / d ∧ b + (a - b) * f / d ≤ hi := by
  constructor
  · have h1 : (lo - b) * d ≤ (a - b) * f := by
      calc (lo - b) * d ≤ (lo - b) * f := mul_le_mul_of_nonpos_left hf.2 (by omega)
        _ ≤ (a - b) * f := mul_le_mul_of_nonneg_right (by omega) hf.1
    have h2 := (Int.le_ediv_iff_mul_le hd).mpr h1
    omega
  · have h1 : (a - b) * f ≤ (hi - b) * d := by
      calc (a - b) * f ≤ (hi - b) * f := mul_le_mul_of_nonneg_right (by omega) hf.1
        _ ≤ (hi - b) * d := mul_le_mul_of_nonneg_left hf.2 (by omega)
    have h2 := Int.ediv_le_of_le_mul hd h1
    omega

/-! ### Computations with a flag -/

/-- A value, and whether every operation on the way to it was exact. -/
structure Chk (α : Type) where
  val : α
  ok : Bool
deriving DecidableEq, Repr

namespace Chk

instance : Monad Chk where
  pure a := ⟨a, true⟩
  bind x f := ⟨(f x.val).val, x.ok && (f x.val).ok⟩

variable {α β : Type}

@[simp] theorem val_pure (a : α) : (pure a : Chk α).val = a := rfl
@[simp] theorem ok_pure (a : α) : (pure a : Chk α).ok = true := rfl
@[simp] theorem val_bind (x : Chk α) (f : α → Chk β) : (x >>= f).val = (f x.val).val := rfl
@[simp] theorem ok_bind (x : Chk α) (f : α → Chk β) : (x >>= f).ok = (x.ok && (f x.val).ok) :=
  rfl

instance : LawfulMonad Chk := LawfulMonad.mk' Chk
  (fun x => by cases x; simp [Functor.map])
  (fun a f => by simp [bind, pure])
  (fun x f g => by simp [bind, Bool.and_assoc])

theorem eq_pure {x : Chk α} {a : α} (hval : x.val = a) (hok : x.ok = true) : x = pure a := by
  cases x
  cases hval
  cases hok
  rfl

theorem bind_congr_val {x : Chk α} {f g : α → Chk β} (h : f x.val = g x.val) :
    x >>= f = x >>= g := by
  simp only [bind, h]

/-- Two computations that do not use each other can change places. -/
theorem bind_comm {γ : Type} (x : Chk α) (y : Chk β) (f : α → β → Chk γ) :
    (x >>= fun a => y >>= f a) = y >>= fun b => x >>= fun a => f a b := by
  simp only [bind, Bool.and_left_comm]

end Chk

/-- A computation whose flag is the given fact. -/
def flag {α : Type} (p : Prop) [Decidable p] (v : α) : Chk α := ⟨v, decide p⟩

/-- The result of a signed 32-bit operation with exact value `x`. -/
def ck32 (x : Int) : Chk Int := flag (InI32 x) (i32 x)

/-- The result of an unsigned 32-bit operation with exact value `x`. -/
def cku32 (x : Int) : Chk Int := flag (InU32 x) (u32 x)

/-- The result of a signed 64-bit operation with exact value `x`. -/
def ck64 (x : Int) : Chk Int := flag (InI64 x) (i64 x)

/-- The narrowing of `x` to `int16_t`. -/
def ck16 (x : Int) : Chk Int := flag (InI16 x) (i16 x)

/-- Entry `i` of a constant table or a fixed array. -/
def ckGet (t : List Int) (i : Int) : Chk Int := flag (0 ≤ i ∧ i < t.length) (t.getD i.toNat 0)

@[simp] theorem val_flag {α : Type} (p : Prop) [Decidable p] (v : α) : (flag p v).val = v := rfl
@[simp] theorem val_ck32 (x : Int) : (ck32 x).val = i32 x := rfl
@[simp] theorem val_cku32 (x : Int) : (cku32 x).val = u32 x := rfl
@[simp] theorem val_ck16 (x : Int) : (ck16 x).val = i16 x := rfl
@[simp] theorem val_ckGet (t : List Int) (i : Int) : (ckGet t i).val = t.getD i.toNat 0 := rfl

theorem flag_eq {α : Type} {p : Prop} [Decidable p] (h : p) (v : α) : flag p v = pure v := by
  simp [flag, h, pure]

theorem ck32_eq {x : Int} (h : InI32 x) : ck32 x = pure x := by
  rw [ck32, flag_eq h, i32_of h]

/-- The flag of an operation is up exactly where it is exact. -/
theorem ok_ck32_iff {x : Int} : (ck32 x).ok = true ↔ InI32 x := decide_eq_true_iff

theorem cku32_eq {x : Int} (h : InU32 x) : cku32 x = pure x := by
  rw [cku32, flag_eq h, u32_of h]

theorem ck64_eq {x : Int} (h : InI64 x) : ck64 x = pure x := by
  rw [ck64, flag_eq h, i64_of h]

theorem ck16_eq {x : Int} (h : InI16 x) : ck16 x = pure x := by
  rw [ck16, flag_eq h, i16_of h]

theorem ckGet_eq {t : List Int} {i : Int} (h : 0 ≤ i ∧ i < t.length) :
    ckGet t i = pure (t.getD i.toNat 0) := flag_eq h _

theorem ckGet_append (l : List Int) (v : Int) (r : List Int) :
    ckGet (l ++ v :: r) l.length = pure v := by
  rw [ckGet_eq ⟨by omega, by simp⟩]
  simp

/-- A block over a list is exact if it is at every element. -/
theorem mapM_eq_pure {α β : Type} {f : α → Chk β} {g : α → β} :
    ∀ l : List α, (∀ x ∈ l, f x = pure (g x)) → l.mapM f = pure (l.map g)
  | [], _ => rfl
  | x :: l, h => by
    rw [List.mapM_cons, h x List.mem_cons_self, pure_bind,
      mapM_eq_pure l fun y hy => h y (List.mem_cons_of_mem _ hy), pure_bind]
    rfl

/-- A block over a list, from what is known of it at every element. -/
theorem mapM_exists {α β : Type} [Nonempty β] {f : α → Chk β} {P : α → β → Prop}
    (l : List α) (h : ∀ x ∈ l, ∃ y, f x = pure y ∧ P x y) :
    ∃ g : α → β, l.mapM f = pure (l.map g) ∧ ∀ x ∈ l,
      f x = pure (g x) ∧ P x (g x) := by
  choose! g hg using h
  exact ⟨g, mapM_eq_pure l fun x hx => (hg x hx).1, hg⟩

theorem val_mapM {α β : Type} (f : α → Chk β) :
    ∀ l : List α, (l.mapM f).val = l.map fun x => (f x).val
  | [] => rfl
  | x :: l => by
    rw [List.mapM_cons, Chk.val_bind, Chk.val_bind, Chk.val_pure, val_mapM f l]
    rfl

/-- The flag of a block over a list is up if it is at every element. -/
theorem ok_mapM_iff {α β : Type} {f : α → Chk β} :
    ∀ {l : List α}, (l.mapM f).ok = true ↔ ∀ x ∈ l, (f x).ok = true
  | [] => by simp
  | x :: l => by
    rw [List.mapM_cons, Chk.ok_bind, Chk.ok_bind, Chk.ok_pure, Bool.and_true, Bool.and_eq_true,
      ok_mapM_iff, List.forall_mem_cons]

/-- An entry of a table has what all its entries and the default have. -/
theorem forall_getD {α : Type} {P : α → Prop} {l : List α} {d : α} (hd : P d)
    (h : ∀ x ∈ l, P x) (i : ℕ) : P (l.getD i d) := by
  rcases Nat.lt_or_ge i l.length with hi | hi
  · rw [List.getD_eq_getElem l d hi]
    exact h _ (List.getElem_mem hi)
  · rwa [List.getD_eq_default l d hi]

end FixedPoint
