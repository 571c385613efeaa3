/-
# Little-endian numbers in byte streams

A number in `w` bytes, the least significant first (`toLE`), and the number
that bytes stand for (`ofLE`): what is read back is the number reduced to the
width (`ofLE_toLE`). A stream is the list of the bytes that are still to come;
`readBytes` takes a block off its front, a shorter one at the end of the
stream.

Key definitions: `toLE`, `ofLE`, `fieldAt`, `readBytes`.
Key theorems: `ofLE_toLE`, `fieldAt_here`, `fieldAt_skip`, `readBytes_append`,
`readBytes_cases`.
-/
import Mathlib

namespace Bytes

/-- The `w` bytes of `n`; what does not fit is dropped. -/
def toLE : ℕ → ℕ → List UInt8
  | 0, _ => []
  | w + 1, n => UInt8.ofNat n :: toLE w (n / 256)

/-- The number the bytes stand for. -/
def ofLE : List UInt8 → ℕ
  | [] => 0
  | b :: bs => b.toNat + 256 * ofLE bs

/-- The field of `w` bytes at an offset of a block. -/
def fieldAt (bs : List UInt8) (offset w : ℕ) : ℕ := ofLE ((bs.drop offset).take w)

@[simp] theorem length_toLE (w n : ℕ) : (toLE w n).length = w := by
  induction w generalizing n with
  | zero => rfl
  | succ w ih => rw [toLE, List.length_cons, ih]

theorem take_toLE {w k : ℕ} (h : w ≤ k) (n : ℕ) : (toLE w n).take k = toLE w n :=
  List.take_of_length_le (by rwa [length_toLE])

theorem drop_toLE {w k : ℕ} (h : w ≤ k) (n : ℕ) : (toLE w n).drop k = [] :=
  List.drop_eq_nil_of_le (by rwa [length_toLE])

/-- What is read back from `w` bytes is the number modulo their range. -/
theorem ofLE_toLE (w n : ℕ) : ofLE (toLE w n) = n % 256 ^ w := by
  induction w generalizing n with
  | zero => simp [toLE, ofLE, Nat.mod_one]
  | succ w ih =>
    rw [toLE, ofLE, ih, UInt8.toNat_ofNat', show n % 2 ^ 8 = n % 256 from rfl, pow_succ',
      Nat.mod_mul]

theorem fieldAt_here (w n : ℕ) (rest : List UInt8) :
    fieldAt (toLE w n ++ rest) 0 w = n % 256 ^ w := by
  rw [fieldAt, List.drop_zero, List.take_left' (length_toLE w n), ofLE_toLE]

theorem fieldAt_toLE (w n : ℕ) : fieldAt (toLE w n) 0 w = n % 256 ^ w := by
  simpa using fieldAt_here w n []

theorem fieldAt_skip {k offset : ℕ} (h : k ≤ offset) (n w : ℕ) (rest : List UInt8) :
    fieldAt (toLE k n ++ rest) offset w = fieldAt rest (offset - k) w := by
  rw [fieldAt, fieldAt, List.drop_append, drop_toLE h, length_toLE, List.nil_append]

/-! ### Streams -/

/-- A block of at most `n` bytes, and what is left of the stream. -/
def readBytes (n : ℕ) (bs : List UInt8) : List UInt8 × List UInt8 := (bs.take n, bs.drop n)

theorem readBytes_append {n : ℕ} {b : List UInt8} (h : b.length = n) (rest : List UInt8) :
    readBytes n (b ++ rest) = (b, rest) := by
  subst h
  simp [readBytes]

/-- A stream starts with a whole block, or it ends before. -/
theorem readBytes_cases (n : ℕ) (bs : List UInt8) :
    (∃ b rest, b.length = n ∧ bs = b ++ rest) ∨ (readBytes n bs).1.length ≠ n := by
  by_cases h : (bs.take n).length = n
  · exact .inl ⟨_, bs.drop n, h, (List.take_append_drop n bs).symm⟩
  · exact .inr h

end Bytes
