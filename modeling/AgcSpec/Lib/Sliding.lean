/-
# Sliding windows

A stage that sees, for each of its inputs, that input and the `L` before it. Its
state is the last `L` inputs, so that a block of inputs can be worked off as it
comes: `slide L g` puts the block behind the state and reads a window of `L + 1`
for each output. How the inputs are cut into blocks makes no difference
(`chunks_slide`), and from an empty past, which is `L` copies of one value, the
output at `t` is the function of the inputs `t, t - 1, …, t - L`
(`slide_getElem?`, `window_start`).

Key definitions: `Memory`, `keep`, `slide`.
Key theorems: `keep_append`, `chunks_slide`, `slide_getElem?`, `window_start`.
-/
import AgcSpec.Lib.Stream

namespace Sliding

open Streams

variable {α β : Type} {L : ℕ}

/-- The last `L` inputs. -/
abbrev Memory (α : Type) (L : ℕ) : Type := { s : List α // s.length = L }

/-- What is kept of a memory and the inputs after it. -/
def keep (s : Memory α L) (xs : List α) : Memory α L :=
  ⟨(s.val ++ xs).drop xs.length,
    by rw [List.length_drop, List.length_append, s.property]; omega⟩

theorem keep_append (s : Memory α L) (xs ys : List α) :
    keep s (xs ++ ys) = keep (keep s xs) ys := by
  apply Subtype.ext
  simp only [keep]
  rw [← List.drop_append_of_le_length (by rw [List.length_append]; omega), List.drop_drop,
    List.length_append, List.append_assoc]

/-- The `L` inputs before the one at `i`, and that one. -/
def window (s : Memory α L) (xs : List α) (i : ℕ) : List α :=
  ((s.val ++ xs).drop i).take (L + 1)

/-- The stage that makes an output of each window. -/
def slide (L : ℕ) (g : List α → β) : Stage (Memory α L) α β := fun s xs =>
  ((List.range xs.length).map fun i => g (window s xs i), keep s xs)

theorem window_append (s : Memory α L) {xs : List α} (ys : List α) {i : ℕ}
    (h : i < xs.length) : window s (xs ++ ys) i = window s xs i := by
  unfold window
  rw [← List.append_assoc, List.drop_append_of_le_length (by rw [List.length_append]; omega),
    List.take_append_of_le_length (by rw [List.length_drop, List.length_append, s.property]; omega)]

theorem window_keep (s : Memory α L) (xs ys : List α) (i : ℕ) :
    window (keep s xs) ys i = window s (xs ++ ys) (xs.length + i) := by
  unfold window keep
  dsimp only
  rw [← List.drop_append_of_le_length (by rw [List.length_append]; omega), List.drop_drop,
    List.append_assoc]

/-- How the inputs are cut makes no difference. -/
theorem chunks_slide (g : List α → β) : Chunks 1 (slide L g) := by
  intro s xs ys _ _
  refine Prod.ext ?_ (keep_append s xs ys)
  have hfirst : ∀ i ∈ List.range xs.length, g (window s (xs ++ ys) i) = g (window s xs i) := by
    intro i hi
    rw [window_append s ys (List.mem_range.mp hi)]
  simp only [slide, List.length_append, List.range_add, List.map_append, List.map_map]
  refine congrArg₂ (· ++ ·) (List.map_congr_left hfirst) (List.map_congr_left fun i _ => ?_)
  rw [Function.comp_apply, window_keep]

/-- The input at `t` with a past of `z` before the first. -/
def delayed (z : α) (xs : List α) (t lag : ℕ) : α :=
  if lag ≤ t then xs.getD (t - lag) z else z

theorem window_getD (s : Memory α L) (xs : List α) (i : ℕ) {lag : ℕ}
    (hlag : lag ≤ L) (z : α) :
    (window s xs i).getD (L - lag) z = (s.val ++ xs).getD (i + (L - lag)) z := by
  unfold window
  rw [List.getD_eq_getElem?_getD, List.getElem?_take_of_lt (by omega), List.getElem?_drop,
    List.getD_eq_getElem?_getD]

/-- From an empty past the window at `t` holds the inputs up to `t`. -/
theorem window_start (z : α) (xs : List α) (t : ℕ) {lag : ℕ} (hlag : lag ≤ L) :
    (window (⟨List.replicate L z, List.length_replicate⟩ : Memory α L) xs t).getD (L - lag) z =
      delayed z xs t lag := by
  rw [window_getD _ _ _ hlag]
  unfold delayed
  by_cases h : lag ≤ t
  · rw [if_pos h, List.getD_append_right _ _ _ _ (by rw [List.length_replicate]; omega),
      List.length_replicate, show t + (L - lag) - L = t - lag by omega]
  · rw [if_neg h, List.getD_append _ _ _ _ (by rw [List.length_replicate]; omega),
      List.getD_replicate _ (by omega)]

theorem slide_getElem? (g : List α → β) (s : Memory α L) {xs : List α} {t : ℕ}
    (h : t < xs.length) : (slide L g s xs).1[t]? = some (g (window s xs t)) := by
  simp [slide, h]

end Sliding
