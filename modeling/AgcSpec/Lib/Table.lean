/-
# Tables in one array

A table of rows of `w` cells lies in an array row by row: the cell `j` of the
row `i` is at `cell w i j`. The places of the cells are different and fill the
array. A loop that writes to an array, one place for each value of its
variable, leaves at each place what it has written there (`getElem?_fill`); a
loop that also reads the array has `Written` as its invariant. Two nested loops
are one (`foldl_grid`, `foldlM_flatMap`). A loop that counts down
to 0 has an invariant for each number of turns that are left (`countDown_rule`).

Key definitions: `cell`, `fill`, `Written`, `countDown`.
Key theorems: `cell_lt`, `cell_inj`, `cell_div_mod`, `getElem?_fill`, `Written.set`,
`foldl_grid`, `foldlM_flatMap`, `countDown_rule`.
-/
import Mathlib.Data.List.ProdSigma

namespace Tables

variable {α ι κ : Type}

/-! ### Places -/

/-- The place of the cell `j` of the row `i`. -/
def cell (w i j : ℕ) : ℕ := i * w + j

theorem cell_lt {w n i j : ℕ} (hi : i < n) (hj : j < w) : cell w i j < n * w :=
  calc i * w + j < (i + 1) * w := by rw [Nat.succ_mul]; omega
    _ ≤ n * w := Nat.mul_le_mul_right w hi

theorem cell_div {w i j : ℕ} (hj : j < w) : cell w i j / w = i := by
  rw [cell, Nat.mul_comm, Nat.mul_add_div (Nat.zero_lt_of_lt hj), Nat.div_eq_of_lt hj, Nat.add_zero]

theorem cell_mod {w i j : ℕ} (hj : j < w) : cell w i j % w = j := by
  rw [cell, Nat.mul_comm, Nat.mul_add_mod, Nat.mod_eq_of_lt hj]

theorem cell_inj {w i j i' j' : ℕ} (hj : j < w) (hj' : j' < w) (h : cell w i j = cell w i' j') :
    i = i' ∧ j = j' := by
  constructor
  · rw [← cell_div (i := i) hj, h, cell_div hj']
  · rw [← cell_mod (i := i) hj, h, cell_mod hj']

theorem cell_div_mod (w c : ℕ) : cell w (c / w) (c % w) = c := Nat.div_add_mod' c w

theorem row_lt {w n c : ℕ} (h : c < n * w) : c / w < n :=
  Nat.div_lt_of_lt_mul (by rwa [Nat.mul_comm])

theorem column_lt {w n c : ℕ} (h : c < n * w) : c % w < w :=
  Nat.mod_lt c (Nat.pos_of_ne_zero fun h0 => by simp [h0] at h)

/-! ### Loops that write -/

/-- For each `i` of the list, in order, `val i` is written at the place `key i`. -/
def fill (key : ι → ℕ) (val : ι → α) (is : List ι) (xs : List α) : List α :=
  is.foldl (fun xs i => xs.set (key i) (val i)) xs

variable {key : ι → ℕ} {val : ι → α}

@[simp] theorem length_fill (is : List ι) (xs : List α) :
    (fill key val is xs).length = xs.length := by
  induction is generalizing xs with
  | nil => rfl
  | cons i is ih => exact (ih _).trans List.length_set

theorem getElem?_fill_of_ne {is : List ι} {c : ℕ} (h : ∀ i ∈ is, key i ≠ c)
    (xs : List α) : (fill key val is xs)[c]? = xs[c]? := by
  induction is generalizing xs with
  | nil => rfl
  | cons i is ih =>
    have hrest := ih (fun j hj => h j (List.mem_cons_of_mem i hj)) (xs.set (key i) (val i))
    exact hrest.trans (List.getElem?_set_ne (h i List.mem_cons_self))

/-- With different places, each has its own value at the end. -/
theorem getElem?_fill {is : List ι} (hinj : ∀ i ∈ is, ∀ j ∈ is, key i = key j → i = j)
    {i : ι} (hi : i ∈ is)
    {xs : List α} (hlt : key i < xs.length) : (fill key val is xs)[key i]? = some (val i) := by
  induction is generalizing xs with
  | nil => cases hi
  | cons j is ih =>
    change (fill key val is (xs.set (key j) (val j)))[key i]? = _
    by_cases hmem : i ∈ is
    · exact ih (fun a ha b hb => hinj a (List.mem_cons_of_mem j ha) b (List.mem_cons_of_mem j hb))
        hmem
        (by rwa [List.length_set])
    · obtain rfl : i = j := (List.mem_cons.mp hi).resolve_right hmem
      have hne : ∀ a ∈ is, key a ≠ key i := by
        intro a ha h
        exact hmem (hinj a (List.mem_cons_of_mem i ha) i hi h ▸ ha)
      rw [getElem?_fill_of_ne hne, List.getElem?_set_self hlt]

/-- The values of the variable that are done have been written, each at its
place, and nothing else. -/
structure Written (key : ι → ℕ) (val : ι → α) (done : ι → Prop) (xs ys : List α) :
    Prop where
  length : ys.length = xs.length
  written : ∀ i, done i → ys[key i]? = some (val i)
  kept : ∀ c, (∀ i, done i → key i ≠ c) → ys[c]? = xs[c]?

variable {done done' : ι → Prop} {xs ys : List α}

theorem Written.start (h : ∀ i, ¬ done i) : Written key val done xs xs :=
  ⟨rfl, fun i hi => absurd hi (h i), fun _ _ => rfl⟩

theorem Written.congr (h : Written key val done xs ys) (hdone : ∀ i, done' i ↔ done i) :
    Written key val done' xs ys :=
  ⟨h.length, fun i hi => h.written i ((hdone i).mp hi), fun c hc => h.kept c fun i hi =>
    hc i ((hdone i).mpr hi)⟩

/-- One more write. It may be at a place that has its value already. -/
theorem Written.set (h : Written key val done xs ys) {i : ι} (hlt : key i < xs.length)
    (hsame : ∀ j, done j → key j = key i → val j = val i)
    (hdone : ∀ j, done' j ↔ done j ∨ j = i) :
    Written key val done' xs (ys.set (key i) (val i)) := by
  have hset : (ys.set (key i) (val i))[key i]? = some (val i) :=
    List.getElem?_set_self (h.length ▸ hlt)
  refine ⟨List.length_set.trans h.length, fun j hj => ?_, fun c hc => ?_⟩
  · by_cases hkey : key j = key i
    · rcases (hdone j).mp hj with hj | rfl
      · rw [hkey, hset, hsame j hj hkey]
      · exact hset
    · rcases (hdone j).mp hj with hj | rfl
      · rw [List.getElem?_set_ne (Ne.symm hkey), h.written j hj]
      · exact absurd rfl hkey
  · rw [List.getElem?_set_ne (hc i ((hdone i).mpr (.inr rfl)))]
    exact h.kept c fun j hj => hc j ((hdone j).mpr (.inl hj))

/-- What is read at a place: its old value, if all that has been written there
is this value. -/
theorem Written.read (h : Written key val done xs ys) {c : ℕ} {x : α} (hx : xs[c]? = some x)
    (hsame : ∀ i, done i → key i = c → val i = x) : ys[c]? = some x := by
  by_cases hc : ∃ i, done i ∧ key i = c
  · obtain ⟨i, hi, rfl⟩ := hc
    rw [h.written i hi, hsame i hi rfl]
  · rw [h.kept c fun i hi hkey => hc ⟨i, hi, hkey⟩, hx]

theorem foldl_grid {σ : Type} (f : σ → ι × κ → σ) (is : List ι) (js : List κ) (s : σ) :
    is.foldl (fun s i => js.foldl (fun s j => f s (i, j)) s) s = (is ×ˢ js).foldl f s := by
  rw [SProd.sprod, List.instSProd]
  simp only [List.product, List.foldl_flatMap, List.foldl_map]

/-- Nested loops that can fail are one loop over all that the inner ones run over. -/
theorem foldlM_flatMap {m : Type → Type} [Monad m] [LawfulMonad m] {σ : Type}
    (f : ι → List κ) (g : σ → κ → m σ) (is : List ι) (s : σ) :
    (is.flatMap f).foldlM g s = is.foldlM (fun s i => (f i).foldlM g s) s := by
  induction is generalizing s with
  | nil => rfl
  | cons i is ih =>
    rw [List.flatMap_cons, List.foldlM_append, List.foldlM_cons]
    simp only [ih]

/-! ### Loops that count down -/

section CountDown

variable {m : Type → Type} [Monad m] {σ : Type} {f : ℕ → σ → m σ}

/-- `for (i = n - 1; i >= 0; --i)`. -/
def countDown (f : ℕ → σ → m σ) : ℕ → σ → m σ
  | 0, s => pure s
  | n + 1, s => f n s >>= countDown f n

/-- A loop whose turns are pure, each from the invariant of the turns left before
it to that of the turns left after it. -/
theorem countDown_rule [LawfulMonad m] {I : ℕ → σ → Prop} {n : ℕ} {s : σ} (h : I n s)
    (hstep : ∀ i < n, ∀ s, I (i + 1) s → ∃ t, f i s = pure t ∧ I i t) :
    ∃ t, countDown f n s = pure t ∧ I 0 t := by
  induction n generalizing s with
  | zero => exact ⟨s, rfl, h⟩
  | succ n ih =>
    obtain ⟨t, ht, hI⟩ := hstep n (Nat.lt_succ_self n) s h
    obtain ⟨u, hu, hend⟩ := ih hI fun i hi => hstep i (Nat.lt_succ_of_lt hi)
    exact ⟨u, by rw [countDown, ht, pure_bind, hu], hend⟩

end CountDown

end Tables
