/-
# Stages of a stream

A stage takes a list of inputs with a state and gives a list of outputs with
the next state: a filter, a resampler, a coder. Two things are asked of it:
how many outputs it gives for its inputs (`Rate p q`: `q` for every `p`), and
whether cutting its input in two makes a difference (`Chunks p`: none, if the
cut is at a multiple of `p`). Both are kept when stages are connected in
series, and a function on blocks of a fixed size has both as a stage. A bank of
stages that are called once each is `foldl_bank`.

In a program the inputs and outputs of a stage are arrays: `call` and
`blockLoop` run a stage from one array into another, with a flag for every
access (`FixedPoint.Chk`). On arrays that are long enough the flag stays
up and the outputs are those of the stage (`call_eq`, `blockLoop_eq`).

Key definitions: `Stage`, `Rate`, `Chunks`, `Stage.comp`, `blocks`, `call`, `blockLoop`.
Key theorems: `Rate.comp`, `Chunks.comp`, `chunks_blocks`, `foldl_bank`, `call_eq`,
`blockLoop_eq`.
-/
import AgcSpec.Lib.Checked

namespace Streams

open FixedPoint

variable {σ τ α β γ : Type}

/-- From a state and inputs to outputs and the next state. -/
abbrev Stage (σ α β : Type) : Type := σ → List α → List β × σ

/-- `q` outputs for every `p` inputs. -/
def Rate (p q : ℕ) (f : Stage σ α β) : Prop :=
  ∀ k s xs, xs.length = k * p → (f s xs).1.length = k * q

/-- Inputs cut at a multiple of `p` give the same outputs and the same state. -/
def Chunks (p : ℕ) (f : Stage σ α β) : Prop :=
  ∀ s xs ys, p ∣ xs.length → p ∣ ys.length →
    f s (xs ++ ys) = ((f s xs).1 ++ (f (f s xs).2 ys).1, (f (f s xs).2 ys).2)

/-! ### Stages in series -/

/-- The outputs of the first are the inputs of the second. -/
def Stage.comp (f : Stage σ α β) (g : Stage τ β γ) : Stage (σ × τ) α γ := fun s xs =>
  ((g s.2 (f s.1 xs).1).1, (f s.1 xs).2, (g s.2 (f s.1 xs).1).2)

theorem Rate.comp {p q r : ℕ} {f : Stage σ α β} {g : Stage τ β γ} (hf : Rate p q f)
    (hg : Rate q r g) :
    Rate p r (f.comp g) := fun k s xs hxs => hg k s.2 _ (hf k s.1 xs hxs)

theorem Rate.scale {p q : ℕ} {f : Stage σ α β} (hf : Rate p q f) (m : ℕ) :
    Rate (m * p) (m * q) f := by
  intro k s xs hxs
  rw [← mul_assoc] at hxs ⊢
  exact hf _ s xs hxs

theorem Chunks.of_dvd {p q : ℕ} {f : Stage σ α β} (hf : Chunks p f) (h : p ∣ q) :
    Chunks q f :=
  fun s xs ys hx hy => hf s xs ys (h.trans hx) (h.trans hy)

theorem Chunks.comp {p q : ℕ} {f : Stage σ α β} {g : Stage τ β γ} (hf : Chunks p f)
    (hr : Rate p q f) (hg : Chunks q g) : Chunks p (f.comp g) := by
  intro s xs ys hx hy
  have hout : ∀ (s : σ) (zs : List α), p ∣ zs.length → q ∣ (f s zs).1.length := by
    rintro s zs ⟨k, hk⟩
    exact ⟨k, by rw [hr k s zs (by rw [hk, mul_comm]), mul_comm]⟩
  simp only [Stage.comp, hf s.1 xs ys hx hy, hg s.2 _ _ (hout s.1 xs hx) (hout _ ys hy)]

/-! ### Blocks -/

/-- A function on blocks of `b` inputs, on the first `k` blocks. -/
def blocksN (b : ℕ) (f : Stage σ α β) : ℕ → Stage σ α β
  | 0, s, _ => ([], s)
  | k + 1, s, xs =>
    let r := f s (xs.take b)
    let q := blocksN b f k r.2 (xs.drop b)
    (r.1 ++ q.1, q.2)

/-- A function on blocks of `b` inputs, on all of them. -/
def blocks (b : ℕ) (f : Stage σ α β) : Stage σ α β :=
  fun s xs => blocksN b f (xs.length / b) s xs

theorem rate_blocksN {b q : ℕ} {f : Stage σ α β}
    (hf : ∀ s xs, xs.length = b → (f s xs).1.length = q) :
    ∀ (k : ℕ) (s : σ) (xs : List α), xs.length = k * b →
      (blocksN b f k s xs).1.length = k * q
  | 0, _, _, _ => by simp [blocksN]
  | k + 1, s, xs, hxs => by
    rw [Nat.succ_mul] at hxs
    have hhead : (xs.take b).length = b := by rw [List.length_take]; omega
    have htail : (xs.drop b).length = k * b := by rw [List.length_drop]; omega
    rw [blocksN, List.length_append, hf s _ hhead, rate_blocksN hf k _ _ htail,
      Nat.succ_mul, add_comm]

theorem rate_blocks {b q : ℕ} (hb : 0 < b) {f : Stage σ α β}
    (hf : ∀ s xs, xs.length = b → (f s xs).1.length = q) : Rate b q (blocks b f) := by
  intro k s xs hxs
  rw [blocks, hxs, Nat.mul_div_cancel k hb]
  exact rate_blocksN hf k s xs hxs

theorem blocksN_add (b : ℕ) (f : Stage σ α β) : ∀ (j k : ℕ) (s : σ) (xs ys : List α),
    xs.length = j * b → blocksN b f (j + k) s (xs ++ ys) =
      ((blocksN b f j s xs).1 ++ (blocksN b f k (blocksN b f j s xs).2 ys).1,
        (blocksN b f k (blocksN b f j s xs).2 ys).2)
  | 0, k, s, xs, ys, hxs => by
    rw [Nat.zero_mul, List.length_eq_zero_iff] at hxs
    subst hxs
    simp [blocksN]
  | j + 1, k, s, xs, ys, hxs => by
    rw [Nat.succ_mul] at hxs
    have htail : (xs.drop b).length = j * b := by rw [List.length_drop]; omega
    rw [show j + 1 + k = j + k + 1 by omega, blocksN, List.take_append_of_le_length (by omega),
      List.drop_append_of_le_length (by omega), blocksN_add b f j k _ _ ys htail]
    simp only [blocksN, List.append_assoc]

theorem chunks_blocks {b : ℕ} (hb : 0 < b) (f : Stage σ α β) : Chunks b (blocks b f) := by
  rintro s xs ys ⟨j, hj⟩ ⟨k, hk⟩
  have hcount : (xs ++ ys).length / b = j + k := by
    rw [List.length_append, hj, hk, ← mul_add, Nat.mul_div_cancel_left _ hb]
  simp only [blocks, hcount, hj, hk, Nat.mul_div_cancel_left _ hb]
  exact blocksN_add b f j k s xs ys (by rw [hj, mul_comm])

theorem blocks_one {b : ℕ} (hb : 0 < b) (f : Stage σ α β) (s : σ) {xs : List α}
    (hxs : xs.length = b) : blocks b f s xs = f s xs := by
  rw [blocks, hxs, Nat.div_self hb]
  simp [blocksN, ← hxs]

/-! ### A bank of stages -/

/-- A loop that calls each stage of a bank once, as one that only collects what
the stages give from the states they had. -/
theorem foldl_bank {ι : Type} [DecidableEq ι] (f : ι → σ → β × σ)
    (g : τ → ι → β → τ) (rs : List ι) :
    rs.Nodup → ∀ (s : ι → σ) (t : τ),
      rs.foldl (fun p r => (Function.update p.1 r (f r (p.1 r)).2, g p.2 r (f r (p.1 r)).1))
        (s, t) =
        (fun r => if r ∈ rs then (f r (s r)).2 else s r,
          rs.foldl (fun t r => g t r (f r (s r)).1) t) := by
  induction rs with
  | nil => simp
  | cons r rs ih =>
    intro hnd s t
    obtain ⟨hr, hnd⟩ := List.nodup_cons.mp hnd
    have hother : ∀ q ∈ rs, Function.update s r (f r (s r)).2 q = s q := by
      intro q hq
      have hne : q ≠ r := fun h => hr (by rwa [← h])
      exact Function.update_of_ne hne _ _
    rw [List.foldl_cons, ih hnd]
    refine Prod.ext (funext fun q => ?_) (List.foldl_ext _ _ _ fun t q hq =>
      by dsimp only; rw [hother q hq])
    dsimp only
    by_cases hq : q ∈ rs
    · rw [if_pos hq, if_pos (List.mem_cons_of_mem _ hq), hother q hq]
    by_cases hqr : q = r
    · rw [if_neg hq, hqr, if_pos List.mem_cons_self, Function.update_self]
    · rw [if_neg hq, if_neg (by simp [hq, hqr]), Function.update_of_ne hqr]

/-! ### Stages over arrays -/

/-- The `n` entries of an array from `i` on. -/
def readAt (xs : List α) (i n : ℕ) : Chk (List α) :=
  flag (i + n ≤ xs.length) ((xs.drop i).take n)

/-- Entries written to an array from `i` on. -/
def writeAt (dst : List β) (i : ℕ) (ys : List β) : Chk (List β) :=
  flag (i + ys.length ≤ dst.length) (dst.take i ++ ys ++ dst.drop (i + ys.length))

/-- `f(src, n, dst, state)`. -/
def call (f : Stage σ α β) (src : List α) (n : ℕ) (dst : List β) (s : σ) :
    Chk (List β × σ) := do
  let xs ← readAt src 0 n
  let d ← writeAt dst 0 (f s xs).1
  pure (d, (f s xs).2)

/-- `for (i = 0; i < n; i += size) f(src + i, dst + off(i), state)`. -/
def blockLoop (f : Stage σ α β) (size : ℕ) (off : ℕ → ℕ) (src : List α) (n : ℕ)
    (dst : List β) (s : σ) : Chk (List β × σ) :=
  (List.range ((n + size - 1) / size)).foldlM (fun (p : List β × σ) k => do
    let xs ← readAt src (k * size) size
    let d ← writeAt p.1 (off (k * size)) (f p.2 xs).1
    pure (d, (f p.2 xs).2)) (dst, s)

theorem readAt_eq {xs : List α} {i n : ℕ} (h : i + n ≤ xs.length) :
    readAt xs i n = pure ((xs.drop i).take n) := flag_eq h _

theorem readAt_prefix {src xs : List α} {n : ℕ} (hsrc : xs <+: src) (hn : n = xs.length) :
    readAt src 0 n = pure xs := by
  rw [readAt_eq (by rw [hn, zero_add]; exact hsrc.length_le), List.drop_zero, hn,
    ← List.prefix_iff_eq_take.mp hsrc]

theorem writeAt_append (zs ys dst : List β) {n : ℕ} (hn : n = zs.length)
    (hfit : n + ys.length ≤ dst.length) :
    writeAt (zs ++ dst.drop n) n ys = pure (zs ++ ys ++ dst.drop (n + ys.length)) := by
  subst hn
  rw [writeAt, flag_eq (by rw [List.length_append, List.length_drop]; omega), List.take_left',
    List.drop_append, List.drop_eq_nil_of_le (by omega), List.nil_append, List.drop_drop]
  · congr 3
    omega
  · rfl

theorem writeAt_single (zs : List β) (y w : β) (dst : List β) :
    writeAt (zs ++ w :: dst) zs.length [y] = pure (zs ++ y :: dst) := by
  rw [writeAt, flag_eq (by simp), List.take_left', List.length_singleton, List.drop_append,
    List.drop_eq_nil_of_le (by omega)]
  · simp
  · rfl

theorem writeAt_zero {ys dst : List β} (hfit : ys.length ≤ dst.length) :
    writeAt dst 0 ys = pure (ys ++ dst.drop ys.length) := by
  simpa using writeAt_append [] ys dst (n := 0) rfl (by rw [zero_add]; exact hfit)

theorem call_eq (f : Stage σ α β) {src xs : List α} {n : ℕ} {dst : List β} {s : σ}
    (hsrc : xs <+: src) (hn : n = xs.length) (hdst : (f s xs).1.length ≤ dst.length) :
    call f src n dst s = pure ((f s xs).1 ++ dst.drop (f s xs).1.length, (f s xs).2) := by
  rw [call, readAt_prefix hsrc hn, pure_bind, writeAt_zero hdst, pure_bind]

theorem blockRounds_eq (f : Stage σ α β) {size q : ℕ} (hsize : 0 < size)
    (hf : ∀ s xs, xs.length = size → (f s xs).1.length = q) {off : ℕ → ℕ}
    (hoff : ∀ j, off (j * size) = j * q) {src : List α} {dst : List β} (s : σ) :
    ∀ k : ℕ, k * size ≤ src.length → k * q ≤ dst.length →
      (List.range k).foldlM (fun (p : List β × σ) k => do
        let xs ← readAt src (k * size) size
        let d ← writeAt p.1 (off (k * size)) (f p.2 xs).1
        pure (d, (f p.2 xs).2)) (dst, s) =
      (pure ((blocks size f s (src.take (k * size))).1 ++ dst.drop (k * q),
        (blocks size f s (src.take (k * size))).2) : Chk (List β × σ))
  | 0, _, _ => by
    simp [blocks, blocksN]
  | k + 1, hsrc, hdst => by
    rw [Nat.succ_mul] at hsrc hdst
    have hxs : ((src.drop (k * size)).take size).length = size := by
      rw [List.length_take, List.length_drop]
      omega
    have hpre : (src.take (k * size)).length = k * size := by rw [List.length_take]; omega
    have hcut : src.take ((k + 1) * size) =
        src.take (k * size) ++ (src.drop (k * size)).take size := by
      rw [Nat.succ_mul, List.take_add]
    have hchunk := chunks_blocks hsize f s (src.take (k * size)) ((src.drop (k * size)).take size)
      (by rw [hpre]; exact dvd_mul_left _ _) (by rw [hxs])
    rw [blocks_one hsize f _ hxs] at hchunk
    have hdone := rate_blocks hsize hf k s (src.take (k * size)) hpre
    rw [List.range_succ, List.foldlM_append, blockRounds_eq f hsize hf hoff s k (by omega)
      (by omega), pure_bind, List.foldlM_cons, readAt_eq hsrc, pure_bind, hoff k,
      writeAt_append _ _ _ hdone.symm (by rw [hf _ _ hxs]; exact hdst), pure_bind, pure_bind, hcut,
      hchunk, hf _ _ hxs, List.foldlM_nil, Nat.succ_mul]

theorem blockLoop_eq (f : Stage σ α β) {size q : ℕ} (hsize : 0 < size)
    (hf : ∀ s xs, xs.length = size → (f s xs).1.length = q) {off : ℕ → ℕ}
    (hoff : ∀ j, off (j * size) = j * q) {src xs : List α} {n k : ℕ} {dst : List β} {s : σ}
    (hsrc : xs <+: src) (hn : n = xs.length) (hk : xs.length = k * size)
    (hdst : k * q ≤ dst.length) :
    blockLoop f size off src n dst s = pure ((blocks size f s xs).1 ++ dst.drop (k * q),
      (blocks size f s xs).2) := by
  have hrounds : (n + size - 1) / size = k := by
    rw [hn, hk, Nat.add_sub_assoc hsize, Nat.add_comm, Nat.add_mul_div_right _ _ hsize,
      Nat.div_eq_of_lt (by omega), zero_add]
  have htake : src.take (k * size) = xs := by rw [← hk, ← List.prefix_iff_eq_take.mp hsrc]
  have hle : k * size ≤ src.length := hk ▸ hsrc.length_le
  rw [blockLoop, hrounds, blockRounds_eq f hsize hf hoff s k hle hdst, htake]

end Streams
