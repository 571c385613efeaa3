/-
# The bank of three bands

`ThreeBandFilterBank` of `three_band_filter_bank.cc`. `Analysis` splits a block
into three bands of a third of its rate, `Synthesis` puts three bands together.
Both work on the twelve phases of one prototype of 48 coefficients: a phase is a
sparse filter (`SparseFir`), the cosines that shift the prototype to the bands
have a period of twelve samples, so in each phase they are one factor.

The arithmetic is that of a field, so rounding is left out; the cosines are a
parameter. The two buffers are written before they are read in every call, of
them only the size is kept.

* `bank_analysis_exact`: over any sequence of blocks, sample `m` of band `b` is
  the sum over `n < 48` of `h(n) * 2 cos(2π n (2b+1) / 12) * x(3m + 2 - n)`: the
  modulated prototype over the whole input, of which every third sample is kept.
* `bank_synthesis_exact`: sample `t` of the output is three times the sum over the
  bands and over `n < 48` of `h(n) * 2 cos(2π n (2b+1) / 12)` with sample `t - n`
  of the band, spread out with two zeros after each sample.
-/
import AgcSpec.SparseFir
import AgcSpec.Lib.Table
import Mathlib

namespace AgcSpec

open Streams Sliding Tables

/-! ### The source -/

/-- `kNumBands` and `kSparsity`. -/
def kNumBands : ℕ := 3
def kSparsity : ℕ := 4

/-- The index of a phase. -/
abbrev Phase : Type := Fin 12

/-- `kLowpassCoeffs`: the prototype, phase by phase. -/
def kLowpassCoeffs : Phase → List ℚ := ![
  [-0.00047749, -0.00496888, 0.16547118, 0.00425496],
  [-0.00173287, -0.01585778, 0.14989004, 0.00994113],
  [-0.00304815, -0.02536082, 0.12154542, 0.01157993],
  [-0.00383509, -0.02982767, 0.08543175, 0.00983212],
  [-0.00346946, -0.02587886, 0.04760441, 0.00607594],
  [-0.00154717, -0.01136076, 0.01387458, 0.00186353],
  [0.00186353, 0.01387458, -0.01136076, -0.00154717],
  [0.00607594, 0.04760441, -0.02587886, -0.00346946],
  [0.00983212, 0.08543175, -0.02982767, -0.00383509],
  [0.01157993, 0.12154542, -0.02536082, -0.00304815],
  [0.00994113, 0.14989004, -0.01585778, -0.00173287],
  [0.00425496, 0.16547118, -0.00496888, -0.00047749]]

theorem length_kLowpassCoeffs : ∀ r, (kLowpassCoeffs r).length = 4 := by decide

/-- `ThreeBandFilterBank`; `split_length` is the size of the two buffers. -/
structure ThreeBandFilterBank (K : Type) where
  split_length : ℕ
  analysis_filters_ : Phase → SparseFIRFilter K
  synthesis_filters_ : Phase → SparseFIRFilter K
  dct_modulation_ : Phase → Fin 3 → K

namespace ThreeBandFilterBank

variable {K : Type} [Field K]

/-- A filter of the constructor. -/
def phaseFilter (r : Phase) : SparseFIRFilter K :=
  .new ((kLowpassCoeffs r).map (↑)) kSparsity (r / kNumBands)
    (by rw [List.length_map, length_kLowpassCoeffs]; decide)
    (by decide)

/-- The constructor; `cosine i` is `cos(2 π i / 12)`. A length that is not a
multiple of three is fatal. -/
def new (cosine : ℕ → K) (length : ℕ) : Option (ThreeBandFilterBank K) :=
  if length % kNumBands ≠ 0 then none
  else some {
    split_length := length / kNumBands
    analysis_filters_ := phaseFilter
    synthesis_filters_ := phaseFilter
    dct_modulation_ := fun i j => 2 * cosine (i * (2 * j + 1)) }

/-- The index `i + j * kNumBands`. -/
def offset (i : Fin 3) (j : Fin 4) : Phase := ⟨i + j * 3, by omega⟩

/-- `Downsample`. -/
def downsample (inp : List K) (split_length offset : ℕ) : List K :=
  (List.range split_length).map fun i => inp.getD (kNumBands * i + offset) 0

/-- `Upsample`. -/
def upsample (inp : List K) (split_length offset : ℕ) (out : List K) : List K :=
  (List.range split_length).foldl (fun out i => out.modify (kNumBands * i + offset)
    (· + kNumBands * inp.getD i 0)) out

/-- A band with `c` times a signal added to it. -/
def accumulate (c : K) (inp out : List K) : List K := List.zipWith (fun o x => o + c * x) out inp

/-- `DownModulate`: every band gets its part of the signal. -/
def downModulate (dct : Fin 3 → K) (inp : List K) (out : Fin 3 → List K) : Fin 3 → List K :=
  fun i => accumulate (dct i) inp (out i)

/-- `UpModulate`: the parts of the bands. -/
def upModulate (dct : Fin 3 → K) (inp : Fin 3 → List K) (split_length : ℕ) : List K :=
  (List.finRange 3).foldl (fun out i => accumulate (dct i) (inp i) out)
    (List.replicate split_length 0)

/-- The loops of `Analysis`, on a block of three times `split_length` samples. -/
def analysisLoop (dct : Phase → Fin 3 → K) (split_length : ℕ)
    (filters : Phase → SparseFIRFilter K) (inp : List K) :
    (Phase → SparseFIRFilter K) × (Fin 3 → List K) :=
  (List.finRange 3).foldl (fun p i =>
    let in_buffer := downsample inp split_length (kNumBands - i.val - 1)
    (List.finRange 4).foldl (fun p j =>
      let y := SparseFIRFilter.filter (p.1 (offset i j)) in_buffer
      (Function.update p.1 (offset i j) y.2, downModulate (dct (offset i j)) y.1 p.2)) p)
    (filters, fun _ => List.replicate split_length 0)

/-- `Analysis`; a block of another size is fatal. -/
def analysis (bank : ThreeBandFilterBank K) (inp : List K) :
    Option ((Fin 3 → List K) × ThreeBandFilterBank K) :=
  if inp.length % kNumBands ≠ 0 ∨ bank.split_length ≠ inp.length / kNumBands then none
  else
    let r := analysisLoop bank.dct_modulation_ bank.split_length bank.analysis_filters_ inp
    some (r.2, { bank with analysis_filters_ := r.1 })

/-- The loops of `Synthesis`. -/
def synthesisLoop (dct : Phase → Fin 3 → K) (split_length : ℕ)
    (filters : Phase → SparseFIRFilter K)
    (inp : Fin 3 → List K) : (Phase → SparseFIRFilter K) × List K :=
  (List.finRange 3).foldl (fun p i =>
    (List.finRange 4).foldl (fun p j =>
      let y := SparseFIRFilter.filter (p.1 (offset i j))
        (upModulate (dct (offset i j)) inp split_length)
      (Function.update p.1 (offset i j) y.2, upsample y.1 split_length i p.2)) p)
    (filters, List.replicate (kNumBands * split_length) 0)

/-- `Synthesis`, on three bands of `split_length` samples; another number is
fatal. -/
def synthesis (bank : ThreeBandFilterBank K) (inp : Fin 3 → List K) (split_length : ℕ) :
    Option (List K × ThreeBandFilterBank K) :=
  if bank.split_length ≠ split_length then none
  else
    let r := synthesisLoop bank.dct_modulation_ bank.split_length bank.synthesis_filters_ inp
    some (r.2, { bank with synthesis_filters_ := r.1 })

/-! ### The phases in the order of the loops -/

/-- The phases, in the order in which the loops visit them. -/
def phases : List Phase := (List.finRange 3 ×ˢ List.finRange 4).map fun p => offset p.1 p.2

/-- Every phase is visited once. -/
theorem phases_perm : phases.Perm (List.finRange 12) := by decide

theorem phases_nodup : phases.Nodup := by decide

theorem mem_phases (r : Phase) : r ∈ phases := phases_perm.mem_iff.mpr (List.mem_finRange r)

theorem offset_mod (i : Fin 3) (j : Fin 4) : (offset i j).val % 3 = i := by
  unfold offset
  dsimp only
  omega

theorem foldl_phases {σ : Type} (g : σ → Phase → σ) (s : σ) :
    (List.finRange 3).foldl (fun s i => (List.finRange 4).foldl (fun s j => g s (offset i j)) s) s =
      phases.foldl g s := by
  rw [foldl_grid (fun s p => g s (offset p.1 p.2)), phases, List.foldl_map]

theorem sum_phases (g : Phase → K) : (phases.map g).sum = ∑ r, g r := by
  rw [Fin.sum_univ_def]
  exact (phases_perm.map g).sum_eq

/-! ### Accumulation -/

section Accumulate

variable {ι : Type} {c : ι → K} {y y' : ι → List K} {n : ℕ}

theorem length_accumulate (c : K) {inp out : List K} (hinp : inp.length = n)
    (hout : out.length = n) : (accumulate c inp out).length = n := by
  rw [accumulate, List.length_zipWith, hout, hinp, min_self]

theorem length_foldl_accumulate (hy : ∀ r, (y r).length = n) (rs : List ι) :
    ∀ o : List K, o.length = n →
    (rs.foldl (fun o r => accumulate (c r) (y r) o) o).length = n := by
  induction rs with
  | nil => exact fun _ ho => ho
  | cons r rs ih => exact fun o ho => ih _ (length_accumulate (c r) (hy r) ho)

theorem getD_accumulate (hy : ∀ r, (y r).length = n) {m : ℕ} (hm : m < n) (rs : List ι) :
    ∀ o : List K, o.length = n → (rs.foldl (fun o r => accumulate (c r) (y r) o) o).getD m 0 =
      o.getD m 0 + (rs.map fun r => c r * (y r).getD m 0).sum := by
  induction rs with
  | nil => simp
  | cons r rs ih =>
    intro o ho
    have hlen := length_accumulate (c r) (hy r) ho
    have hat : (accumulate (c r) (y r) o).getD m 0 = o.getD m 0 + c r * (y r).getD m 0 := by
      have hm' := hy r
      rw [accumulate, List.getD_eq_getElem _ _ (by rw [List.length_zipWith]; omega),
        List.getElem_zipWith, List.getD_eq_getElem o 0 (by omega),
        List.getD_eq_getElem (y r) 0 (by omega)]
    rw [List.foldl_cons, ih _ hlen, hat, List.map_cons, List.sum_cons, add_assoc]

theorem accumulate_append (hy : ∀ r, (y r).length = n) (rs : List ι) :
    ∀ o o' : List K, o.length = n → rs.foldl (fun o r => accumulate (c r) (y r ++ y' r) o)
      (o ++ o') =
      rs.foldl (fun o r => accumulate (c r) (y r) o) o ++
        rs.foldl (fun o r => accumulate (c r) (y' r) o) o' := by
  induction rs with
  | nil => exact fun _ _ _ => rfl
  | cons r rs ih =>
    intro o o' ho
    have hsplit : accumulate (c r) (y r ++ y' r) (o ++ o') =
        accumulate (c r) (y r) o ++ accumulate (c r) (y' r) o' :=
      List.zipWith_append (by rw [ho, hy])
    rw [List.foldl_cons, List.foldl_cons, List.foldl_cons, hsplit,
      ih _ _ (length_accumulate (c r) (hy r) ho)]

end Accumulate

theorem length_filter (f : SparseFIRFilter K) (inp : List K) :
    (SparseFIRFilter.filter f inp).1.length = inp.length := by
  simp [SparseFIRFilter.filter]

theorem length_downsample (inp : List K) (n off : ℕ) : (downsample inp n off).length = n := by
  simp [downsample]

theorem downsample_append {xs ys : List K} {n n' off : ℕ} (hxs : xs.length = kNumBands * n)
    (hoff : off < kNumBands) :
    downsample (xs ++ ys) (n + n') off = downsample xs n off ++ downsample ys n' off := by
  unfold kNumBands at *
  simp only [downsample, List.range_add, List.map_append, List.map_map]
  refine congrArg₂ (· ++ ·) (List.map_congr_left fun i hi => ?_)
    (List.map_congr_left fun i _ => ?_)
  · have := List.mem_range.mp hi
    rw [List.getD_append _ _ _ _ (by unfold kNumBands; omega)]
  · rw [Function.comp_apply, List.getD_append_right _ _ _ _ (by unfold kNumBands; omega)]
    congr 1
    unfold kNumBands
    omega

/-! ### The prototype -/

/-- Coefficient `n` of the prototype. -/
def prototype (n : ℕ) : ℚ := (kLowpassCoeffs (Fin.ofNat 12 n)).getD (n / 12) 0

theorem taps_eq_sum (x : ℕ → K) (sparsity off : ℕ) : ∀ (cs : List K) (j : ℕ) (out : K),
    SparseFIRFilter.taps x sparsity off j cs out =
      out + ∑ q ∈ Finset.range cs.length, x ((j + q) * sparsity + off) * cs.getD q 0
  | [], _, _ => by simp [SparseFIRFilter.taps]
  | c :: cs, j, out => by
    rw [SparseFIRFilter.taps, taps_eq_sum x sparsity off cs, List.length_cons,
      Finset.sum_range_succ']
    simp only [List.getD_cons_succ, List.getD_cons_zero, add_zero, add_assoc, add_comm 1]
    rw [add_comm (x _ * c)]

theorem sum_prototype (F : ℕ → K) :
    ∑ n ∈ Finset.range 48, F n = ∑ r : Phase, ∑ q ∈ Finset.range 4, F (12 * q + r) := by
  have hfin : ∀ r : ℕ → K, ∑ i : Phase, r i = ∑ i ∈ Finset.range 12, r i :=
    fun r => (Finset.sum_range r).symm
  rw [hfin fun r => ∑ q ∈ Finset.range 4, F (12 * q + r), Finset.sum_comm,
    ← Finset.sum_product']
  refine Finset.sum_nbij' (fun n => (n / 12, n % 12)) (fun p => 12 * p.1 + p.2) ?_ ?_ ?_ ?_ ?_
  · intro n hn
    simp only [Finset.mem_product, Finset.mem_range] at hn ⊢
    omega
  · intro p hp
    simp only [Finset.mem_product, Finset.mem_range] at hp ⊢
    omega
  · intro n _
    exact Nat.div_add_mod n 12
  · intro p hp
    simp only [Finset.mem_product, Finset.mem_range] at hp
    refine Prod.ext ?_ ?_
    · dsimp only
      omega
    · dsimp only
      omega
  · intro n _
    rw [Nat.div_add_mod n 12]

/-- The coefficients of a phase are every twelfth of the prototype. -/
theorem prototype_phase (r : Phase) (q : ℕ) :
    prototype (12 * q + r) = (kLowpassCoeffs r).getD q 0 := by
  have hr : Fin.ofNat 12 (12 * q + r) = r := by
    apply Fin.ext
    rw [Fin.val_ofNat, Nat.mul_add_mod, Nat.mod_eq_of_lt r.isLt]
  have hq : (12 * q + r.val) / 12 = q := by omega
  rw [prototype, hr, hq]

/-- What the filter of a phase gives from the start, as its part of the
prototype. -/
theorem phaseFilter_getD (r : Phase) {u : List K} {m : ℕ} (hm : m < u.length) :
    (SparseFIRFilter.filter (phaseFilter r) u).1.getD m 0 =
      ∑ q ∈ Finset.range 4, delayed 0 u m (4 * q + r / 3) * (prototype (12 * q + r) : K) := by
  rw [List.getD_eq_getElem?_getD, phaseFilter, SparseFIRFilter.filter_new_getElem? _ _ _ _ _ hm,
    Option.getD_some, taps_eq_sum, zero_add, List.length_map, length_kLowpassCoeffs]
  refine Finset.sum_congr rfl fun q hq => ?_
  have hq' : q < (kLowpassCoeffs r).length := by
    rw [length_kLowpassCoeffs]
    exact Finset.mem_range.mp hq
  rw [prototype_phase, List.getD_eq_getElem _ _ (by rwa [List.length_map]), List.getElem_map,
    List.getD_eq_getElem _ _ hq']
  unfold kSparsity kNumBands
  congr 2
  omega

/-! ### The analysis of a sequence of blocks -/

section Analysis

variable (dct : Phase → Fin 3 → K)

/-- What the filter of a phase gives for a block. -/
def phaseOut (filters : Phase → SparseFIRFilter K) (n : ℕ) (inp : List K) (r : Phase) :
    List K × SparseFIRFilter K :=
  SparseFIRFilter.filter (filters r) (downsample inp n (kNumBands - r.val % 3 - 1))

theorem length_phaseOut (filters : Phase → SparseFIRFilter K) (n : ℕ) (inp : List K)
    (r : Phase) : (phaseOut filters n inp r).1.length = n := by
  rw [phaseOut, length_filter, length_downsample]

theorem foldl_downModulate (y : Phase → List K) (b : Fin 3) (rs : List Phase) :
    ∀ out : Fin 3 → List K, rs.foldl (fun out r => downModulate (dct r) (y r) out) out b =
      rs.foldl (fun o r => accumulate (dct r b) (y r) o) (out b) := by
  induction rs with
  | nil => exact fun _ => rfl
  | cons r rs ih =>
    intro out
    rw [List.foldl_cons, ih]
    rfl

/-- The loops call the filter of every phase once, and add up what they give. -/
theorem analysisLoop_eq (n : ℕ) (filters : Phase → SparseFIRFilter K) (inp : List K) :
    (analysisLoop dct n filters inp).1 = (fun r => (phaseOut filters n inp r).2) ∧
      ∀ b, (analysisLoop dct n filters inp).2 b =
        phases.foldl (fun o r => accumulate (dct r b) (phaseOut filters n inp r).1 o)
          (List.replicate n 0) := by
  have hloop : analysisLoop dct n filters inp = phases.foldl (fun p r =>
      (Function.update p.1 r
        (SparseFIRFilter.filter (p.1 r) (downsample inp n (kNumBands - r.val % 3 - 1))).2,
        downModulate (dct r)
          (SparseFIRFilter.filter (p.1 r) (downsample inp n (kNumBands - r.val % 3 - 1))).1 p.2))
      (filters, fun _ => List.replicate n 0) := by
    rw [← foldl_phases]
    simp only [offset_mod]
    rfl
  have hbank := foldl_bank
    (fun r f => SparseFIRFilter.filter f (downsample inp n (kNumBands - r.val % 3 - 1)))
    (fun out r y => downModulate (dct r) y out) phases phases_nodup filters
      (fun _ => List.replicate n 0)
  rw [hloop, hbank]
  refine ⟨funext fun r => if_pos (mem_phases r), fun b => ?_⟩
  exact foldl_downModulate dct (fun r => (phaseOut filters n inp r).1) b phases _

theorem length_band (n : ℕ) (filters : Phase → SparseFIRFilter K) (inp : List K) (b : Fin 3) :
    ((analysisLoop dct n filters inp).2 b).length = n := by
  rw [(analysisLoop_eq dct n filters inp).2]
  exact length_foldl_accumulate (length_phaseOut filters n inp) phases _ List.length_replicate

theorem analysisLoop_append (filters : Phase → SparseFIRFilter K) {xs ys : List K} {n n' : ℕ}
    (hxs : xs.length = kNumBands * n) :
    (analysisLoop dct (n + n') filters (xs ++ ys)).1 =
        (analysisLoop dct n' (analysisLoop dct n filters xs).1 ys).1 ∧
      ∀ b, (analysisLoop dct (n + n') filters (xs ++ ys)).2 b =
        (analysisLoop dct n filters xs).2 b ++
          (analysisLoop dct n' (analysisLoop dct n filters xs).1 ys).2 b := by
  obtain ⟨hfs, hband⟩ := analysisLoop_eq dct n filters xs
  have hcut : ∀ r, phaseOut filters (n + n') (xs ++ ys) r =
      ((phaseOut filters n xs r).1 ++ (phaseOut (analysisLoop dct n filters xs).1 n' ys r).1,
        (phaseOut (analysisLoop dct n filters xs).1 n' ys r).2) := by
    intro r
    have hoff : kNumBands - r.val % 3 - 1 < kNumBands := by
      unfold kNumBands
      omega
    rw [hfs, phaseOut, downsample_append hxs hoff]
    exact SparseFIRFilter.chunks_filter _ _ _ (one_dvd _) (one_dvd _)
  refine ⟨?_, fun b => ?_⟩
  · rw [(analysisLoop_eq dct (n + n') filters (xs ++ ys)).1, (analysisLoop_eq dct n' _ ys).1]
    exact funext fun r => by rw [hcut]
  · rw [(analysisLoop_eq dct (n + n') filters (xs ++ ys)).2, hband,
      (analysisLoop_eq dct n' _ ys).2, ← accumulate_append (length_phaseOut filters n xs) phases
        _ _ List.length_replicate, List.replicate_append_replicate]
    simp only [hcut]

/-- `Analysis` on one block after the other. -/
def analysisAll (bank : ThreeBandFilterBank K) : List (List K) → Option (List (Fin 3 → List K))
  | [] => some []
  | block :: blocks =>
    match bank.analysis block with
    | none => none
    | some r => (analysisAll r.2 blocks).map (r.1 :: ·)

/-- Blocks of the right size are split as if they were one. -/
theorem analysisAll_eq (blocks : List (List K)) : ∀ bank : ThreeBandFilterBank K,
    (∀ block ∈ blocks, block.length = kNumBands * bank.split_length) →
    ∃ outs, bank.analysisAll blocks = some outs ∧
      blocks.flatten.length = kNumBands * (bank.split_length * blocks.length) ∧ ∀ b,
        (outs.map (· b)).flatten =
        (analysisLoop bank.dct_modulation_ (bank.split_length * blocks.length)
          bank.analysis_filters_ blocks.flatten).2 b := by
  induction blocks with
  | nil =>
    intro bank _
    exact ⟨[], rfl, rfl, fun b => (List.eq_nil_of_length_eq_zero (length_band _ _ _ _ b)).symm⟩
  | cons block blocks ih =>
    intro bank hlen
    have hblock := hlen block List.mem_cons_self
    have hcall : bank.analysis block = some _ := if_neg (by
      rw [hblock]
      unfold kNumBands
      omega)
    set r := analysisLoop bank.dct_modulation_ bank.split_length bank.analysis_filters_ block
      with hr
    obtain ⟨outs, hall, htotal, hbands⟩ := ih { bank with analysis_filters_ := r.1 }
      fun c hc => hlen c (List.mem_cons_of_mem _ hc)
    refine ⟨r.2 :: outs, ?_, ?_, fun b => ?_⟩
    · rw [analysisAll, hcall]
      dsimp only
      rw [hall]
      rfl
    · rw [List.flatten_cons, List.length_append, hblock, htotal, List.length_cons]
      ring
    · have happ := (@analysisLoop_append K _ bank.dct_modulation_ bank.analysis_filters_ block
        blocks.flatten bank.split_length (bank.split_length * blocks.length) hblock).2 b
      rw [List.map_cons, List.flatten_cons, hbands, List.flatten_cons, List.length_cons,
        show bank.split_length * (blocks.length + 1) =
          bank.split_length + bank.split_length * blocks.length by ring, happ]

/-- The phase that starts `i` before the last of three samples sees every third
sample of the input, from that one on. -/
theorem delayed_downsample (x : List K) {n m : ℕ} (hm : m < n) (r : Phase) (q : ℕ) :
    delayed 0 (downsample x n (kNumBands - r.val % 3 - 1)) m (4 * q + r / 3) =
      delayed 0 x (3 * m + 2) (12 * q + r) := by
  unfold delayed kNumBands
  by_cases h : 4 * q + r.val / 3 ≤ m
  · rw [if_pos h, if_pos (by omega), downsample,
      List.getD_eq_getElem _ _ (by rw [List.length_map, List.length_range]; omega),
      List.getElem_map, List.getElem_range]
    unfold kNumBands
    congr 1
    omega
  · rw [if_neg h, if_neg (by omega)]

/-- For every sequence of blocks of the length that the bank is made for, sample
`m` of a band is the modulated prototype at the samples up to `3 * m + 2` of the
input, all blocks in a row, with zeros before the first. -/
theorem bank_analysis_exact {cosine : ℕ → K} {length : ℕ} {bank : ThreeBandFilterBank K}
    (hnew : new cosine length = some bank) {blocks : List (List K)}
    (hlen : ∀ block ∈ blocks, block.length = length) :
    ∃ outs, bank.analysisAll blocks = some outs ∧ ∀ b : Fin 3,
      3 * (outs.map (· b)).flatten.length = blocks.flatten.length ∧
      ∀ m < (outs.map (· b)).flatten.length, (outs.map (· b)).flatten.getD m 0 =
        ∑ n ∈ Finset.range 48,
          prototype n * (2 * cosine (n % 12 * (2 * b + 1))) * delayed 0 blocks.flatten
            (3 * m + 2) n := by
  unfold new at hnew
  split at hnew
  · cases hnew
  rename_i hmod
  obtain rfl := Option.some.inj hnew
  have hthird : kNumBands * (length / kNumBands) = length :=
    Nat.mul_div_cancel' (Nat.dvd_of_mod_eq_zero (not_not.mp hmod))
  obtain ⟨outs, hall, htotal, hbands⟩ := analysisAll_eq blocks
    ⟨length / kNumBands, phaseFilter, phaseFilter, fun i j => 2 * cosine (i * (2 * j + 1))⟩
    fun block hb => (hlen block hb).trans hthird.symm
  refine ⟨outs, hall, fun b => ?_⟩
  rw [hbands]
  dsimp only at htotal ⊢
  generalize length / kNumBands * blocks.length = n at htotal ⊢
  rw [length_band]
  refine ⟨htotal.symm, fun m hm => ?_⟩
  rw [(analysisLoop_eq _ _ _ _).2,
    getD_accumulate (length_phaseOut _ _ _) hm phases _ List.length_replicate, sum_phases,
    List.getD_replicate _ hm, zero_add, sum_prototype]
  refine Finset.sum_congr rfl fun r _ => ?_
  rw [phaseOut, phaseFilter_getD r (by rwa [length_downsample]), Finset.mul_sum]
  refine Finset.sum_congr rfl fun q _ => ?_
  rw [delayed_downsample _ hm, Nat.mul_add_mod, Nat.mod_eq_of_lt r.isLt]
  ring

end Analysis

/-- The cosine of `i` twelfths of a turn. -/
noncomputable def turns (i : ℕ) : ℝ := Real.cos (2 * Real.pi * i / 12)

/-- A bank for blocks of six samples, with the cosines of the source: two blocks
in a row. -/
theorem bank_analysis_exact_two_blocks :
    ∃ bank : ThreeBandFilterBank ℝ, new turns 6 = some bank ∧
      ∃ outs, bank.analysisAll [[1, 2, 3, 4, 5, 6], [7, 8, 9, 10, 11, 12]] = some outs ∧
        ∀ b : Fin 3, 3 * (outs.map (· b)).flatten.length = 12 ∧
        ∀ m < (outs.map (· b)).flatten.length, (outs.map (· b)).flatten.getD m 0 =
          ∑ n ∈ Finset.range 48, prototype n * (2 * turns (n % 12 * (2 * b + 1))) *
            delayed 0 [1, 2, 3, 4, 5, 6, 7, 8, 9, 10, 11, 12] (3 * m + 2) n :=
  ⟨_, rfl, @bank_analysis_exact ℝ _ turns 6 _ rfl [[1, 2, 3, 4, 5, 6], [7, 8, 9, 10, 11, 12]]
    (by simp)⟩

/-! ### The synthesis of a sequence of blocks -/

section Synthesis

theorem length_upsample (inp : List K) (n i : ℕ) (out : List K) :
    (upsample inp n i out).length = out.length := by
  unfold upsample
  induction n with
  | zero => rfl
  | succ n ih =>
    rw [List.range_succ, List.foldl_append, List.foldl_cons, List.foldl_nil, List.length_modify, ih]

theorem getD_upsample (inp : List K) {i : ℕ} (hi : i < 3) (out : List K) {t : ℕ}
    (ht : t < out.length) : ∀ n : ℕ, (upsample inp n i out).getD t 0 =
      out.getD t 0 + if t % 3 = i ∧ t / 3 < n then 3 * inp.getD (t / 3) 0 else 0
  | 0 => by simp [upsample]
  | n + 1 => by
    have hlen : t < (upsample inp n i out).length := by rwa [length_upsample]
    have hstep : upsample inp (n + 1) i out =
        (upsample inp n i out).modify (kNumBands * n + i) (· + kNumBands * inp.getD n 0) := by
      rw [upsample, List.range_succ, List.foldl_append]
      rfl
    have ih := getD_upsample inp hi out ht n
    rw [List.getD_eq_getElem _ _ hlen] at ih
    rw [hstep, List.getD_eq_getElem _ _ (by rwa [List.length_modify]), List.getElem_modify, ih]
    unfold kNumBands
    by_cases hat : 3 * n + i = t
    · have hn : t / 3 = n := by omega
      rw [if_pos hat, if_neg (by omega), if_pos (by omega), hn, add_zero]
      norm_num
    · rw [if_neg hat]
      by_cases hthere : t % 3 = i ∧ t / 3 < n
      · rw [if_pos hthere, if_pos (by omega)]
      · rw [if_neg hthere, if_neg (by omega)]

theorem upsample_append {y y' o o' : List K} {n n' i : ℕ} (hi : i < 3) (hy : y.length = n)
    (ho : o.length = 3 * n) :
    upsample (y ++ y') (n + n') i (o ++ o') = upsample y n i o ++ upsample y' n' i o' := by
  apply List.ext_getElem
  · rw [length_upsample, List.length_append, List.length_append, length_upsample, length_upsample]
  intro t ht ht'
  have hlen : t < (o ++ o').length := by rwa [length_upsample] at ht
  rw [← List.getD_eq_getElem _ 0 ht, ← List.getD_eq_getElem _ 0 ht', getD_upsample _ hi _ hlen]
  by_cases hfirst : t < o.length
  · have hout : (upsample y n i o ++ upsample y' n' i o').getD t 0 = (upsample y n i o).getD t 0 :=
      List.getD_append _ _ _ _ (by rwa [length_upsample])
    rw [hout, getD_upsample _ hi _ hfirst, List.getD_append o o' _ _ hfirst]
    by_cases hthere : t % 3 = i ∧ t / 3 < n
    · rw [if_pos hthere, if_pos (by omega), List.getD_append _ _ _ _ (by omega)]
    · rw [if_neg hthere, if_neg (by omega)]
  · have hlast : t - o.length < o'.length := by
      rw [List.length_append] at hlen
      omega
    have hout : (upsample y n i o ++ upsample y' n' i o').getD t 0 = (upsample y' n' i o').getD
        (t - o.length) 0 := by
      rw [List.getD_append_right _ _ _ _ (by rw [length_upsample]; omega), length_upsample]
    rw [hout, getD_upsample _ hi _ hlast, List.getD_append_right o o' _ _ (by omega)]
    by_cases hthere : t % 3 = i ∧ t / 3 < n + n'
    · rw [if_pos hthere, if_pos (by omega), List.getD_append_right _ _ _ _ (by omega),
        show t / 3 - y.length = (t - o.length) / 3 by omega]
    · rw [if_neg hthere, if_neg (by omega)]

/-- What the filter of a phase gives for three bands. -/
def mergedOut (dct : Phase → Fin 3 → K) (filters : Phase → SparseFIRFilter K) (n : ℕ)
    (inp : Fin 3 → List K) (r : Phase) : List K × SparseFIRFilter K :=
  SparseFIRFilter.filter (filters r) (upModulate (dct r) inp n)

theorem length_upModulate (c : Fin 3 → K) {inp : Fin 3 → List K} {n : ℕ}
    (hinp : ∀ b, (inp b).length = n) :
    (upModulate c inp n).length = n :=
  length_foldl_accumulate hinp _ _ List.length_replicate

theorem getD_upModulate (c : Fin 3 → K) {inp : Fin 3 → List K} {n m : ℕ}
    (hinp : ∀ b, (inp b).length = n) (hm : m < n) :
    (upModulate c inp n).getD m 0 = ∑ b, c b * (inp b).getD m 0 := by
  rw [upModulate, getD_accumulate hinp hm _ _ List.length_replicate, List.getD_replicate _ hm,
    zero_add, Fin.sum_univ_def]

theorem upModulate_append (c : Fin 3 → K) {inp inp' : Fin 3 → List K} {n n' : ℕ}
    (hinp : ∀ b, (inp b).length = n) :
    upModulate c (fun b => inp b ++ inp' b) (n + n') =
      upModulate c inp n ++ upModulate c inp' n' := by
  unfold upModulate
  rw [← List.replicate_append_replicate]
  exact accumulate_append hinp _ _ _ List.length_replicate

variable (dct : Phase → Fin 3 → K)

/-- The loops call the filter of every phase once, and interleave what they give. -/
theorem synthesisLoop_eq (n : ℕ) (filters : Phase → SparseFIRFilter K)
    (inp : Fin 3 → List K) :
    synthesisLoop dct n filters inp = (fun r => (mergedOut dct filters n inp r).2,
      phases.foldl (fun out r => upsample (mergedOut dct filters n inp r).1 n (r.val % 3) out)
        (List.replicate (kNumBands * n) 0)) := by
  have hloop : synthesisLoop dct n filters inp = phases.foldl (fun p r =>
      (Function.update p.1 r (SparseFIRFilter.filter (p.1 r) (upModulate (dct r) inp n)).2,
        upsample (SparseFIRFilter.filter (p.1 r) (upModulate (dct r) inp n)).1 n (r.val % 3) p.2))
      (filters, List.replicate (kNumBands * n) 0) := by
    rw [← foldl_phases]
    simp only [offset_mod]
    rfl
  have hbank := foldl_bank (fun r f => SparseFIRFilter.filter f (upModulate (dct r) inp n))
    (fun out r y => upsample y n (r.val % 3) out) phases phases_nodup filters
      (List.replicate (kNumBands * n) 0)
  rw [hloop, hbank]
  exact Prod.ext (funext fun r => if_pos (mem_phases r)) rfl

theorem length_foldl_upsample (y : Phase → List K) (n : ℕ) (rs : List Phase) : ∀ out : List K,
    (rs.foldl (fun out r => upsample (y r) n (r.val % 3) out) out).length = out.length := by
  induction rs with
  | nil => exact fun _ => rfl
  | cons r rs ih =>
    intro out
    rw [List.foldl_cons, ih, length_upsample]

theorem getD_foldl_upsample (y : Phase → List K) (n : ℕ) {t : ℕ} (rs : List Phase) :
    ∀ out : List K, t < out.length →
      (rs.foldl (fun out r => upsample (y r) n (r.val % 3) out) out).getD t 0 = out.getD t 0 +
      (rs.map fun r => if t % 3 = r.val % 3 ∧ t / 3 < n then 3 * (y r).getD (t / 3) 0
        else 0).sum := by
  induction rs with
  | nil => simp
  | cons r rs ih =>
    intro out ht
    rw [List.foldl_cons, ih _ (by rwa [length_upsample]),
      getD_upsample _ (Nat.mod_lt _ (by decide)) _ ht, List.map_cons, List.sum_cons, add_assoc]

theorem foldl_upsample_append {y y' : Phase → List K} {n n' : ℕ} (hy : ∀ r, (y r).length = n)
    (rs : List Phase) :
    ∀ o o' : List K, o.length = 3 * n →
      rs.foldl (fun out r => upsample (y r ++ y' r) (n + n') (r.val % 3) out) (o ++ o') =
        rs.foldl (fun out r => upsample (y r) n (r.val % 3) out) o ++
          rs.foldl (fun out r => upsample (y' r) n' (r.val % 3) out) o' := by
  induction rs with
  | nil => exact fun _ _ _ => rfl
  | cons r rs ih =>
    intro o o' ho
    rw [List.foldl_cons, List.foldl_cons, List.foldl_cons,
      upsample_append (Nat.mod_lt _ (by decide)) (hy r) ho, ih _ _ (by rwa [length_upsample])]

theorem synthesisLoop_append (filters : Phase → SparseFIRFilter K) {inp inp' : Fin 3 → List K}
    {n n' : ℕ} (hinp : ∀ b, (inp b).length = n) :
    synthesisLoop dct (n + n') filters (fun b => inp b ++ inp' b) =
      ((synthesisLoop dct n' (synthesisLoop dct n filters inp).1 inp').1,
        (synthesisLoop dct n filters inp).2 ++
          (synthesisLoop dct n' (synthesisLoop dct n filters inp).1 inp').2) := by
  have hcut : ∀ r, mergedOut dct filters (n + n') (fun b => inp b ++ inp' b) r =
      ((mergedOut dct filters n inp r).1 ++
        (mergedOut dct (synthesisLoop dct n filters inp).1 n' inp' r).1,
        (mergedOut dct (synthesisLoop dct n filters inp).1 n' inp' r).2) := by
    intro r
    rw [synthesisLoop_eq dct n filters inp, mergedOut, upModulate_append (dct r) hinp]
    exact SparseFIRFilter.chunks_filter _ _ _ (one_dvd _) (one_dvd _)
  have hlen : ∀ r, (mergedOut dct filters n inp r).1.length = n := by
    intro r
    rw [mergedOut, length_filter, length_upModulate _ hinp]
  rw [synthesisLoop_eq dct (n + n'), synthesisLoop_eq dct n' _ inp']
  refine Prod.ext (funext fun r => by dsimp only; rw [hcut]) ?_
  simp only [hcut]
  have hzeros : (List.replicate (kNumBands * n) (0 : K)).length = 3 * n := List.length_replicate
  rw [Nat.mul_add, ← List.replicate_append_replicate,
    foldl_upsample_append hlen phases _ _ hzeros, synthesisLoop_eq dct n filters inp]

/-- `Synthesis` on one block of bands after the other. -/
def synthesisAll (bank : ThreeBandFilterBank K) : List (Fin 3 → List K) → Option (List (List K))
  | [] => some []
  | block :: blocks =>
    match bank.synthesis block bank.split_length with
    | none => none
    | some r => (synthesisAll r.2 blocks).map (r.1 :: ·)

/-- Blocks of the right size are merged as if they were one. -/
theorem synthesisAll_eq (blocks : List (Fin 3 → List K)) : ∀ bank : ThreeBandFilterBank K,
    (∀ block ∈ blocks, ∀ b, (block b).length = bank.split_length) →
    (∀ b, (blocks.map (· b)).flatten.length = bank.split_length * blocks.length) ∧
    ∃ outs, bank.synthesisAll blocks = some outs ∧
      outs.flatten = (synthesisLoop bank.dct_modulation_ (bank.split_length * blocks.length)
        bank.synthesis_filters_
        fun b => (blocks.map (· b)).flatten).2 := by
  induction blocks with
  | nil =>
    intro bank _
    refine ⟨fun _ => rfl, [], rfl, ?_⟩
    rw [synthesisLoop_eq]
    exact (List.eq_nil_of_length_eq_zero
      (by rw [length_foldl_upsample, List.length_replicate]; rfl)).symm
  | cons block blocks ih =>
    intro bank hlen
    have hblock := hlen block List.mem_cons_self
    have hcall : bank.synthesis block bank.split_length = some _ := if_neg (not_not.mpr rfl)
    set r := synthesisLoop bank.dct_modulation_ bank.split_length bank.synthesis_filters_ block
      with hr
    obtain ⟨htotal, outs, hall, houts⟩ := ih { bank with synthesis_filters_ := r.1 }
      fun c hc => hlen c (List.mem_cons_of_mem _ hc)
    have hsum : bank.split_length * (block :: blocks).length =
        bank.split_length + bank.split_length * blocks.length := by
      rw [List.length_cons]
      ring
    refine ⟨fun b => ?_, r.2 :: outs, ?_, ?_⟩
    · rw [List.map_cons, List.flatten_cons, List.length_append, hblock, htotal, hsum]
    · rw [synthesisAll, hcall]
      dsimp only
      rw [hall]
      rfl
    · have happ := @synthesisLoop_append K _ bank.dct_modulation_ bank.synthesis_filters_ block
        (fun b => (blocks.map (· b)).flatten) bank.split_length
          (bank.split_length * blocks.length) hblock
      rw [List.flatten_cons, houts, hsum]
      simp only [List.map_cons, List.flatten_cons]
      rw [happ]

/-- A band with two zeros after each sample. -/
def spread (ys : List K) : List K := ys.flatMap fun y => [y, 0, 0]

theorem getD_spread : ∀ (ys : List K) (t : ℕ), (spread ys).getD t 0 = if t % 3 = 0
    then ys.getD (t / 3) 0 else 0
  | [], t => by simp [spread]
  | y :: ys, 0 => by simp [spread]
  | y :: ys, 1 => by simp [spread]
  | y :: ys, 2 => by simp [spread]
  | y :: ys, t + 3 => by
    have hnext : (spread (y :: ys)).getD (t + 3) 0 = (spread ys).getD t 0 := rfl
    rw [hnext, getD_spread ys t, Nat.add_mod_right, Nat.add_div_right _ (by decide)]
    rfl

/-- In a phase, a spread band is there at every third sample. -/
theorem delayed_spread (ys : List K) (t q : ℕ) (r : Phase) :
    delayed 0 (spread ys) t (12 * q + r) =
    if t % 3 = r.val % 3 then delayed 0 ys (t / 3) (4 * q + r / 3) else 0 := by
  unfold delayed
  rw [getD_spread]
  by_cases hr : t % 3 = r.val % 3
  · rw [if_pos hr]
    by_cases h : 12 * q + r.val ≤ t
    · rw [if_pos h, if_pos (by omega), if_pos (by omega)]
      congr 1
      omega
    · rw [if_neg h, if_neg (by omega)]
  · rw [if_neg hr]
    by_cases h : 12 * q + r.val ≤ t
    · rw [if_pos h, if_neg (by omega)]
    · rw [if_neg h]

theorem delayed_upModulate (c : Fin 3 → K) {inp : Fin 3 → List K} {n m : ℕ}
    (hinp : ∀ b, (inp b).length = n) (hm : m < n)
    (lag : ℕ) : delayed 0 (upModulate c inp n) m lag = ∑ b, c b * delayed 0 (inp b) m lag := by
  unfold delayed
  by_cases h : lag ≤ m
  · simp only [if_pos h]
    exact getD_upModulate c hinp (by omega)
  · simp [if_neg h]

/-- For every sequence of blocks of three bands, sample `t` of the output is three
times the sum of the bands, spread out and run through the modulated prototype. -/
theorem bank_synthesis_exact {cosine : ℕ → K} {length : ℕ} {bank : ThreeBandFilterBank K}
    (hnew : new cosine length = some bank) {blocks : List (Fin 3 → List K)}
    (hlen : ∀ block ∈ blocks, ∀ b, 3 * (block b).length = length) :
    ∃ outs, bank.synthesisAll blocks = some outs ∧
      outs.flatten.length = length * blocks.length ∧ ∀ t < length * blocks.length,
        outs.flatten.getD t 0 = 3 * ∑ b : Fin 3, ∑ n ∈ Finset.range 48,
          prototype n * (2 * cosine (n % 12 * (2 * b + 1))) * delayed 0
            (spread (blocks.map (· b)).flatten) t n := by
  unfold new at hnew
  split at hnew
  · cases hnew
  rename_i hmod
  obtain rfl := Option.some.inj hnew
  have hthird : kNumBands * (length / kNumBands) = length :=
    Nat.mul_div_cancel' (Nat.dvd_of_mod_eq_zero (not_not.mp hmod))
  obtain ⟨htotal, outs, hall, houts⟩ := synthesisAll_eq blocks
    ⟨length / kNumBands, phaseFilter, phaseFilter, fun i j => 2 * cosine (i * (2 * j + 1))⟩
    fun block hb b => by
      have := hlen block hb b
      dsimp only [kNumBands]
      omega
  refine ⟨outs, hall, ?_⟩
  dsimp only at htotal houts
  have hsize : length * blocks.length = kNumBands * (length / kNumBands * blocks.length) := by
    rw [← Nat.mul_assoc, hthird]
  rw [houts, hsize]
  generalize length / kNumBands * blocks.length = n at htotal houts ⊢
  rw [synthesisLoop_eq]
  refine ⟨by rw [length_foldl_upsample, List.length_replicate], fun t ht => ?_⟩
  have hm : t / 3 < n := by
    unfold kNumBands at ht
    omega
  rw [getD_foldl_upsample _ _ _ _ (by rwa [List.length_replicate]), List.getD_replicate _ ht,
    zero_add, sum_phases]
  simp only [sum_prototype]
  rw [Finset.sum_comm, Finset.mul_sum]
  refine Finset.sum_congr rfl fun r _ => ?_
  simp only [delayed_spread, Nat.mul_add_mod, Nat.mod_eq_of_lt r.isLt]
  by_cases hr : t % 3 = r.val % 3
  · rw [if_pos ⟨hr, hm⟩, mergedOut, phaseFilter_getD r (by rwa [length_upModulate _ htotal]),
      Finset.sum_comm]
    refine congrArg (3 * ·) (Finset.sum_congr rfl fun q _ => ?_)
    rw [delayed_upModulate _ htotal hm, Finset.sum_mul]
    refine Finset.sum_congr rfl fun b _ => ?_
    rw [if_pos hr]
    ring
  · rw [if_neg fun h => hr h.1]
    simp [if_neg hr]

/-- Two blocks of bands of two samples, which differ from band to band. -/
theorem bank_synthesis_exact_two_blocks :
    ∃ bank : ThreeBandFilterBank ℝ, new turns 6 = some bank ∧
      ∃ outs, bank.synthesisAll [fun b => [b + 1, 2], fun b => [3, 4 * b]] = some outs ∧
        outs.flatten.length = 12 ∧ ∀ t < 12, outs.flatten.getD t 0 =
          3 * ∑ b : Fin 3, ∑ n ∈ Finset.range 48,
            prototype n * (2 * turns (n % 12 * (2 * b + 1))) *
            delayed 0 (spread [(b : ℝ) + 1, 2, 3, 4 * b]) t n :=
  ⟨_, rfl, @bank_synthesis_exact ℝ _ turns 6 _ rfl [fun b => [b + 1, 2], fun b => [3, 4 * b]]
    (by simp)⟩

end Synthesis

end ThreeBandFilterBank

end AgcSpec
