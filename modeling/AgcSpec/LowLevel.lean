/-
# The low-level decision of the virtual microphone

`WebRtcAgc_VirtualMic` marks a frame as low-level from its energy and its zero
crossings. The energy stops growing once it is not below `frameNrgLimit`; "the
correct value of the energy is not important". It is, in one case. The sum is
compared with `<` where it stops and with `<=` where the frame is judged, so a
sum that stops on the limit itself passes for one that is not above it,
whatever the rest of the frame adds (`lowLevel_exact_iff`). In all other cases
the decision is that of the whole energy: below the limit the sum is the energy
(`min_stopped`), and what stops above it stays above.
-/
import AgcSpec.Calls

namespace AgcSpec
namespace LowLevel

open FixedPoint

/-! ### The two parts of the loop -/

/-- The energy of samples. -/
def energy (xs : List Int) : Int := (xs.map fun x => x * x).sum

/-- The sum that starts with `frameNrg` and stops growing at the limit. -/
def stopped (limit frameNrg : Int) : List Int → Int
  | [] => frameNrg
  | x :: xs => stopped limit (if frameNrg < limit then frameNrg + x * x else frameNrg) xs

/-- The zero crossings after the sample `prev`, on top of `numZeroCrossing`. -/
def crossingsFrom (prev numZeroCrossing : Int) : List Int → Int
  | [] => numZeroCrossing
  | x :: xs => crossingsFrom x (i16 (numZeroCrossing + if (x < 0) ≠ (prev < 0) then 1 else 0)) xs

/-- `numZeroCrossing` of a frame. -/
def crossings (band : List Int) : Int := crossingsFrom (band.headD 0) 0 band.tail

@[simp] theorem energy_nil : energy [] = 0 := rfl

@[simp] theorem energy_cons (x : Int) (xs : List Int) : energy (x :: xs) = x * x + energy xs :=
  List.sum_cons

theorem energy_nonneg (xs : List Int) : 0 ≤ energy xs := by
  apply List.sum_nonneg
  intro e he
  obtain ⟨x, -, rfl⟩ := List.mem_map.mp he
  exact mul_self_nonneg x

/-- The loop counts and adds side by side, and its 32 bits do not wrap. -/
theorem frameNrgLoop_eq {limit : Int} (hlimit : limit ≤ 2 ^ 31) (xs : List Int) :
    ∀ {prev frameNrg : Int} (numZeroCrossing : Int), 0 ≤ frameNrg →
      (∀ x ∈ xs, InI16 x) →
      frameNrgLoop limit prev frameNrg numZeroCrossing xs =
        (stopped limit frameNrg xs, crossingsFrom prev numZeroCrossing xs) := by
  induction xs with
  | nil => exact fun _ _ _ => rfl
  | cons x xs ih =>
    intro prev frameNrg n hnn hxs
    obtain ⟨hsq0, hsq1⟩ := mul_self_range (hxs x List.mem_cons_self)
    have hsquare : u32 (x * x) = x * x := u32_of ⟨hsq0, by omega⟩
    have hnext : (if frameNrg < limit then u32 (frameNrg + u32 (x * x)) else frameNrg) =
        if frameNrg < limit then frameNrg + x * x else frameNrg := by
      by_cases hlt : frameNrg < limit
      · rw [if_pos hlt, if_pos hlt, hsquare]
        exact u32_of ⟨by omega, by omega⟩
      · rw [if_neg hlt, if_neg hlt]
    rw [frameNrgLoop, hnext, stopped, crossingsFrom]
    apply ih
    · split <;> omega
    · exact fun y hy => hxs y (List.mem_cons_of_mem x hy)

/-! ### The sum that stops -/

variable {limit : Int}

theorem stopped_of_le {e : Int} (h : limit ≤ e) : ∀ xs, stopped limit e xs = e
  | [] => rfl
  | x :: xs => by rw [stopped, if_neg (not_lt.mpr h), stopped_of_le h xs]

theorem stopped_le : ∀ (xs : List Int) (e : Int), stopped limit e xs ≤ e + energy xs
  | [], e => by simp [stopped]
  | x :: xs, e => by
    have hx := mul_self_nonneg x
    rw [stopped, energy_cons]
    split
    · have := stopped_le xs (e + x * x)
      omega
    · have := stopped_le xs e
      omega

/-- Below the limit the sum is the energy. -/
theorem min_stopped : ∀ (xs : List Int) (e : Int), min limit (stopped limit e xs) = min limit
    (e + energy xs)
  | [], e => by simp [stopped]
  | x :: xs, e => by
    by_cases hlt : e < limit
    · rw [stopped, if_pos hlt, min_stopped xs, energy_cons, add_assoc]
    · have := energy_nonneg (x :: xs)
      rw [stopped_of_le (not_lt.mp hlt)]
      omega

/-- It stops on the limit exactly if the first samples have this energy. -/
theorem stopped_eq_limit_iff : ∀ (xs : List Int) (e : Int),
    stopped limit e xs = limit ↔ ∃ n, e + energy (xs.take n) = limit
  | [], e => by simp [stopped]
  | x :: xs, e => by
    by_cases hlt : e < limit
    · rw [stopped, if_pos hlt, stopped_eq_limit_iff xs]
      constructor
      · rintro ⟨n, hn⟩
        exact ⟨n + 1, by rw [List.take_succ_cons, energy_cons, ← add_assoc, hn]⟩
      · rintro ⟨n, hn⟩
        cases n with
        | zero =>
          rw [List.take_zero, energy_nil] at hn
          omega
        | succ n => exact ⟨n, by rw [← hn, List.take_succ_cons, energy_cons, add_assoc]⟩
    · rw [stopped_of_le (not_lt.mp hlt)]
      constructor
      · exact fun h => ⟨0, by rw [List.take_zero, energy_nil, add_zero, h]⟩
      · rintro ⟨n, hn⟩
        have := energy_nonneg ((x :: xs).take n)
        omega

/-! ### The decision -/

/-- Two energies, of which one is the other below the limit and at most the
other above it, are judged alike unless the smaller is the limit. -/
theorem lowLevelDecision_eq_iff {e r z : Int} (hlimit : 500 ≤ limit)
    (hmin : min limit r = min limit e) (hle : r ≤ e) :
    lowLevelDecision limit r z = lowLevelDecision limit e z ↔
      ¬ (15 < z ∧ z < 20 ∧ limit < e ∧ r = limit) := by
  have hlow : r < 500 ↔ e < 500 := by omega
  unfold lowLevelDecision
  simp only [hlow]
  by_cases hquiet : e < 500 ∨ z ≤ 5
  · rw [if_pos hquiet, if_pos hquiet]
    exact iff_of_true rfl (by omega)
  by_cases hfew : z ≤ 15
  · rw [if_neg hquiet, if_neg hquiet, if_pos hfew, if_pos hfew]
    exact iff_of_true rfl (by omega)
  by_cases hmany : z ≥ 20
  · simp only [if_neg hquiet, if_neg hfew, if_pos hmany, ite_self]
    exact iff_of_true trivial (by omega)
  · simp only [if_neg hquiet, if_neg hfew, if_neg hmany]
    -- what is left is the comparison with the limit
    by_cases he : e ≤ limit
    · rw [if_pos he, if_pos (hle.trans he)]
      exact iff_of_true rfl (by omega)
    · by_cases hr : r ≤ limit
      · rw [if_neg he, if_pos hr]
        exact iff_of_false (by decide) (by omega)
      · rw [if_neg he, if_neg hr]
        exact iff_of_true rfl (by omega)

theorem limit_range (fs : Int) : 500 ≤ frameNrgLimit fs ∧ frameNrgLimit fs ≤ 2 ^ 31 := by
  unfold frameNrgLimit
  split <;> decide

/-- The flag by the whole energy of the frame. -/
def exactFlag (fs : Int) (band : List Int) : Int :=
  lowLevelDecision (frameNrgLimit fs) (energy band) (crossings band)

theorem lowLevelOf_eq {band : List Int} (hband : ∀ x ∈ band, InI16 x) (fs : Int) :
    lowLevelOf fs band =
    lowLevelDecision (frameNrgLimit fs) (stopped (frameNrgLimit fs) 0 band) (crossings band) := by
  have hrange := limit_range fs
  cases band with
  | nil => rfl
  | cons x xs =>
    obtain ⟨hsq0, hsq1⟩ := mul_self_range (hband x List.mem_cons_self)
    have hsquare : u32 (x * x) = x * x := u32_of ⟨hsq0, by omega⟩
    have hloop := @frameNrgLoop_eq _ hrange.2 xs x _ 0 hsq0 fun y hy =>
      hband y (List.mem_cons_of_mem x hy)
    rw [lowLevelOf, stopped, if_pos (by omega), zero_add]
    simp only [List.headD_cons, List.tail_cons, hsquare, hloop]
    rfl

/-- What `WebRtcAgc_VirtualMic` stores: `WebRtcAgc_AddMic` keeps it. -/
theorem lowLevelSignal_virtualMic (s : LegacyAgc) (in_near : List (List Int)) (micLevelIn : Int) :
    (virtualMic s in_near micLevelIn).val.agc.lowLevelSignal = lowLevelOf s.fs
      (in_near.headD []) := by
  have hstart : (virtualState s in_near micLevelIn).lowLevelSignal =
      lowLevelOf s.fs (in_near.headD []) := by
    unfold virtualState virtualEntry virtualStart
    split <;> rfl
  rw [virtualMic_eq]
  rcases addMic_cases (virtualState s in_near micLevelIn) (virtualBands s in_near micLevelIn)
    with h | ⟨idx, bands, -, -, h⟩
  · rw [h]
    exact hstart
  · rw [h]
    exact hstart

/-- For every instance and every frame of samples, the flag is that of the whole
energy unless the frame has 16 to 19 zero crossings and more energy than the
limit, and its first samples have the energy of the limit. -/
theorem lowLevel_exact_iff (s : LegacyAgc) {in_near : List (List Int)} (micLevelIn : Int)
    (hband : ∀ x ∈ in_near.headD [], InI16 x) :
    (virtualMic s in_near micLevelIn).val.agc.lowLevelSignal = exactFlag s.fs (in_near.headD []) ↔
      ¬ (15 < crossings (in_near.headD []) ∧ crossings (in_near.headD []) < 20 ∧
        frameNrgLimit s.fs < energy (in_near.headD []) ∧
        ∃ n, energy ((in_near.headD []).take n) = frameNrgLimit s.fs) := by
  have hmin := @min_stopped (frameNrgLimit s.fs) (in_near.headD []) 0
  have hle := @stopped_le (frameNrgLimit s.fs) (in_near.headD []) 0
  have hstops := @stopped_eq_limit_iff (frameNrgLimit s.fs) (in_near.headD []) 0
  simp only [zero_add] at hmin hle hstops
  rw [lowLevelSignal_virtualMic, lowLevelOf_eq hband, exactFlag,
    lowLevelDecision_eq_iff (limit_range s.fs).1 hmin hle, hstops]

/-- 80 samples of one magnitude, with 17 zero crossings. -/
def crossingFrame (x : Int) : List Int :=
  (List.replicate 9 [x, -x]).flatten ++ List.replicate 62 (-x)

/-- With the magnitude 100 the sum steps over the limit 5500 with the first
sample. -/
theorem lowLevel_exact_crossing : crossings (crossingFrame 100) = 17 ∧
    frameNrgLimit (LegacyAgc.fresh 2).fs < energy (crossingFrame 100) ∧
    (virtualMic (LegacyAgc.fresh 2) [crossingFrame 100] 127).val.agc.lowLevelSignal =
      exactFlag (LegacyAgc.fresh 2).fs (crossingFrame 100) := by
  refine ⟨by decide +kernel, by decide +kernel,
    (@lowLevel_exact_iff (LegacyAgc.fresh 2) [crossingFrame 100] 127 (by decide)).mpr ?_⟩
  rintro ⟨-, -, -, n, hn⟩
  have hsums : ∀ n ≤ 80, energy ((crossingFrame 100).take n) ≠
      frameNrgLimit (LegacyAgc.fresh 2).fs := by
    decide +kernel
  rcases le_total n 80 with h | h
  · exact hsums n h hn
  · -- more samples than there are
    rw [List.headD_cons, List.take_of_length_le (show (crossingFrame 100).length ≤ n from h)]
      at hn
    exact hsums 80 le_rfl hn

/-- With the magnitude 10 the sum stops at 5500, after 55 of them, and the frame
has 8000. -/
def boundaryFrame : List Int := crossingFrame 10

theorem lowLevel_not_exact :
    (virtualMic (LegacyAgc.fresh 2) [boundaryFrame] 127).val.agc.lowLevelSignal = 1 ∧
    exactFlag (LegacyAgc.fresh 2).fs boundaryFrame = 0 := by
  rw [lowLevelSignal_virtualMic]
  decide +kernel

end LowLevel
end AgcSpec
