/-
# Duplicating a signal in place

`InputAudioFile::DuplicateInterleaved` writes every sample of a mono signal to
all channels of its frame. It goes from the end to the beginning, "to allow
in-place interleaving of the same array". The two arrays are places in one
memory here, so they can be the same array or disjoint ones.

When the sample `i` is read, the frames behind it have been written, and its
own in part. None of the frames behind it has the place of the sample, since
`i < (i + 1) * channels`; its own may have, and then the sample has been written
to its own place (`copyLoop_spec`). So the order is right in both cases.

The loops count in `int`, and start at `samples - 1` and `channels - 1` converted
to it. Above `2^31` the conversion gives another number, and a part of the
frames or of the channels is left out, or all of them (`duplicate_inPlace_iff`).
-/
import AgcSpec.AudioUtil
import AgcSpec.Lib.Table

namespace AgcSpec
namespace InputAudioFile

open FixedPoint Tables

/-! ### The function -/

/-- `destination[i * channels + j] = source[i]`. -/
def copySample (source channels destination i j : ℕ) (mem : List Sample) : Chk (List Sample) := do
  let x ← flag (source + i < mem.length) (mem.getD (source + i) 0)
  flag (destination + cell channels i j < mem.length) (mem.set (destination + cell channels i j) x)

/-- Both loops, for a number of turns each. -/
def copyLoop (source channels destination rows columns : ℕ) (mem : List Sample) :
    Chk (List Sample) :=
  countDown (fun i mem => countDown (copySample source channels destination i) columns mem) rows mem

/-- The turns of `for (int i = static_cast<int>(n - 1); i >= 0; --i)`: none if
the conversion gives a negative number. -/
def turns (n : ℕ) : ℕ := (i32 ((n : Int) - 1) + 1).toNat

/-- `InputAudioFile::DuplicateInterleaved`, with the places of the source and of
the destination in a memory of samples. -/
def duplicateInterleaved (mem : List Sample) (source samples channels destination : ℕ) :
    Chk (List Sample) :=
  copyLoop source channels destination (turns samples) (turns channels) mem

theorem turns_of_le {n : ℕ} (h : n ≤ 2 ^ 31) : turns n = n := by
  unfold turns
  rw [i32_of ⟨by omega, by omega⟩]
  omega

/-- There are never too many turns, and at most `2^31`. -/
theorem turns_le (n : ℕ) : turns n ≤ n ∧ turns n ≤ 2 ^ 31 := by
  unfold turns i32
  omega

/-! ### The order of the writes -/

/-- The place of the channel `j` of the frame `i`. -/
abbrev place (channels destination : ℕ) (ij : ℕ × ℕ) : ℕ :=
  destination + cell channels ij.1 ij.2

/-- What belongs there. -/
abbrev sample (mem : List Sample) (source : ℕ) (ij : ℕ × ℕ) : Sample :=
  mem.getD (source + ij.1) 0

/-- The arrays are in the memory, and no sample has its place in a frame behind
its own. -/
structure Fits (mem : List Sample) (source channels destination rows columns : ℕ) : Prop where
  source_lt : ∀ i < rows, source + i < mem.length
  place_lt : ∀ i < rows, ∀ j < columns, destination + cell channels i j < mem.length
  intact : ∀ i k j, i ≤ k → k < rows → j < columns →
    destination + cell channels k j = source + i → k = i

variable {mem : List Sample} {source channels destination rows columns : ℕ}

/-- What is done when `l` turns of the frame `i` are left. -/
def Done (rows columns i l : ℕ) (kj : ℕ × ℕ) : Prop :=
  kj.2 < columns ∧ (i < kj.1 ∧ kj.1 < rows ∨ kj.1 = i ∧ l ≤ kj.2)

theorem copySample_spec (hcol : columns ≤ channels)
    (h : Fits mem source channels destination rows columns) {i l : ℕ} (hi : i < rows)
    (hl : l < columns) {cur : List Sample}
    (hcur : Written (place channels destination) (sample mem source)
      (Done rows columns i (l + 1)) mem cur) :
    ∃ next, copySample source channels destination i l cur = pure next ∧
      Written (place channels destination) (sample mem source)
        (Done rows columns i l) mem next := by
  have hsource := h.source_lt i hi
  have hplace := h.place_lt i hi l hl
  have hold : mem[source + i]? = some (sample mem source (i, l)) := by
    rw [sample, List.getD_eq_getElem _ _ hsource, List.getElem?_eq_getElem]
  have hread : cur.getD (source + i) 0 = sample mem source (i, l) := by
    rw [List.getD_eq_getElem?_getD, hcur.read hold, Option.getD_some]
    -- a place that is the sample's is one of its own frame
    rintro ⟨k, j⟩ ⟨hj, hk⟩ hkey
    obtain rfl := h.intact i k j (by omega) (by omega) hj hkey
    rfl
  refine ⟨cur.set (place channels destination (i, l)) (sample mem source (i, l)), ?_,
    hcur.set hplace ?_ ?_⟩
  · rw [copySample, flag_eq (hcur.length ▸ hsource), pure_bind, flag_eq (hcur.length ▸ hplace),
      hread]
  · rintro ⟨k, j⟩ ⟨hj, -⟩ hkey
    obtain ⟨rfl, -⟩ := cell_inj (hj.trans_le hcol) (hl.trans_le hcol) (Nat.add_left_cancel hkey)
    rfl
  · rintro ⟨k, j⟩
    simp only [Done, Prod.mk.injEq]
    omega

/-- Both loops: every place of a frame has the sample, and the rest is as it
was. -/
theorem copyLoop_spec (hcol : columns ≤ channels)
    (h : Fits mem source channels destination rows columns) :
    ∃ out, copyLoop source channels destination rows columns mem = pure out ∧
      Written (place channels destination) (sample mem source)
        (fun ij => ij.1 < rows ∧ ij.2 < columns) mem out := by
  have hrow : ∀ i < rows, ∀ cur, Written (place channels destination) (sample mem source)
    (Done rows columns i columns) mem cur → ∃ next,
      countDown (copySample source channels destination i) columns cur = pure next ∧
        Written (place channels destination) (sample mem source) (Done rows columns i 0) mem next :=
    fun i hi cur hcur => countDown_rule hcur fun l hl cur hcur => copySample_spec hcol h hi hl hcur
  have hloop := countDown_rule
    (f := fun i mem => countDown (copySample source channels destination i) columns mem)
    (I := fun i => Written (place channels destination) (sample mem source)
      (fun kj => kj.2 < columns ∧ i ≤ kj.1 ∧ kj.1 < rows) mem) (n := rows) (s := mem)
    (Written.start fun kj hkj => by omega) ?_
  · obtain ⟨out, hout, hend⟩ := hloop
    refine ⟨out, hout, hend.congr fun ij => ?_⟩
    omega
  · intro i hi cur hcur
    obtain ⟨next, hnext, hend⟩ := hrow i hi cur (hcur.congr fun kj => by unfold Done; omega)
    refine ⟨next, hnext, hend.congr fun kj => ?_⟩
    unfold Done
    omega

/-! ### Sizes -/

/-- The call has a meaning and leaves the sample `i` at every place of the frame
`i`. -/
def Duplicates (mem : List Sample) (source samples channels destination : ℕ) : Prop :=
  (duplicateInterleaved mem source samples channels destination).ok = true ∧
    ∀ i < samples, ∀ j < channels,
      (duplicateInterleaved mem source samples channels destination).val[destination +
        (i * channels + j)]? = mem[source + i]?

/-- Disjoint arrays. -/
structure Apart (mem : List Sample) (source samples channels destination : ℕ) : Prop where
  source_le : source + samples ≤ mem.length
  destination_le : destination + samples * channels ≤ mem.length
  apart : source + samples ≤ destination ∨ destination + samples * channels ≤ source

variable {samples : ℕ}

theorem fits_inPlace (hch : 1 ≤ channels) {p : ℕ} (h : p + samples * channels ≤ mem.length)
    (hrow : rows ≤ samples) (hcol : columns ≤ channels) :
    Fits mem p channels p rows columns where
  source_lt i hi := by
    have := Nat.le_mul_of_pos_right samples hch
    omega
  place_lt i hi j hj := by
    have := cell_lt (hi.trans_le hrow) (hj.trans_le hcol)
    omega
  intact i k j hik hk hj heq := by
    have hcell : k * channels + j = i := Nat.add_left_cancel heq
    have := Nat.le_mul_of_pos_right k hch
    omega

theorem Apart.fits (h : Apart mem source samples channels destination) (hrow : rows ≤ samples)
    (hcol : columns ≤ channels) :
    Fits mem source channels destination rows columns where
  source_lt i hi := by
    have := h.source_le
    omega
  place_lt i hi j hj := by
    have := cell_lt (hi.trans_le hrow) (hj.trans_le hcol)
    have := h.destination_le
    omega
  intact i k j hik hk hj heq := by
    have := cell_lt (hk.trans_le hrow) (hj.trans_le hcol)
    have := h.apart
    omega

theorem duplicates_of_fits (h : Fits mem source channels destination samples channels)
    (hsamples : samples ≤ 2 ^ 31)
    (hchannels : channels ≤ 2 ^ 31) : Duplicates mem source samples channels destination := by
  obtain ⟨out, hout, hwritten⟩ := copyLoop_spec le_rfl h
  unfold Duplicates duplicateInterleaved
  rw [turns_of_le hsamples, turns_of_le hchannels, hout]
  refine ⟨rfl, fun i hi j hj => ?_⟩
  have hplace := hwritten.written (i, j) ⟨hi, hj⟩
  rw [sample, List.getD_eq_getElem _ _ (h.source_lt i hi)] at hplace
  exact hplace.trans (List.getElem?_eq_getElem _).symm

/-- With the same array as source and destination the samples are duplicated,
as with disjoint arrays that hold the same samples. -/
def SafeInPlace (samples channels : ℕ) : Prop :=
  ∀ (array : List Sample) (p : ℕ) (mem : List Sample) (source destination : ℕ),
    p + samples * channels ≤ array.length → Apart mem source samples channels destination →
    (∀ i < samples, mem[source + i]? = array[p + i]?) →
    Duplicates array p samples channels p ∧ ∀ i < samples, ∀ j < channels,
      (duplicateInterleaved array p samples channels p).val[p + (i * channels + j)]? =
        (duplicateInterleaved mem source samples channels destination).val[destination +
          (i * channels + j)]?

/-- An array of ones. -/
abbrev ones (n : ℕ) : List Sample := List.replicate n (Sample.cast 1)

/-- A source of ones and, behind it, a destination of zeros. -/
abbrev onesAndZeros (samples channels : ℕ) : List Sample :=
  ones samples ++ List.replicate (samples * channels) 0

theorem apart_onesAndZeros (samples channels : ℕ) :
    Apart (onesAndZeros samples channels) 0 samples channels samples where
  source_le := by simp
  destination_le := by simp
  apart := .inl (by simp)

/-- Where a turn is missing, the last channel of the last frame is as it was. -/
theorem last_kept (hs : 1 ≤ samples) (hch : 1 ≤ channels)
    (hmissing : turns samples < samples ∨ turns channels < channels) :
    (duplicateInterleaved (onesAndZeros samples channels) 0 samples channels samples).val[samples +
      ((samples - 1) * channels +
      (channels - 1))]? = some 0 := by
  have hrow := (turns_le samples).1
  have hcol := (turns_le channels).1
  obtain ⟨out, hout, hwritten⟩ :=
    copyLoop_spec hcol ((apart_onesAndZeros samples channels).fits hrow hcol)
  rw [duplicateInterleaved, hout, Chk.val_pure, hwritten.kept]
  · have hlt := cell_lt (w := channels) (show samples - 1 < samples by omega)
      (show channels - 1 < channels by omega)
    rw [List.getElem?_append_right (by simp), List.getElem?_replicate,
      if_pos (by simpa [cell] using hlt)]
  · rintro ⟨i, j⟩ ⟨hi, hj⟩ hkey
    obtain ⟨rfl, rfl⟩ := cell_inj (hj.trans_le hcol) (by omega) (Nat.add_left_cancel hkey)
    omega

/-- Duplication in place is as good as with disjoint arrays exactly for up to
`2^31` samples and `2^31` channels. -/
theorem duplicate_inPlace_iff {samples channels : ℕ} (hch : 1 ≤ channels) :
    SafeInPlace samples channels ↔ samples = 0 ∨
      samples ≤ 2 ^ 31 ∧ channels ≤ 2 ^ 31 := by
  constructor
  · intro hsafe
    by_contra hlarge
    have hs : 1 ≤ samples := by omega
    have hmissing : turns samples < samples ∨ turns channels < channels := by
      have := (turns_le samples).2
      have := (turns_le channels).2
      omega
    have hone : ∀ i < samples, (ones (samples * channels))[0 + i]? = some (Sample.cast 1) := by
      intro i hi
      have := Nat.le_mul_of_pos_right samples hch
      rw [List.getElem?_replicate, if_pos (by omega)]
    have hsource : ∀ i < samples, (onesAndZeros samples channels)[0 + i]? =
        (ones (samples * channels))[0 + i]? := by
      intro i hi
      rw [hone i hi, List.getElem?_append_left (by simpa using hi), List.getElem?_replicate,
        if_pos (by omega)]
    obtain ⟨hdup, hsame⟩ :=
      hsafe (ones (samples * channels)) 0 (onesAndZeros samples channels) 0 samples (by simp)
      (apart_onesAndZeros samples channels) hsource
    -- in place the last channel of the last frame is one, and in disjoint arrays it is not written
    have hlast := hsame (samples - 1) (by omega) (channels - 1) (by omega)
    rw [hdup.2 (samples - 1) (by omega) (channels - 1) (by omega), hone (samples - 1) (by omega),
      last_kept hs hch hmissing] at hlast
    exact absurd (Option.some.inj hlast) (by decide)
  · rintro hsizes array p mem source destination harray hapart hsource
    rcases hsizes with rfl | ⟨hs, hc⟩
    · exact ⟨⟨rfl, fun i hi => absurd hi (Nat.not_lt_zero i)⟩, fun i hi =>
        absurd hi (Nat.not_lt_zero i)⟩
    · have hin := duplicates_of_fits (fits_inPlace hch harray le_rfl le_rfl) hs hc
      have hout := duplicates_of_fits (hapart.fits le_rfl le_rfl) hs hc
      exact ⟨hin, fun i hi j hj =>
        (hin.2 i hi j hj).trans ((hsource i hi).symm.trans (hout.2 i hi j hj).symm)⟩

/-- Ten samples and five channels. -/
theorem duplicate_inPlace_five : SafeInPlace 10 5 :=
  (@duplicate_inPlace_iff 10 5 (by decide)).mpr (.inr ⟨by decide, by decide⟩)

/-- A sample that is one, and `n` zeros. -/
def oneAndZeros (n : ℕ) : List Sample := Sample.cast 1 :: List.replicate n 0

theorem oneAndZeros_cells (n : ℕ) :
    (oneAndZeros (n + 1)).length = n + 2 ∧ (oneAndZeros (n + 1))[0 + (0 * 2 + 1)]? = some 0 ∧
    (oneAndZeros (n + 1))[0 + 0]? = some (Sample.cast 1) := by
  refine ⟨?_, rfl, rfl⟩
  rw [oneAndZeros, List.length_cons, List.length_replicate]

theorem duplicate_unchanged {samples : ℕ} (h : turns samples = 0) (mem : List Sample)
    (source channels destination : ℕ) :
    duplicateInterleaved mem source samples channels destination = pure mem := by
  rw [duplicateInterleaved, h]
  rfl

/-- `2^31 + 1` samples for two channels, in an array of `2^32 + 2`: none is
duplicated. The second channel of the first frame stays zero, and the first
sample is one. -/
theorem duplicate_not_inPlace : (oneAndZeros (2 ^ 32 + 1)).length = (2 ^ 31 + 1) * 2 ∧
    duplicateInterleaved (oneAndZeros (2 ^ 32 + 1)) 0 (2 ^ 31 + 1) 2 0 =
      pure (oneAndZeros (2 ^ 32 + 1)) ∧
    (oneAndZeros (2 ^ 32 + 1))[0 + (0 * 2 + 1)]? = some 0 ∧
    (oneAndZeros (2 ^ 32 + 1))[0 + 0]? = some (Sample.cast 1) := by
  obtain ⟨hlen, hsecond, hfirst⟩ := oneAndZeros_cells (2 ^ 32)
  have hturns : turns (2 ^ 31 + 1) = 0 := by decide
  refine ⟨?_, duplicate_unchanged hturns _ 0 2 0, hsecond, hfirst⟩
  rw [hlen]
  norm_num

end InputAudioFile
end AgcSpec
