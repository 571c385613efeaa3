/-
# Interleaved samples and channels

The functions of `common_audio/audio_util.h` undo each other: `Deinterleave`
and `Interleave`, and a downmix what `UpmixMonoToInterleaved` has done. The
pointer walk of `DownmixInterleavedToMono` and the sum over the channels of
`DownmixToMono` give the same averages of the frames, for up to 65536 channels
without an overflow.

`UpmixMonoToInterleaved` counts its samples in an `int`, where the others have
a `size_t`; it has a meaning only for less than 2^31 of them (`pathsAgree_iff`).
-/
import AgcSpec.AudioUtil
import AgcSpec.Lib.Table

namespace AgcSpec
namespace Downmix

open FixedPoint Tables

variable {num_frames num_channels : ℕ}

/-! ### Frames -/

/-- A frame of interleaved samples. -/
def frame (interleaved : List Sample) (num_channels i : ℕ) : List Sample :=
  (List.range num_channels).map fun j => interleaved.getD (cell num_channels i j) 0

@[simp] theorem length_frame (interleaved : List Sample) (i : ℕ) :
    (frame interleaved num_channels i).length = num_channels := by
  simp [frame]

theorem take_drop_eq_frame {interleaved : List Sample}
    (hlen : interleaved.length = num_frames * num_channels) {i : ℕ} (hi : i < num_frames) :
    (interleaved.drop (i * num_channels)).take num_channels = frame interleaved num_channels i := by
  refine List.ext_getElem? fun j => ?_
  by_cases hj : j < num_channels
  · have hlt : cell num_channels i j < interleaved.length := hlen ▸ cell_lt hi hj
    rw [List.getElem?_take_of_lt hj, List.getElem?_drop, frame, List.getElem?_map,
      List.getElem?_range hj, Option.map_some, List.getD_eq_getElem _ _ hlt,
      ← List.getElem?_eq_getElem hlt]
    rfl
  · rw [List.getElem?_eq_none (by rw [List.length_take]; omega),
      List.getElem?_eq_none (by rw [length_frame]; omega)]

theorem deinterleave_frame (interleaved : List Sample) {i : ℕ} (hi : i < num_frames) :
    ((List.range num_channels).map fun j =>
      (deinterleave interleaved num_frames num_channels j).getD i 0) =
      frame interleaved num_channels i := by
  refine List.map_congr_left fun j _ => ?_
  rw [deinterleave, List.getD_eq_getElem?_getD, List.getElem?_map, List.getElem?_range hi, cell,
    Nat.add_comm]
  rfl

/-! ### The two ways to one channel -/

/-- What both give. -/
def average (interleaved : List Sample) (num_frames num_channels : ℕ) (hpos : 0 < num_channels) :
    List Sample :=
  (List.range num_frames).map fun i =>
    ⟨mean (frame interleaved num_channels i), mean_range _ (by rwa [length_frame])⟩

theorem mixFrame_frame (hpos : 0 < num_channels) (hmax : num_channels ≤ 65536)
    (interleaved : List Sample) (i : ℕ) :
    mixFrame (frame interleaved num_channels i) =
      pure ⟨mean (frame interleaved num_channels i), mean_range _ (by rwa [length_frame])⟩ :=
  mixFrame_eq (by rwa [length_frame]) (by rwa [length_frame])

theorem downmixInterleavedToMono_eq (hpos : 0 < num_channels) (hmax : num_channels ≤ 65536)
    {interleaved : List Sample} (hlen : interleaved.length = num_frames * num_channels) :
    downmixInterleavedToMono interleaved num_frames num_channels =
      pure (average interleaved num_frames num_channels hpos) := by
  refine mapM_eq_pure (List.range num_frames) fun i hi => ?_
  rw [take_drop_eq_frame hlen (List.mem_range.mp hi)]
  exact mixFrame_frame hpos hmax interleaved i

theorem downmixToMono_deinterleave (hpos : 0 < num_channels) (hmax : num_channels ≤ 65536)
    (interleaved : List Sample) :
    downmixToMono (deinterleave interleaved num_frames num_channels) num_frames num_channels =
      pure (average interleaved num_frames num_channels hpos) := by
  refine mapM_eq_pure (List.range num_frames) fun i hi => ?_
  rw [deinterleave_frame interleaved (List.mem_range.mp hi)]
  exact mixFrame_frame hpos hmax interleaved i

/-- The walk of the pointer over the samples is a walk over the frames. -/
theorem downmixInterleavedToMonoImpl_eq (hpos : 0 < num_channels) {interleaved : List Sample}
    (hlen : interleaved.length = num_frames * num_channels) :
    downmixInterleavedToMonoImpl num_channels interleaved =
      downmixInterleavedToMono interleaved num_frames num_channels := by
  induction num_frames generalizing interleaved with
  | zero =>
    obtain rfl : interleaved = [] := List.length_eq_zero_iff.mp (by omega)
    rw [downmixInterleavedToMonoImpl]
    rfl
  | succ n ih =>
    rw [Nat.succ_mul] at hlen
    cases interleaved with
    | nil =>
      rw [List.length_nil] at hlen
      omega
    | cons x rest =>
      rw [List.length_cons] at hlen
      have hfirst : (x :: rest).take num_channels = x :: rest.take (num_channels - 1) := by
        rw [← Nat.succ_pred_eq_of_pos hpos]
        rfl
      have hdrop : ∀ i, (x :: rest).drop ((i + 1) * num_channels) =
          (rest.drop (num_channels - 1)).drop (i * num_channels) := by
        intro i
        rw [List.drop_drop, show (i + 1) * num_channels =
          num_channels - 1 + i * num_channels + 1 by rw [Nat.succ_mul]; omega, List.drop_succ_cons]
      have hfirstLen : (x :: rest.take (num_channels - 1)).length = num_channels := by
        rw [List.length_cons, List.length_take]
        omega
      rw [downmixInterleavedToMonoImpl, ih (by rw [List.length_drop]; omega),
        downmixInterleavedToMono, downmixInterleavedToMono, List.range_succ_eq_map, List.mapM_cons,
        List.mapM_map, zero_mul, List.drop_zero, hfirst, mixFrame, hfirstLen]
      simp only [Function.comp_def, hdrop, bind_assoc, pure_bind, List.tail_cons, List.headD_cons]

/-! ### `Interleave` -/

theorem interleave_channel (v : ℕ → Sample) (out : List Sample) (i n : ℕ) :
    (List.range n).foldl (fun (s : List Sample × ℕ) j => (s.1.set s.2 (v j), s.2 + num_channels))
    (out, i) =
      (fill (fun j => cell num_channels j i) v (List.range n) out, cell num_channels n i) := by
  induction n with
  | zero => simp [fill, cell]
  | succ n ih =>
    rw [List.range_succ, List.foldl_append, ih]
    simp [fill, cell, Nat.succ_mul, Nat.add_right_comm]

theorem interleave_eq (deinterleaved : ℕ → List Sample) (out : List Sample) :
    interleave deinterleaved num_frames num_channels out =
      fill (fun ij => cell num_channels ij.2 ij.1)
      (fun ij => (deinterleaved ij.1).getD ij.2 0)
      (List.range num_channels ×ˢ List.range num_frames) out := by
  unfold interleave
  simp only [interleave_channel]
  exact foldl_grid (fun out ij => out.set (cell num_channels ij.2 ij.1)
    ((deinterleaved ij.1).getD ij.2 0)) _ _ out

theorem length_interleave (deinterleaved : ℕ → List Sample) (out : List Sample) :
    (interleave deinterleaved num_frames num_channels out).length = out.length := by
  rw [interleave_eq, length_fill]

theorem getElem?_interleave (deinterleaved : ℕ → List Sample) {out : List Sample}
    (hlen : out.length = num_frames * num_channels) {i j : ℕ} (hi : i < num_channels)
    (hj : j < num_frames) :
    (interleave deinterleaved num_frames num_channels out)[cell num_channels j i]? =
      some ((deinterleaved i).getD j 0) := by
  have hmem : ∀ {kl : ℕ × ℕ}, kl ∈ List.range num_channels ×ˢ List.range num_frames ↔
      kl.1 < num_channels ∧ kl.2 < num_frames :=
    List.mem_product.trans (by simp)
  rw [interleave_eq]
  refine @getElem?_fill _ _ (fun ij => cell num_channels ij.2 ij.1) _ _ ?_ (i, j)
    (hmem.mpr ⟨hi, hj⟩) _ (hlen ▸ cell_lt hj hi)
  intro kl hkl kl' hkl' heq
  obtain ⟨h2, h1⟩ := cell_inj (hmem.mp hkl).1 (hmem.mp hkl').1 heq
  exact Prod.ext h1 h2

/-- `Interleave` undoes `Deinterleave`. -/
theorem interleave_deinterleave {interleaved out : List Sample}
    (hlen : interleaved.length = num_frames * num_channels)
    (hout : out.length = num_frames * num_channels) :
    interleave (deinterleave interleaved num_frames num_channels) num_frames num_channels out =
      interleaved := by
  refine List.ext_getElem? fun k => ?_
  by_cases hk : k < num_frames * num_channels
  · rw [← cell_div_mod num_channels k, getElem?_interleave _ hout (column_lt hk) (row_lt hk),
      deinterleave, List.getD_eq_getElem?_getD, List.getElem?_map, List.getElem?_range (row_lt hk),
      Option.map_some, Option.getD_some, Nat.add_comm]
    change some (interleaved.getD (cell num_channels (k / num_channels) (k % num_channels)) 0) = _
    rw [cell_div_mod, List.getD_eq_getElem _ _ (hlen ▸ hk), List.getElem?_eq_getElem]
  · rw [List.getElem?_eq_none (by rw [length_interleave]; omega), List.getElem?_eq_none (by omega)]

theorem deinterleave_interleave {deinterleaved : ℕ → List Sample} {out : List Sample}
    (hout : out.length = num_frames * num_channels) {i : ℕ} (hi : i < num_channels)
    (hlen : (deinterleaved i).length = num_frames) :
    deinterleave (interleave deinterleaved num_frames num_channels out) num_frames num_channels i =
      deinterleaved i := by
  refine List.ext_getElem? fun j => ?_
  by_cases hj : j < num_frames
  · rw [deinterleave, List.getElem?_map, List.getElem?_range hj, Option.map_some, Nat.add_comm,
      List.getD_eq_getElem?_getD]
    change some ((interleave deinterleaved num_frames num_channels out)[cell num_channels j i]?.getD
      0) = _
    rw [getElem?_interleave _ hout hi hj, Option.getD_some, List.getD_eq_getElem _ _ (hlen ▸ hj),
      List.getElem?_eq_getElem]
  · rw [List.getElem?_eq_none (by rw [deinterleave, List.length_map, List.length_range]; omega),
      List.getElem?_eq_none (by omega)]

/-! ### `UpmixMonoToInterleaved` -/

/-- The samples it writes, in order. -/
def repeated (mono : List Sample) (num_channels : ℕ) : List Sample :=
  mono.flatMap (List.replicate num_channels)

theorem length_repeated (mono : List Sample) :
    (repeated mono num_channels).length = mono.length * num_channels := by
  induction mono with
  | nil => simp [repeated]
  | cons x mono ih =>
    rw [repeated, List.flatMap_cons, List.length_append, List.length_replicate, ← repeated, ih,
      List.length_cons, Nat.succ_mul, Nat.add_comm]

theorem upmix_eq {mono : List Sample} (hlen : mono.length = num_frames) (out : List Sample) :
    upmixMonoToInterleaved mono num_frames num_channels out =
      (repeated mono num_channels).foldlM writeNext (out, 0) >>= fun r => pure r.1 := by
  have hmono : (List.range num_frames).map (mono.getD · 0) = mono := by
    subst hlen
    refine List.ext_getElem (by simp) fun i _ hi => ?_
    simp [List.getElem?_eq_getElem hi]
  have hframe : ∀ (s : List Sample × Int) (v : Sample),
      (List.range num_channels).foldlM (fun s _ => writeNext s v) s =
        (List.replicate num_channels v).foldlM writeNext s := by
    intro s v
    rw [← List.length_range (n := num_channels), ← List.map_const', List.foldlM_map,
      List.length_range]
  unfold upmixMonoToInterleaved
  simp only [hframe]
  rw [repeated, foldlM_flatMap,
    ← List.foldlM_map (f := (mono.getD · 0))
      (g := fun s v => (List.replicate num_channels v).foldlM writeNext s), hmono]

/-- Samples written one after the other, while the index is in its range. -/
theorem foldlM_writeNext (vs : List Sample) : ∀ (done rest : List Sample),
    rest.length = vs.length → done.length + vs.length < 2 ^ 31 →
    vs.foldlM writeNext (done ++ rest, (done.length : Int)) =
      pure (done ++ vs, ((done.length + vs.length : ℕ) : Int)) := by
  induction vs with
  | nil =>
    intro done rest hrest _
    rw [List.length_eq_zero_iff.mp hrest]
    rfl
  | cons v vs ih =>
    intro done rest hrest hlt
    cases rest with
    | nil => cases hrest
    | cons r rest =>
      rw [List.length_cons] at hlt
      have hnext : writeNext (done ++ r :: rest, (done.length : Int)) v =
          pure ((done ++ [v]) ++ rest, ((done ++ [v]).length : Int)) := by
        rw [writeNext, flag_eq (by simp), pure_bind, ck32_eq (by unfold InI32; omega), pure_bind]
        simp
      rw [List.foldlM_cons, hnext, pure_bind, ih _ _ (by simpa using hrest) (by simp; omega)]
      simp [Nat.add_assoc, Nat.add_comm 1]

/-- The index overflows if there are too many. -/
theorem foldlM_writeNext_ok (vs : List Sample) : ∀ (out : List Sample) {k : ℕ}, k < 2 ^ 31 →
    (vs.foldlM writeNext (out, (k : Int))).ok = true → k + vs.length < 2 ^ 31 := by
  induction vs with
  | nil => exact fun _ _ hk _ => hk
  | cons v vs ih =>
    intro out k hk hok
    rw [List.foldlM_cons, Chk.ok_bind, Bool.and_eq_true] at hok
    obtain ⟨hfirst, hrest⟩ := hok
    have hin : InI32 ((k : Int) + 1) := by
      simp only [writeNext, Chk.ok_bind, Bool.and_eq_true, ok_ck32_iff] at hfirst
      exact hfirst.2.1
    have hval : (writeNext (out, (k : Int)) v).val = (out.set k v, ((k + 1 : ℕ) : Int)) := by
      rw [writeNext, ck32_eq hin]
      rfl
    rw [hval] at hrest
    have := ih _ (by have := hin.2; omega) hrest
    rw [List.length_cons]
    omega

theorem upmix_pure {mono out : List Sample} (hlen : mono.length = num_frames)
    (hout : out.length = num_frames * num_channels) (hlt : num_frames * num_channels < 2 ^ 31) :
    upmixMonoToInterleaved mono num_frames num_channels out =
      pure (repeated mono num_channels) := by
  have hrep : (repeated mono num_channels).length = num_frames * num_channels := by
    rw [length_repeated, hlen]
  have hloop := foldlM_writeNext (repeated mono num_channels) [] out (hout.trans hrep.symm)
    (by simpa [hrep] using hlt)
  rw [upmix_eq hlen]
  exact congrArg (· >>= fun r : List Sample × Int => pure r.1) hloop

theorem upmix_ok {mono : List Sample} (hlen : mono.length = num_frames) (out : List Sample)
    (hok : (upmixMonoToInterleaved mono num_frames num_channels out).ok = true) :
    num_frames * num_channels < 2 ^ 31 := by
  rw [upmix_eq hlen, Chk.ok_bind, Chk.ok_pure, Bool.and_true] at hok
  have h := foldlM_writeNext_ok (repeated mono num_channels) out (k := 0) (by norm_num) hok
  rwa [length_repeated, hlen, Nat.zero_add] at h

theorem frame_repeated {mono : List Sample} {i : ℕ} (hi : i < mono.length) :
    frame (repeated mono num_channels) num_channels i = List.replicate num_channels mono[i] := by
  induction mono generalizing i with
  | nil => cases hi
  | cons x mono ih =>
    rw [frame, repeated, List.flatMap_cons, ← repeated]
    cases i with
    | zero =>
      refine List.eq_replicate_iff.mpr ⟨by simp, fun y hy => ?_⟩
      obtain ⟨j, hj, rfl⟩ := List.mem_map.mp hy
      have hj' := List.mem_range.mp hj
      rw [cell, zero_mul, zero_add, List.getD_append _ _ _ _ (by rwa [List.length_replicate]),
        List.getD_replicate _ hj']
      rfl
    | succ i =>
      rw [List.getElem_cons_succ, ← ih (Nat.lt_of_succ_lt_succ hi)]
      refine List.map_congr_left fun j _ => ?_
      rw [List.getD_append_right _ _ _ _ (by rw [List.length_replicate, cell, Nat.succ_mul]; omega),
        List.length_replicate, cell, cell, Nat.succ_mul, show i * num_channels + num_channels +
          j - num_channels = i * num_channels + j by omega]

theorem mean_replicate (hpos : 0 < num_channels) (x : Sample) :
    mean (List.replicate num_channels x) = x.val := by
  rw [mean, List.map_replicate, List.sum_replicate, List.length_replicate, nsmul_eq_mul]
  exact Int.mul_tdiv_cancel_left _ (by omega)

theorem average_repeated (hpos : 0 < num_channels) {mono : List Sample}
    (hlen : mono.length = num_frames) :
    average (repeated mono num_channels) num_frames num_channels hpos = mono := by
  subst hlen
  refine List.ext_getElem (by simp [average]) fun i _ hi => ?_
  apply Subtype.ext
  simp only [average, List.getElem_map, List.getElem_range]
  rw [frame_repeated hi, mean_replicate hpos]

/-! ### All paths -/

/-- Both downmixes have the averages of the frames as their result, computed
without an overflow; `Deinterleave` and `Interleave` undo each other; and a
downmix undoes `UpmixMonoToInterleaved`, which has a meaning. -/
structure PathsAgree (num_frames num_channels : ℕ) : Prop where
  downmix : ∀ interleaved : List Sample, interleaved.length = num_frames * num_channels →
    ∃ out : List Sample, downmixInterleavedToMonoImpl num_channels interleaved = pure out ∧
      downmixInterleavedToMono interleaved num_frames num_channels = pure out ∧
      downmixToMono (deinterleave interleaved num_frames num_channels) num_frames num_channels =
        pure out ∧
      out.map Subtype.val = (List.range num_frames).map fun i =>
        mean (frame interleaved num_channels i)
  interleave_deinterleave : ∀ interleaved out : List Sample, interleaved.length =
    num_frames * num_channels → out.length = num_frames * num_channels →
    interleave (deinterleave interleaved num_frames num_channels) num_frames num_channels out =
      interleaved
  deinterleave_interleave : ∀ (deinterleaved : ℕ → List Sample) (out : List Sample),
    (∀ i < num_channels, (deinterleaved i).length = num_frames) →
    out.length = num_frames * num_channels →
    ∀ i < num_channels,
      deinterleave (interleave deinterleaved num_frames num_channels out) num_frames num_channels
        i = deinterleaved i
  upmix : ∀ mono out : List Sample, mono.length = num_frames →
    out.length = num_frames * num_channels → ∃ up,
      upmixMonoToInterleaved mono num_frames num_channels out = pure up ∧
        downmixInterleavedToMono up num_frames num_channels = pure mono

/-- For 1 to 65535 channels all this holds exactly as long as the number of
samples is in the range of an `int`. -/
theorem pathsAgree_iff (hpos : 1 ≤ num_channels) (hmax : num_channels ≤ 65535) :
    PathsAgree num_frames num_channels ↔ num_frames * num_channels < 2 ^ 31 := by
  have hmax' : num_channels ≤ 65536 := by omega
  constructor
  · intro h
    obtain ⟨up, hup, -⟩ :=
      h.upmix (List.replicate num_frames 0) (List.replicate (num_frames * num_channels) 0)
      List.length_replicate List.length_replicate
    exact upmix_ok List.length_replicate _ (congrArg Chk.ok hup)
  · intro hlt
    refine ⟨fun interleaved hlen => ?_, fun _ _ => interleave_deinterleave,
      fun _ _ hlen hout i hi => deinterleave_interleave hout hi (hlen i hi),
      fun mono out hmono hout => ?_⟩
    · have hdown := downmixInterleavedToMono_eq hpos hmax' hlen
      exact ⟨_, (downmixInterleavedToMonoImpl_eq hpos hlen).trans hdown, hdown,
        downmixToMono_deinterleave hpos hmax' interleaved, List.map_map⟩
    · refine ⟨_, upmix_pure hmono hout hlt, ?_⟩
      rw [downmixInterleavedToMono_eq hpos hmax' (by rw [length_repeated, hmono]),
        average_repeated hpos hmono]

/-- Ten milliseconds of stereo at 48 kHz. -/
theorem pathsAgree_stereo : PathsAgree 480 2 :=
  (pathsAgree_iff (by decide) (by decide)).mpr (by decide)

/-- In two channels of 2^30 frames the index of `UpmixMonoToInterleaved`
overflows at the end. -/
theorem upmix_overflow : (upmixMonoToInterleaved (List.replicate (2 ^ 30) 0) (2 ^ 30) 2
    (List.replicate (2 ^ 30 * 2) 0)).ok = false := by
  rw [Bool.eq_false_iff]
  intro hok
  exact absurd (upmix_ok List.length_replicate _ hok) (by norm_num)

end Downmix
end AgcSpec
