/-
# The all-pass filter over blocks

`WebRtcSpl_AllPassQMF` runs each of its three sections over a whole block. The
first goes from `in_data` to `out_data`, the second back to `in_data` over the
input it no longer needs, the third to `out_data` again; the six cells of the
state are saved between them. `allPassQMFInPlace` is the function on its
arrays, which may be longer than the block.

It is the filter of `allPassQMF` on lists (`allPassQMFInPlace_eq`), and that is
the cascade of the three sections taken one sample at a time
(`allPassQMF_eq_samples`): the sections do not read each other's states, so
the loops over the sections and over the samples can be exchanged. A cascade
taken sample by sample does not see where a block ends (`blocks_eq_samples`).
-/
import AgcSpec.SplittingFilter
import AgcSpec.Lib.Stream

namespace AgcSpec

open FixedPoint Streams

/-! ### The function on its arrays -/

/-- The body of the loop of a section from `src` to `dst`, with the previous
values of both. -/
def sectionStep (a : Int) (src dst : List Int) (k : ℕ) : Chk (List Int) := do
  let u ← ckGet src k
  let y ← ckGet dst (k - 1)
  let x ← ckGet src (k - 1)
  let v ← scaleDiff32 a (subSatW32 u y) x
  writeAt dst k [v]

/-- A section; its first sample takes the previous values from the state. -/
def sectionInPlace (a x y : Int) (src : List Int) (data_length : ℕ) (dst : List Int) :
    Chk (List Int) := do
  let u ← ckGet src 0
  let v ← scaleDiff32 a (subSatW32 u y) x
  let dst ← writeAt dst 0 [v]
  (List.range' 1 (data_length - 1)).foldlM (sectionStep a src) dst

/-- The arrays after `WebRtcSpl_AllPassQMF`. -/
structure QmfArrays where
  in_data : List Int
  out_data : List Int
  filter_state : AllPassState

/-- `WebRtcSpl_AllPassQMF`. -/
def allPassQMFInPlace (in_data : List Int) (data_length : ℕ) (out_data : List Int)
    (filter_coefficients : Int × Int × Int) (filter_state : AllPassState) : Chk QmfArrays := do
  let out_data ← sectionInPlace filter_coefficients.1 filter_state.x0 filter_state.y0 in_data
    data_length out_data
  let x0 ← ckGet in_data (data_length - 1)
  let y0 ← ckGet out_data (data_length - 1)
  let in_data ← sectionInPlace filter_coefficients.2.1 filter_state.x1 filter_state.y1 out_data
    data_length in_data
  let x1 ← ckGet out_data (data_length - 1)
  let y1 ← ckGet in_data (data_length - 1)
  let out_data ← sectionInPlace filter_coefficients.2.2 filter_state.x2 filter_state.y2 in_data
    data_length out_data
  let x2 ← ckGet in_data (data_length - 1)
  let y2 ← ckGet out_data (data_length - 1)
  pure ⟨in_data, out_data, ⟨x0, y0, x1, y1, x2, y2⟩⟩

/-! ### The cascade, one sample at a time -/

/-- Three sections `y[n] = x[n-1] + a (x[n] - y[n-1])` on one sample. -/
def allPassSample (filter_coefficients : Int × Int × Int) (st : AllPassState) (u : Int) :
    Chk (Int × AllPassState) := do
  let v0 ← scaleDiff32 filter_coefficients.1 (subSatW32 u st.y0) st.x0
  let v1 ← scaleDiff32 filter_coefficients.2.1 (subSatW32 v0 st.y1) st.x1
  let v2 ← scaleDiff32 filter_coefficients.2.2 (subSatW32 v1 st.y2) st.x2
  pure (v2, ⟨u, v0, v0, v1, v1, v2⟩)

/-- The same on a stream. -/
def allPassSamples (filter_coefficients : Int × Int × Int) :
    AllPassState → List Int → Chk (List Int × AllPassState)
  | st, [] => pure ([], st)
  | st, u :: us => do
    let r ← allPassSample filter_coefficients st u
    let s ← allPassSamples filter_coefficients r.2 us
    pure (r.1 :: s.1, s.2)

/-- The function on one block after the other, each in an array of its own. -/
def allPassBlocks (filter_coefficients : Int × Int × Int) :
    AllPassState → List (List Int) → Chk (List Int × AllPassState)
  | st, [] => pure ([], st)
  | st, b :: bs => do
    let r ← allPassQMFInPlace b b.length (List.replicate b.length 0) filter_coefficients st
    let s ← allPassBlocks filter_coefficients r.filter_state bs
    pure (r.out_data ++ s.1, s.2)

namespace AllPassBlocks

variable {a x y : Int} {c : Int × Int × Int}

/-! ### A section -/

theorem length_allPassCascade (us : List Int) :
    (allPassCascade a x y us).val.1.length = us.length := by
  induction us generalizing x y with
  | nil => rfl
  | cons u us ih => exact congrArg Nat.succ ih

/-- After a block, the state has its last input and its last output. -/
theorem state_allPassCascade (us : List Int) (u : Int) :
    ∃ vs v, (allPassCascade a x y (us ++ [u])).val = (vs ++ [v], u, v) ∧
    vs.length = us.length := by
  induction us generalizing x y with
  | nil => exact ⟨[], _, rfl, rfl⟩
  | cons w us ih =>
    obtain ⟨vs, v, h, hlen⟩ := @ih w (scaleDiff32 a (subSatW32 w y) x).val
    refine ⟨(scaleDiff32 a (subSatW32 w y) x).val :: vs, v, ?_, congrArg Nat.succ hlen⟩
    rw [List.cons_append, allPassCascade, Chk.val_bind, Chk.val_bind, h]
    rfl

/-- The loop from the sample after `x` on: the samples `us` are still to come,
and what is in their places of `dst` does not matter. -/
theorem loop_eq (us : List Int) : ∀ (pre tail done rest : List Int) (x y : Int),
    done.length = pre.length → us.length ≤ rest.length →
    (List.range' (pre.length + 1) us.length).foldlM (sectionStep a (pre ++ x :: (us ++ tail)))
    (done ++ y :: rest) =
      allPassCascade a x y us >>= fun r => pure (done ++ y :: (r.1 ++ rest.drop us.length)) := by
  induction us with
  | nil => exact fun _ _ _ _ _ _ _ _ => rfl
  | cons u us ih =>
    intro pre tail done rest x y hdone hrest
    cases rest with
    | nil => cases hrest
    | cons w rest =>
      have hsrc : pre ++ x :: (u :: us ++ tail) = (pre ++ [x]) ++ u :: (us ++ tail) := by simp
      have hu := ckGet_append (pre ++ [x]) u (us ++ tail)
      have hx := ckGet_append pre x (u :: us ++ tail)
      have hy := ckGet_append done y (w :: rest)
      have hput := fun v => writeAt_single (done ++ [y]) v w rest
      simp only [List.length_append, List.length_singleton, hdone, List.append_assoc,
        List.cons_append, List.nil_append] at hu hx hy hput
      have hstep : sectionStep a (pre ++ x :: (u :: us ++ tail)) (done ++ y :: w :: rest)
        (pre.length + 1) =
          scaleDiff32 a (subSatW32 u y) x >>= fun v => pure ((done ++ [y]) ++ v :: rest) := by
        simp only [sectionStep, List.cons_append, Nat.cast_succ, add_sub_cancel_right, hx, hy,
          hput, pure_bind, List.append_assoc, List.nil_append]
        rw [← Nat.cast_succ, hu, pure_bind]
      rw [List.length_cons, List.range'_succ, List.foldlM_cons, hstep, bind_assoc,
        allPassCascade, bind_assoc]
      refine bind_congr fun v => ?_
      have hnext := ih (pre ++ [x]) tail (done ++ [y]) rest u v (by simp [hdone])
        (Nat.le_of_succ_le_succ hrest)
      rw [List.length_append, List.length_singleton] at hnext
      rw [pure_bind, hsrc, hnext, bind_assoc]
      simp

theorem sectionInPlace_eq {src dst : List Int} {n : ℕ} (hn : 1 ≤ n) (hsrc : n ≤ src.length)
    (hdst : n ≤ dst.length) :
    sectionInPlace a x y src n dst = allPassCascade a x y (src.take n) >>= fun r =>
      pure (r.1 ++ dst.drop n) := by
  obtain ⟨n, rfl⟩ := Nat.exists_eq_succ_of_ne_zero (Nat.one_le_iff_ne_zero.mp hn)
  cases src with
  | nil => cases hsrc
  | cons u src =>
    cases dst with
    | nil => cases hdst
    | cons w dst =>
      have hlen : (src.take n).length = n := List.length_take_of_le (Nat.le_of_succ_le_succ hsrc)
      have hloop := fun v => loop_eq (a := a) (src.take n) [] (src.drop n) [] dst u v rfl
        (by rw [hlen]; exact Nat.le_of_succ_le_succ hdst)
      simp only [List.nil_append, List.length_nil, hlen, List.take_append_drop, Nat.zero_add]
        at hloop
      have hfirst : ckGet (u :: src) 0 = pure u := ckGet_append [] u src
      have hput : ∀ v, writeAt (w :: dst) 0 [v] = pure (v :: dst) :=
        fun v => writeAt_single [] v w dst
      rw [sectionInPlace, List.take_succ_cons, allPassCascade, hfirst, pure_bind]
      simp only [hput, pure_bind, Nat.succ_sub_one, hloop, bind_assoc, List.cons_append,
        List.drop_succ_cons]

/-! ### The whole function -/

theorem ckGet_last (l : List Int) (v : Int) (rest : List Int) {n : ℕ} (hn : l.length + 1 = n) :
    ckGet (l ++ [v] ++ rest) (n - 1) = pure v := by
  subst hn
  rw [List.append_assoc, Nat.cast_succ, add_sub_cancel_right]
  exact ckGet_append l v rest

/-- A section and the two cells of its state that are saved after it. -/
theorem section_saved {β : Type} {src dst : List Int} {n : ℕ} (hn : 1 ≤ n)
    (hsrc : n ≤ src.length) (hdst : n ≤ dst.length) (k : List Int → Int → Int → Chk β) :
    (sectionInPlace a x y src n dst >>= fun d => ckGet src (n - 1) >>= fun x' =>
      ckGet d (n - 1) >>= fun y' => k d x' y') =
      allPassCascade a x y (src.take n) >>= fun r => k (r.1 ++ dst.drop n) r.2.1 r.2.2 := by
  have hlen : (src.take n).length = n := List.length_take_of_le hsrc
  obtain ⟨us, u, hus⟩ : ∃ us u, src.take n = us ++ [u] :=
    ⟨_, _, (List.dropLast_append_getLast (List.ne_nil_of_length_pos (by omega))).symm⟩
  have hcount : us.length + 1 = n := by simpa [hus] using hlen
  rw [sectionInPlace_eq hn hsrc hdst, bind_assoc]
  refine Chk.bind_congr_val ?_
  obtain ⟨vs, v, hval, hvs⟩ := @state_allPassCascade a x y us u
  have hx : ckGet src (n - 1) = pure u := by
    rw [← List.take_append_drop n src, hus]
    exact ckGet_last us u _ hcount
  rw [pure_bind, hx, pure_bind, hus, hval, ckGet_last vs v _ (hvs ▸ hcount), pure_bind]

/-- On its arrays the function is the filter on the block. -/
theorem allPassQMFInPlace_eq {in_data out_data : List Int} {n : ℕ} (st : AllPassState)
    (hn : 1 ≤ n) (hin : n ≤ in_data.length) (hout : n ≤ out_data.length) :
    (allPassQMFInPlace in_data n out_data c st >>= fun r => pure (r.out_data, r.filter_state)) =
      allPassQMF c st (in_data.take n) >>= fun r => pure (r.1 ++ out_data.drop n, r.2) := by
  simp only [allPassQMFInPlace, allPassQMF, bind_assoc, pure_bind]
  rw [section_saved hn hin hout]
  refine Chk.bind_congr_val ?_
  have hp : (allPassCascade c.1 st.x0 st.y0 (in_data.take n)).val.1.length = n := by
    rw [length_allPassCascade, List.length_take_of_le hin]
  generalize (allPassCascade c.1 st.x0 st.y0 (in_data.take n)).val = p at hp
  -- the second section writes over the input, the third over the output of the first
  rw [section_saved hn (by rw [List.length_append]; omega) hin, List.take_left' hp]
  refine Chk.bind_congr_val ?_
  have hq : (allPassCascade c.2.1 st.x1 st.y1 p.1).val.1.length = n := by
    rw [length_allPassCascade, hp]
  generalize (allPassCascade c.2.1 st.x1 st.y1 p.1).val = q at hq
  rw [section_saved hn (by rw [List.length_append]; omega) (by rw [List.length_append]; omega),
    List.take_left' hq, List.drop_left' hp]

/-! ### Sections and samples exchanged -/

/-- The first sample can be taken through all three sections before the others. -/
theorem allPassQMF_cons (st : AllPassState) (u : Int) (us : List Int) : allPassQMF c st (u :: us) =
    allPassSample c st u >>= fun r => allPassQMF c r.2 us >>= fun s => pure (r.1 :: s.1, s.2) := by
  simp only [allPassQMF, allPassSample, allPassCascade, bind_assoc, pure_bind]
  refine bind_congr fun v0 => ?_
  rw [Chk.bind_comm]
  refine bind_congr fun v1 => ?_
  refine Eq.trans ?_ (Chk.bind_comm _ _ _)
  refine bind_congr fun p => ?_
  exact Chk.bind_comm _ _ _

theorem allPassQMF_eq_samples (st : AllPassState) (us : List Int) :
    allPassQMF c st us = allPassSamples c st us := by
  induction us generalizing st with
  | nil => rfl
  | cons u us ih =>
    rw [allPassQMF_cons, allPassSamples]
    refine bind_congr fun r => ?_
    rw [ih]

theorem allPassSamples_append (st : AllPassState) (us vs : List Int) :
    allPassSamples c st (us ++ vs) =
    allPassSamples c st us >>= fun r => allPassSamples c r.2 vs >>= fun s =>
      pure (r.1 ++ s.1, s.2) := by
  induction us generalizing st with
  | nil => simp [allPassSamples]
  | cons u us ih => simp only [List.cons_append, allPassSamples, ih, bind_assoc, pure_bind]

/-- A stream cut into blocks has the output of the whole stream. -/
theorem blocks_eq_samples (st : AllPassState) {bs : List (List Int)}
    (hbs : ∀ b ∈ bs, b ≠ []) : allPassBlocks c st bs = allPassSamples c st bs.flatten := by
  induction bs generalizing st with
  | nil => rfl
  | cons b bs ih =>
    have hb := @allPassQMFInPlace_eq c b (List.replicate b.length 0) b.length st
      (List.length_pos_of_ne_nil (hbs b List.mem_cons_self)) le_rfl (by rw [List.length_replicate])
    rw [List.take_length, allPassQMF_eq_samples,
      List.drop_eq_nil_of_le (by rw [List.length_replicate])] at hb
    have hrest := fun st => ih st fun b' hb' => hbs b' (List.mem_cons_of_mem b hb')
    rw [allPassBlocks, List.flatten_cons, allPassSamples_append]
    simp only [hrest]
    -- what the rest needs from the first block is its output and the state after it
    have hfirst := congrArg (fun x => x >>= fun r : List Int × AllPassState =>
      allPassSamples c r.2 bs.flatten >>= fun s => pure (r.1 ++ s.1, s.2)) hb
    simpa only [bind_assoc, pure_bind, List.append_nil] using hfirst

/-- The function on its arrays gives the output and the state of the cascade
taken one sample at a time, for every block that is not empty; so does a
sequence of blocks, for the whole stream. -/
theorem inPlace_eq_samples (c : Int × Int × Int) (st : AllPassState) :
    (∀ (in_data out_data : List Int) (n : ℕ), 1 ≤ n → n ≤ in_data.length →
      n ≤ out_data.length → (allPassQMFInPlace in_data n out_data c st >>= fun r =>
        pure (r.out_data, r.filter_state)) = allPassSamples c st (in_data.take n) >>= fun r =>
          pure (r.1 ++ out_data.drop n, r.2)) ∧
      ∀ bs : List (List Int), (∀ b ∈ bs, b ≠ []) →
        allPassBlocks c st bs = allPassSamples c st bs.flatten := by
  refine ⟨fun in_data out_data n hn hin hout => ?_, fun bs => blocks_eq_samples st⟩
  rw [allPassQMFInPlace_eq st hn hin hout, allPassQMF_eq_samples]

/-- Three samples at once, and in two blocks. -/
theorem inPlace_eq_samples_three :
    allPassBlocks kAllPassFilter1 ⟨0, 0, 0, 0, 0, 0⟩ [[1024, 2048], [-4096]] =
      allPassSamples kAllPassFilter1 ⟨0, 0, 0, 0, 0, 0⟩ [1024, 2048, -4096] ∧
    (allPassQMFInPlace [1024, 2048, -4096] 3 [0, 0, 0] kAllPassFilter1 ⟨0, 0, 0, 0, 0,
      0⟩).val.out_data =
      [48, 671, 1608] :=
  ⟨(inPlace_eq_samples kAllPassFilter1 ⟨0, 0, 0, 0, 0, 0⟩).2 [[1024, 2048], [-4096]]
    (by decide), by decide⟩

end AllPassBlocks
end AgcSpec
