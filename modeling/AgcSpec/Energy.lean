/-
# The running energy drifts

`WebRtcAgc_ProcessAnalog` keeps the energies of the last ten blocks in a
circular buffer and an eighth of their sum in `Rxx160w32`, which it updates
by `(new - old) >> 3`. The shift rounds every difference down, and what it
cuts off is never given back: after any history the sum of the buffer is
eight times `Rxx160w32` plus all the remainders cut off so far
(`accounts_push`). So the running energy is within the length of the buffer
of what it stands for exactly as long as the remainders of the history add up
to 80 at most (`tied_run_iff`), and three calls are enough to go beyond
(`drifts`).
-/
import AgcSpec.Lib.Run
import AgcSpec.Lib.Window
import AgcSpec.Config

namespace AgcSpec
namespace Energy

open FixedPoint Runs Window

/-! ### The buffer -/

/-- The circular buffer of energies and the running energy. -/
structure Energies where
  vector : List Int
  pos : Int
  run : Int

/-- The energies of an instance. -/
def energies (s : LegacyAgc) : Energies := ⟨s.Rxx16_vectorw32, s.Rxx16pos, s.Rxx160w32⟩

/-- `pushEnergy` on the buffer. -/
def Energies.push (e : Energies) (x : Int) : Energies where
  vector := e.vector.set e.pos.toNat x
  pos := if e.pos + 1 = RXX_BUFFER_LEN then 0 else e.pos + 1
  run := i32 (e.run + i32 (x - e.vector.getD e.pos.toNat 0) / 2 ^ 3)

theorem energies_of_unlevelled {s t : LegacyAgc} (h : unlevelled t = unlevelled s) :
    energies t = energies s :=
  eq_of_unlevelled energies (fun _ => rfl) h

/-- The blocks of a call push their energies, one after the other. -/
theorem energies_analogBlocks (vadLogRatio lastMicVol : Int) :
    ∀ (es : List Int) (r : LegacyAgc × Int),
      energies (analogBlocks vadLogRatio lastMicVol r es).val.1 = es.foldl Energies.push
        (energies r.1)
  | [], _ => rfl
  | e :: es, r => by
    rw [analogBlocks, Chk.val_bind, energies_analogBlocks vadLogRatio lastMicVol es,
      energies_of_unlevelled (unlevelled_analogBlock vadLogRatio lastMicVol r e), List.foldl_cons]
    rfl

/-- A successful call feeds the energies of the first slot of the queue. -/
theorem energies_processAnalog {s : LegacyAgc} {inMicLevel vadLogRatio echo : Int}
    {a : AnalogResult} (h : (processAnalog s inMicLevel vadLogRatio echo).val = some a) :
    energies a.agc = (s.Rxx16w32_array0.take 5).foldl Energies.push (energies s) := by
  obtain ⟨-, rfl⟩ := processAnalog_eq_some.mp h
  have hstart := unlevelled_analogStart s inMicLevel (i32 (inMicLevel * 2 ^ s.scale.toNat))
  rw [analogCall, Chk.val_bind, Chk.val_bind, Chk.val_pure,
    energies_of_unlevelled (unlevelled_guardAndClamp _ _ _), energies_analogBlocks,
    eq_of_unlevelled LegacyAgc.Rxx16w32_array0 (fun _ => rfl) hstart, energies_of_unlevelled hstart]

/-! ### Remainders -/

/-- The buffer as `WebRtcAgc_Init` fills it. -/
def start : List Int := List.replicate 10 1000

/-- The remainders that the shift by 3 cuts off along a history, each from the
difference of an energy to the one ten before it. -/
def drift (es : List Int) : Int := (lagged (fun new old => (new - old) % 8) start es).sum

theorem drift_append {es : List Int} {x y : Int} (h : (start ++ es)[es.length]? = some y) :
    drift (es ++ [x]) = drift es + (x - y) % 8 := by
  rw [drift, lagged_append _ h, List.sum_append, List.sum_singleton, ← drift]

theorem drift_append_range : ∀ (xs es : List Int),
    drift es ≤ drift (es ++ xs) ∧ drift (es ++ xs) ≤ drift es + 7 * xs.length
  | [], es => by simp
  | x :: xs, es => by
    have hlt : es.length < (start ++ es).length := by
      simp only [start, List.length_append, List.length_replicate]
      omega
    have h1 := drift_append (x := x) (List.getElem?_eq_getElem hlt)
    have h2 := drift_append_range xs (es ++ [x])
    rw [List.append_assoc, List.singleton_append] at h2
    simp only [List.length_cons, Nat.cast_add, Nat.cast_one]
    omega

/-- An energy of a block. -/
def InRange (x : Int) : Prop := 0 ≤ x ∧ x ≤ 2 ^ 30

/-- The buffer after a history: it is the window of the last ten energies, and
as long as little is cut off, its sum is accounted for. -/
structure Accounts (es : List Int) (e : Energies) : Prop where
  pos_nonneg : 0 ≤ e.pos
  window : IsWindow start es e.vector e.pos.toNat
  range : ∀ x ∈ e.vector, InRange x
  sum : drift es ≤ 200 → 8 * e.run + drift es = e.vector.sum

theorem accounts_start : Accounts [] ⟨start, 0, 1250⟩ where
  pos_nonneg := le_rfl
  window := IsWindow.start (by decide)
  range := by
    intro x hx
    rw [List.eq_of_mem_replicate hx]
    exact ⟨by decide, by decide⟩
  sum := fun _ => by decide

/-- Ten energies have a sum of ten times the largest at most. -/
theorem sum_range {l : List Int} (h : ∀ x ∈ l, InRange x) :
    0 ≤ l.sum ∧ l.sum ≤ l.length * 2 ^ 30 := by
  constructor
  · exact List.sum_nonneg fun x hx => (h x hx).1
  · have := List.sum_le_card_nsmul l (2 ^ 30) fun x hx => (h x hx).2
    simpa using this

theorem drift_nonneg (es : List Int) : 0 ≤ drift es := by
  refine List.sum_nonneg fun x hx => ?_
  rw [lagged] at hx
  obtain ⟨i, hi, rfl⟩ := List.mem_iff_getElem.mp hx
  rw [List.getElem_zipWith]
  omega

/-- A new energy: the window moves on, and its remainder is accounted for. -/
theorem accounts_push {es : List Int} {e : Energies} (h : Accounts es e) {x : Int}
    (hx : InRange x) : Accounts (es ++ [x]) (e.push x) := by
  obtain ⟨hpos, hwin, hrange, hsum⟩ := h
  have hlen : e.vector.length = 10 := hwin.length
  have hlt := hwin.pos_lt
  set old := e.vector.getD e.pos.toNat 0 with hold
  have hget : e.vector[e.pos.toNat]? = some old := by
    rw [hold, List.getD_eq_getElem?_getD, List.getElem?_eq_getElem hlt]
    rfl
  have hdrift : drift (es ++ [x]) = drift es + (x - old) % 8 :=
    drift_append (hwin.oldest.trans hget)
  have holdr : InRange old := hrange old (List.mem_of_getElem? hget)
  refine ⟨?_, ?_, ?_, ?_⟩
  · simp only [Energies.push]
    split <;> omega
  · have hnext : (e.push x).pos.toNat = next e.vector.length e.pos.toNat := by
      have hL : RXX_BUFFER_LEN = 10 := rfl
      simp only [Energies.push, next, hlen]
      by_cases h9 : e.pos = 9
      · rw [if_pos (by omega), if_pos (by omega)]
        rfl
      · rw [if_neg (by omega), if_neg (by omega)]
        omega
    rw [hnext]
    exact hwin.push x
  · intro y hy
    rcases List.mem_or_eq_of_mem_set hy with hy | rfl
    · exact hrange y hy
    · exact hx
  · intro hd
    obtain ⟨hx0, hx1⟩ := hx
    obtain ⟨ho0, ho1⟩ := holdr
    have hacc := hsum (by omega)
    obtain ⟨hs0, hs1⟩ := sum_range hrange
    have hdn := drift_nonneg es
    rw [hlen] at hs1
    have hsumset : (e.vector.set e.pos.toNat x).sum = e.vector.sum - old + x := by
      rw [List.sum_set', dif_pos hlt, ← List.getD_eq_getElem e.vector 0 hlt, ← hold]
      ring
    have hdiff : i32 (x - old) = x - old := i32_of ⟨by omega, by omega⟩
    have hrun : i32 (e.run + (x - old) / 2 ^ 3) = e.run + (x - old) / 2 ^ 3 :=
      i32_of ⟨by omega, by omega⟩
    simp only [Energies.push, ← hold, hdiff, hrun, hsumset, hdrift]
    omega

/-! ### Calls -/

/-- The energies of the five blocks of a call. -/
structure Feed where
  blocks : List Int
  length : blocks.length = 5
  range : ∀ x ∈ blocks, InRange x

/-- The energies of a history of calls. -/
def fed (fs : List Feed) : List Int := fs.flatMap Feed.blocks

/-- A successful call of `WebRtcAgc_ProcessAnalog` on the energies of a frame,
with any level, log-ratio and echo flag. Before it, other calls may have
written whatever they like but the energy buffer, which no other function
writes; a failed call writes nothing. -/
def Call (s : LegacyAgc) (f : Feed) (t : LegacyAgc) : Prop :=
  ∃ (u : LegacyAgc) (inMicLevel vadLogRatio echo : Int) (a : AnalogResult),
    energies u = energies s ∧ u.Rxx16w32_array0 = f.blocks ∧
      (processAnalog u inMicLevel vadLogRatio echo).val = some a ∧ t = a.agc

/-- The running energy is the eighth of the sum of the buffer, up to its
length. -/
def Tied (s : LegacyAgc) : Prop :=
  |(s.Rxx160w32 : ℚ) - (s.Rxx16_vectorw32.sum : ℚ) / 8| ≤ RXX_BUFFER_LEN

theorem accounts_foldl : ∀ (xs : List Int) {es : List Int} {e : Energies}, Accounts es e →
    (∀ x ∈ xs, InRange x) → Accounts (es ++ xs) (xs.foldl Energies.push e)
  | [], es, e, h, _ => by simpa using h
  | x :: xs, es, e, h, hx => by
    have h1 := accounts_push h (hx x List.mem_cons_self)
    have h2 := accounts_foldl xs h1 fun y hy => hx y (List.mem_cons_of_mem _ hy)
    rwa [List.append_assoc, List.singleton_append] at h2

theorem accounts_call {es : List Int} {s t : LegacyAgc} {f : Feed} (h : Accounts es (energies s))
    (hc : Call s f t) : Accounts (es ++ f.blocks) (energies t) := by
  obtain ⟨u, inMicLevel, vadLogRatio, echo, a, hu, hb, ha, rfl⟩ := hc
  rw [energies_processAnalog ha, hu, hb, List.take_of_length_le f.length.le]
  exact accounts_foldl f.blocks h f.range

theorem accounts_init {mem s : LegacyAgc} {minLevel maxLevel agcMode fs : Int}
    (h : (init mem minLevel maxLevel agcMode fs).val = (s, 0)) : Accounts [] (energies s) := by
  obtain ⟨-, -, i, t, hi, -, rfl⟩ := Config.init_ok h
  subst hi
  exact accounts_start

theorem fed_append (fs : List Feed) (f : Feed) : fed (fs ++ [f]) = fed fs ++ f.blocks := by
  simp [fed]

theorem accounts_run {s t : LegacyAgc} (hs : Accounts [] (energies s)) {fs : List Feed}
    (hrun : Run Call s fs t) : Accounts (fed fs) (energies t) := by
  refine hrun.history (I := fun fs t => Accounts (fed fs) (energies t)) hs ?_
  intro fs t f u h hc
  rw [fed_append]
  exact accounts_call h hc

/-- The running energy is tied to the buffer as long as the history's
remainders add up to 80 at most. -/
theorem tied_iff {es : List Int} {s : LegacyAgc} (h : Accounts es (energies s))
    (hd : drift es ≤ 200) : Tied s ↔ drift es ≤ 80 := by
  have hsum : 8 * s.Rxx160w32 + drift es = s.Rxx16_vectorw32.sum := h.sum hd
  have h0 := drift_nonneg es
  have hq : (s.Rxx160w32 : ℚ) - (s.Rxx16_vectorw32.sum : ℚ) / 8 = -((drift es : ℚ) / 8) := by
    rw [← hsum]
    push_cast
    ring
  have hn : (0 : ℚ) ≤ (drift es : ℚ) / 8 := by positivity
  rw [Tied, hq, abs_neg, abs_of_nonneg hn, div_le_iff₀ (by norm_num)]
  exact_mod_cast Iff.rfl

/-- Along a run the first state that is not tied is found before the
remainders add up to 200. -/
theorem drift_le_of_tied {s t : LegacyAgc} (hs : Accounts [] (energies s)) {fs : List Feed}
    (hrun : Run Call s fs t) (h : ∀ pre u, pre <+: fs → Run Call s pre u → Tied u) :
    drift (fed fs) ≤ 80 := by
  induction hrun with
  | nil => decide
  | @snoc fs f t u hr hc ih =>
    have hpre := ih fun pre v hp hv => h pre v (hp.trans (List.prefix_append fs [f])) hv
    have hd := (drift_append_range f.blocks (fed fs)).2
    rw [f.length] at hd
    have hlast := h _ u List.prefix_rfl (hr.snoc hc)
    refine (tied_iff (accounts_run hs (hr.snoc hc)) ?_).mp hlast
    rw [fed_append]
    push_cast at hd
    omega

/-- In every run after `WebRtcAgc_Init`, the running energy stays tied to its
window if and only if the remainders of the energies fed add up to 80 at
most. -/
theorem tied_run_iff {mem s t : LegacyAgc} {minLevel maxLevel agcMode fs : Int} {feeds : List Feed}
    (hinit : (init mem minLevel maxLevel agcMode fs).val = (s, 0)) (hrun : Run Call s feeds t) :
    (∀ pre u, pre <+: feeds → Run Call s pre u → Tied u) ↔ drift (fed feeds) ≤ 80 := by
  have hs := accounts_init hinit
  constructor
  · exact drift_le_of_tied hs hrun
  · rintro hd pre u ⟨rest, rfl⟩ hpre
    have hle : drift (fed pre) ≤ drift (fed (pre ++ rest)) := by
      rw [fed, fed, List.flatMap_append]
      exact (drift_append_range _ _).1
    exact (tied_iff (accounts_run hs hpre) (by omega)).mpr (by omega)

/-! ### A short run that drifts -/

/-- Five blocks of the same energy. -/
def steady (x : Int) (h : InRange x) : Feed where
  blocks := List.replicate 5 x
  length := List.length_replicate
  range := fun _ hy => List.eq_of_mem_replicate hy ▸ h

/-- The instance after a call at level 127 on the energies of a frame. -/
def feed (s : LegacyAgc) (f : Feed) : LegacyAgc :=
  (analogCall { s with Rxx16w32_array0 := f.blocks } 127 (i32 (127 * 2 ^ s.scale.toNat))
    0 0).val.agc

theorem call_feed {s : LegacyAgc} (f : Feed) (h0 : s.minLevel ≤ i32 (127 * 2 ^ s.scale.toNat))
    (h1 : i32 (127 * 2 ^ s.scale.toNat) ≤ s.maxAnalog) : Call s f (feed s f) :=
  ⟨{ s with Rxx16w32_array0 := f.blocks }, 127, 0, 0, _, rfl, rfl,
    processAnalog_eq_some.mpr ⟨⟨h0, h1⟩, rfl⟩, rfl⟩

/-- The first three frames of an instance: ten energies 1007 and five energies
1006. -/
def driftingFeeds : List Feed :=
  [steady 1007 ⟨by decide, by decide⟩, steady 1007 ⟨by decide, by decide⟩,
    steady 1006 ⟨by decide, by decide⟩]

/-- After them the running energy is 1245, and the buffer's sum 10065: more
than 13 apart from an eighth of it. -/
theorem drifts :
    (init (create .cleared) 0 255 1 8000).val = (LegacyAgc.fresh 1, 0) ∧
    Run Call (LegacyAgc.fresh 1) driftingFeeds (driftingFeeds.foldl feed (LegacyAgc.fresh 1)) ∧
    (driftingFeeds.foldl feed (LegacyAgc.fresh 1)).Rxx160w32 = 1245 ∧
    (driftingFeeds.foldl feed (LegacyAgc.fresh 1)).Rxx16_vectorw32.sum = 10065 ∧
    ¬ Tied (driftingFeeds.foldl feed (LegacyAgc.fresh 1)) := by
  have hrun : (driftingFeeds.foldl feed (LegacyAgc.fresh 1)).Rxx160w32 = 1245 := by decide +kernel
  have hsum : (driftingFeeds.foldl feed (LegacyAgc.fresh 1)).Rxx16_vectorw32.sum = 10065 := by
    decide +kernel
  refine ⟨rfl, ?_, hrun, hsum, ?_⟩
  · have h1 : Run Call (LegacyAgc.fresh 1) [] (LegacyAgc.fresh 1) := .nil
    have h2 := h1.snoc (call_feed (steady 1007 ⟨by decide, by decide⟩) (by decide) (by decide))
    have h3 := h2.snoc (call_feed (steady 1007 ⟨by decide, by decide⟩) (by decide +kernel)
      (by decide +kernel))
    exact h3.snoc (call_feed (steady 1006 ⟨by decide, by decide⟩) (by decide +kernel)
      (by decide +kernel))
  · rw [Tied, hrun, hsum]
    norm_num [RXX_BUFFER_LEN, abs_of_neg]

/-- After the first of them the remainders add up to 35. -/
theorem tied_run_first :
    (init (create .cleared) 0 255 1 8000).val = (LegacyAgc.fresh 1, 0) ∧
    (∀ pre u, pre <+: driftingFeeds.take 1 → Run Call (LegacyAgc.fresh 1) pre u → Tied u) :=
  ⟨rfl, (@tied_run_iff (create .cleared) _ _ 0 255 1 8000 _ rfl
    (.one (call_feed (steady 1007 ⟨by decide, by decide⟩) (by decide) (by decide)))).mpr
      (by decide)⟩

end Energy
end AgcSpec
