/-
# The frame queue is a queue

`WebRtcAgc_AddMic` analyses a microphone frame and `WebRtcAgc_Process` works
on the analysis later; up to two frames wait in the slots of `env` and
`Rxx16w32_array`, and `inQueue` counts them. `WebRtcAgc_AddMic` chooses the
slot from `inQueue`, `WebRtcAgc_Process` moves the second slot to the first
one. For a client that keeps at most two frames waiting and processes none
that is not there, this is a first-in first-out queue (`follow_step`): what
the `k`-th `WebRtcAgc_Process` works on is what the `k`-th `WebRtcAgc_AddMic`
computed (`frames_in_order`).
-/
import AgcSpec.Lib.Fifo
import AgcSpec.Config

namespace AgcSpec
namespace FrameQueue

open FixedPoint Runs Fifo

/-- The analysis of a frame: its envelope and its energies. -/
abbrev Packet := List Int × List Int

/-- What `WebRtcAgc_AddMic` computes of the scaled bands of a frame. -/
def packetOf (s : LegacyAgc) (bands : List (List Int)) : Packet :=
  (micEnvelope s.fs bands, (micEnergies s.fs 5 s.filterState (bands.headD [])).2)

/-- The two slots. -/
def front (s : LegacyAgc) : Packet := (s.env0, s.Rxx16w32_array0)
def back (s : LegacyAgc) : Packet := (s.env1, s.Rxx16w32_array1)

/-- An instance and its client's count of frames added but not processed. -/
structure Client where
  agc : LegacyAgc
  pending : ℕ

/-- The successful calls of a client that keeps to the capacity. The events
carry what was computed and what was found. -/
inductive QStep : Client → Event Packet → Client → Prop
  | add {s : LegacyAgc} {n : ℕ} {in_mic : List (List Int)} :
    n < 2 → (addMic s in_mic).val.ret = 0 →
      QStep ⟨s, n⟩ (.enq (packetOf s (addMic s in_mic).val.bands))
        ⟨(addMic s in_mic).val.agc, n + 1⟩
  | process {s : LegacyAgc} {n : ℕ} {in_near out : List (List Int)} {inMicLevel echo : Int}
      {r : ProcessResult} : (process s in_near out inMicLevel echo).val = some r → r.ret = 0 →
      QStep ⟨s, n + 1⟩ (.deq (front s)) ⟨r.agc, n⟩

/-- The slots hold the elements of the abstract queue. -/
def Holds (s : LegacyAgc) : List Packet → Prop
  | [] => s.inQueue = 0
  | [p] => s.inQueue = 1 ∧ front s = p
  | [p, q] => s.inQueue = 2 ∧ front s = p ∧ back s = q
  | _ => False

/-- A client's state stands for a queue. -/
def Follows (c : Client) (q : List Packet) : Prop := c.pending = q.length ∧ Holds c.agc q

/-! ### One call -/

/-- A successful `WebRtcAgc_AddMic` puts its frame at the end. -/
theorem holds_addMic {s : LegacyAgc} {in_mic : List (List Int)} {q : List Packet} (hq : Holds s q)
    (hlen : q.length < 2) (h : (addMic s in_mic).val.ret = 0) :
    Holds (addMic s in_mic).val.agc (q ++ [packetOf s (addMic s in_mic).val.bands]) := by
  rcases addMic_cases s in_mic with hf | ⟨idx, bands, -, -, hs⟩
  · rw [hf] at h
    cases h
  rw [hs]
  match q, hlen with
  | [], _ =>
    have h0 : s.inQueue = 0 := hq
    simp [Holds, front, micAnalyse, packetOf, h0]
  | [p], _ =>
    obtain ⟨h1, hp⟩ := hq
    rw [← hp]
    simp [Holds, front, back, micAnalyse, packetOf, h1]

/-- The digital and the analog stage do not write the queue; after them, the
frame leaves. -/
theorem process_popQueue {s : LegacyAgc} {in_near out : List (List Int)} {inMicLevel echo : Int}
    {r : ProcessResult} (h : (process s in_near out inMicLevel echo).val = some r)
    (hr : r.ret = 0) :
    ∃ u, r.agc = popQueue u ∧ (u.inQueue, front u, back u) = (s.inQueue, front s, back s) := by
  rcases process_cases h
    with ⟨-, rfl⟩ | ⟨-, d, o, -, ⟨-, -, rfl⟩ | ⟨a, -, ha, rfl⟩ | ⟨-, rfl⟩⟩
  · cases hr
  · cases hr
  · have hu := eq_of_untouched (fun u => (u.inQueue, front u, back u)) (fun _ => rfl)
      (untouched_processAnalog ha)
    exact ⟨a.agc, rfl, hu⟩
  · exact ⟨_, rfl, rfl⟩

/-- A successful `WebRtcAgc_Process` finds the front and takes it out. -/
theorem holds_process {s : LegacyAgc} {in_near out : List (List Int)} {inMicLevel echo : Int}
    {r : ProcessResult} {p : Packet} {q : List Packet} (hq : Holds s (p :: q))
    (h : (process s in_near out inMicLevel echo).val = some r) (hr : r.ret = 0) :
    front s = p ∧ Holds r.agc q := by
  obtain ⟨u, hu, hslots⟩ := process_popQueue h hr
  obtain ⟨hn, hslots⟩ := Prod.mk.inj hslots
  obtain ⟨-, hback⟩ := Prod.mk.inj hslots
  rw [hu]
  match q, hq with
  | [], ⟨h1, hp⟩ =>
    refine ⟨hp, ?_⟩
    simp [Holds, popQueue, hn, h1]
  | [p2], ⟨h2, hp, hp2⟩ =>
    refine ⟨hp, ?_, ?_⟩
    · simp [popQueue, hn, h2]
    · rw [← hp2, ← hback]
      simp [front, back, popQueue, hn, h2]

/-! ### Runs -/

/-- Every call of a client is a step of the queue of capacity two. -/
theorem follow_step {c c' : Client} {q : List Packet} {e : Event Packet} (hq : Follows c q)
    (h : QStep c e c') : ∃ q', Fifo.Step 2 q e q' ∧ Follows c' q' := by
  obtain ⟨hn, hh⟩ := hq
  cases h with
  | add hlt hret =>
    dsimp only at hn hh
    refine ⟨_, .enq (by omega), ?_, holds_addMic hh (by omega) hret⟩
    simp [hn]
  | process hp hret =>
    match q, hn, hh with
    | p :: q, hn, hh =>
      obtain ⟨hfront, hh'⟩ := holds_process hh hp hret
      rw [hfront]
      exact ⟨q, .deq, by simpa using hn, hh'⟩

theorem follows_init {mem s : LegacyAgc} {minLevel maxLevel agcMode fs : Int}
    (h : (init mem minLevel maxLevel agcMode fs).val = (s, 0)) : Follows ⟨s, 0⟩ [] := by
  obtain ⟨-, -, i, t, hi, -, rfl⟩ := Config.init_ok h
  subst hi
  exact ⟨rfl, rfl⟩

/-- In every interleaving the `k`-th frame processed is the `k`-th frame
added, and `inQueue` is the number of frames that wait. -/
theorem frames_in_order {mem s t : LegacyAgc} {minLevel maxLevel agcMode fs : Int} {n : ℕ}
    {es : List (Event Packet)} (hinit : (init mem minLevel maxLevel agcMode fs).val = (s, 0))
    (hrun : Run QStep ⟨s, 0⟩ es ⟨t, n⟩) :
    (∀ k, k < (left es).length → (left es)[k]? = (entered es)[k]?) ∧
      t.inQueue = n ∧ (entered es).length = (left es).length + n := by
  obtain ⟨q, hq, hn, hh⟩ := hrun.simulate (R := Follows) (follows_init hinit)
    fun _ _ _ _ hq h => follow_step hq h
  dsimp only at hn hh
  refine ⟨fun k hk => run_left_getElem hq hk, ?_, ?_⟩
  · subst hn
    match q, hh with
    | [], hh => exact hh
    | [_], hh => exact hh.1
    | [_, _], hh => exact hh.1
  · rw [run_entered hq, List.length_append, hn]

/-- A loud and a quiet frame are added and one is processed: it is the loud one,
and one frame waits. -/
theorem frames_in_order_loud_quiet :
    (init (create .cleared) 0 255 1 8000).val = (LegacyAgc.fresh 1, 0) ∧
    ∃ loud quiet t, loud ≠ quiet ∧
      Run QStep ⟨LegacyAgc.fresh 1, 0⟩ [.enq loud, .enq quiet, .deq loud] ⟨t, 1⟩ ∧
        t.inQueue = 1 := by
  let s₁ := (addMic (LegacyAgc.fresh 1) loudTone).val.agc
  let s₂ := (addMic s₁ [List.replicate 80 100]).val.agc
  have hret : (process s₂ loudTone loudTone 100 0).val.map (·.ret) = some 0 := by decide +kernel
  obtain ⟨r, hr, hret⟩ := Option.map_eq_some_iff.mp hret
  have hloud : QStep ⟨LegacyAgc.fresh 1, 0⟩ _ ⟨s₁, 1⟩ :=
    @QStep.add _ 0 loudTone (by decide) (by decide +kernel)
  have hquiet : QStep ⟨s₁, 1⟩ _ ⟨s₂, 2⟩ :=
    @QStep.add _ 1 [List.replicate 80 100] (by decide) (by decide +kernel)
  have hrun := ((Run.one hloud).snoc hquiet).snoc (.process hr hret)
  obtain ⟨horder, hcount, -⟩ :=
    @frames_in_order (create .cleared) _ r.agc 0 255 1 8000 1 _ rfl hrun
  have hfront := Option.some.inj (horder 0 (by decide))
  refine ⟨rfl, _, _, r.agc, ?_, hfront ▸ hrun, hcount⟩
  decide +kernel

end FrameQueue
end AgcSpec
