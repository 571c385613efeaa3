/-
# A fresh start

`WebRtcAgc_Init` works on memory it has not cleared: `WebRtcAgc_Create` sets two
fields of what `malloc` returned, and an instance that is initialised again has
its past in it. Two fields of that memory outlive the call. `lastError` is
written on an error only and read by no function; `Rxx16w32_array[1]` is the
second slot of the energies, which `WebRtcAgc_Process` moves to the first when
two frames are in the queue, and then `WebRtcAgc_AddMic` has written it.

So states are compared up to these two (`Alike`), the slot counting only while
it is in the queue. Every function of the interface takes alike instances to
alike instances and gives the same reply, which is proved stage by stage as
"commutes with `overlay`".

* `init_forgets_iff`: whatever two instances were before, after the same
  `WebRtcAgc_Init` with a valid mode they give the same replies to every
  sequence of calls; with another mode this is not so.
* `object_memory`: what a caller sees of an audio processing object does not depend
  on the memory it is made in, up to the first use of `gain_controller_` while it
  is unassigned. The constructor leaves that pointer as it finds it, so a setting
  or the destructor before the first `Enable` is such a use (`Lifecycle`).
* `program_memory`: the program leaves the same output file whatever it finds in
  memory.
-/
import AgcSpec.Lifecycle
import AgcSpec.Program

namespace AgcSpec
namespace Restart

open FixedPoint Runs

/-! ### What initialisation leaves from before -/

/-- An instance with other contents of the two fields. -/
def overlay (e : Int) (x : List Int) (s : LegacyAgc) : LegacyAgc :=
  { s with lastError := e, Rxx16w32_array1 := x }

/-- Instances that no function tells apart: the second slot of the energies
matters while two frames are in the queue. -/
structure Alike (s t : LegacyAgc) : Prop where
  same : t = overlay t.lastError t.Rxx16w32_array1 s
  queue : 0 ≤ s.inQueue
  slot : 1 < s.inQueue → t.Rxx16w32_array1 = s.Rxx16w32_array1

theorem alike_overlay {e : Int} {x : List Int} {s : LegacyAgc} (hq : 0 ≤ s.inQueue)
    (hx : 1 < s.inQueue → x = s.Rxx16w32_array1) : Alike s (overlay e x s) := ⟨rfl, hq, hx⟩

/-! ### The analog stage -/

/-- Two branchings on one condition commute with `overlay` if their branches do. -/
theorem overlay_ite {α : Type} {e : Int} {x : List Int} {p q : Prop} [Decidable p] [Decidable q]
    {a b c d : Chk (LegacyAgc × α)} (h : p ↔ q) (ht : a.val = Prod.map (overlay e x) id c.val)
    (he : b.val = Prod.map (overlay e x) id d.val) :
    (if p then a else b).val = Prod.map (overlay e x) id (if q then c else d).val := by
  by_cases hq : q
  · rw [if_pos hq, if_pos (h.mpr hq), ht]
  · rw [if_neg hq, if_neg (mt h.mp hq), he]

section Stages

variable (e : Int) (x : List Int)

theorem overlay_firstLevel (s : LegacyAgc) (lvl : Int) :
    (firstLevel (overlay e x s) lvl).val = Prod.map (overlay e x) id (firstLevel s lvl).val :=
  overlay_ite Iff.rfl rfl rfl

theorem overlay_raiseLowLevel (s : LegacyAgc) (lvl : Int) :
    (raiseLowLevel (overlay e x s) lvl).val = Prod.map (overlay e x) id (raiseLowLevel s lvl).val :=
  overlay_ite Iff.rfl rfl rfl

theorem overlay_matchLevel (s : LegacyAgc) (inMicLevel lvl : Int) :
    matchLevel (overlay e x s) inMicLevel lvl = Prod.map (overlay e x) id
      (matchLevel s inMicLevel lvl) := by
  unfold matchLevel
  by_cases h : lvl = s.micVol
  · rw [if_neg (not_not.mpr h), if_neg (not_not.mpr (show lvl = (overlay e x s).micVol from h))]
    rfl
  rw [if_pos h, if_pos (show lvl ≠ (overlay e x s).micVol from h)]
  by_cases h' : inMicLevel = s.lastInMicLevel
  · rw [if_pos h', if_pos (show inMicLevel = (overlay e x s).lastInMicLevel from h')]
    rfl
  · rw [if_neg h', if_neg (show inMicLevel ≠ (overlay e x s).lastInMicLevel from h')]
    rfl

theorem overlay_levelIntake (s : LegacyAgc) (inMicLevel lvl : Int) :
    (levelIntake (overlay e x s) inMicLevel lvl).val =
      Prod.map (overlay e x) id (levelIntake s inMicLevel lvl).val := by
  simp only [levelIntake, Chk.val_bind, Chk.val_pure, overlay_firstLevel]
  have hdig : ∀ (t : LegacyAgc) (l : Int), digitalLevel (overlay e x t) l = digitalLevel t l :=
    fun _ _ => rfl
  simp only [Prod.map_fst, Prod.map_snd, id_eq, hdig, overlay_raiseLowLevel, overlay_matchLevel]
  set r := matchLevel (raiseLowLevel (firstLevel s lvl).val.1
    (digitalLevel (firstLevel s lvl).val.1 (firstLevel s lvl).val.2)).val.1 inMicLevel
    (raiseLowLevel (firstLevel s lvl).val.1
      (digitalLevel (firstLevel s lvl).val.1 (firstLevel s lvl).val.2)).val.2
  by_cases h : r.2 > r.1.maxLevel
  · rw [if_pos h, if_pos (show r.2 > (overlay e x r.1).maxLevel from h)]
    rfl
  · rw [if_neg h, if_neg (show ¬ r.2 > (overlay e x r.1).maxLevel from h)]
    rfl

theorem overlay_saturationStage (s : LegacyAgc) (lvl : Int) :
    (saturationStage (overlay e x s) lvl).val = Prod.map (overlay e x) id
      (saturationStage s lvl).val :=
  overlay_ite Iff.rfl rfl rfl

theorem overlay_zeroCtrl (s : LegacyAgc) (lvl : Int) :
    (zeroCtrl (overlay e x s) lvl).val = Prod.map (overlay e x) id (zeroCtrl s lvl).val :=
  overlay_ite Iff.rfl rfl rfl

theorem overlay_speakerInactiveCtrl (s : LegacyAgc) :
    speakerInactiveCtrl (overlay e x s) = overlay e x (speakerInactiveCtrl s) := by
  unfold speakerInactiveCtrl
  by_cases h : s.vadMic.stdLongTerm < 2500
  · rw [if_pos h, if_pos (show (overlay e x s).vadMic.stdLongTerm < 2500 from h)]
    rfl
  · rw [if_neg h, if_neg (show ¬ (overlay e x s).vadMic.stdLongTerm < 2500 from h)]
    rfl

theorem overlay_analogStart (s : LegacyAgc) (inMicLevel lvl : Int) :
    (analogStart (overlay e x s) inMicLevel lvl).val =
      Prod.map (overlay e x) id (analogStart s inMicLevel lvl).val := by
  simp only [analogStart, Chk.val_bind, Chk.val_pure, overlay_levelIntake, Prod.map_fst,
    Prod.map_snd, id_eq, overlay_saturationStage, overlay_zeroCtrl, overlay_speakerInactiveCtrl]
  rfl

theorem overlay_trackSpeech (s : LegacyAgc) :
    trackSpeech (overlay e x s) = overlay e x (trackSpeech s) := by
  unfold trackSpeech
  by_cases h : s.activeSpeech < 250
  · rw [if_pos h, if_pos (show (overlay e x s).activeSpeech < 250 from h)]
    rfl
  rw [if_neg h, if_neg (show ¬ (overlay e x s).activeSpeech < 250 from h)]
  by_cases h' : s.activeSpeech = 250
  · rw [if_pos h', if_pos (show (overlay e x s).activeSpeech = 250 from h')]
    rfl
  · rw [if_neg h', if_neg (show (overlay e x s).activeSpeech ≠ 250 from h')]
    rfl

theorem overlay_adaptLevel (s : LegacyAgc) (lvl lastMicVol : Int) :
    (adaptLevel (overlay e x s) lvl lastMicVol).val =
      Prod.map (overlay e x) id (adaptLevel s lvl lastMicVol).val := by
  -- above and below the two pairs of limits, the level moves or a timer does
  refine overlay_ite Iff.rfl (overlay_ite Iff.rfl rfl rfl) ?_
  refine overlay_ite Iff.rfl (overlay_ite Iff.rfl rfl rfl) ?_
  refine overlay_ite Iff.rfl (overlay_ite Iff.rfl rfl rfl) ?_
  refine overlay_ite Iff.rfl (overlay_ite Iff.rfl rfl rfl) ?_
  dsimp only
  by_cases h : s.changeToSlowMode > 4000
  · rw [if_pos h, if_pos (show (overlay e x s).changeToSlowMode > 4000 from h)]
    rfl
  · rw [if_neg h, if_neg (show ¬ (overlay e x s).changeToSlowMode > 4000 from h)]
    rfl

theorem overlay_analogBlock (vadLogRatio lastMicVol : Int) (r : LegacyAgc × Int) (nrg : Int) :
    (analogBlock vadLogRatio lastMicVol (Prod.map (overlay e x) id r) nrg).val =
      Prod.map (overlay e x) id (analogBlock vadLogRatio lastMicVol r nrg).val := by
  refine overlay_ite Iff.rfl ?_ rfl
  have hpush : pushEnergy (overlay e x r.1) nrg = overlay e x (pushEnergy r.1 nrg) := rfl
  rw [Prod.map_fst, hpush, overlay_trackSpeech, overlay_adaptLevel]
  rfl

theorem overlay_analogBlocks (vadLogRatio lastMicVol : Int) :
    ∀ (es : List Int) (r : LegacyAgc × Int),
      (analogBlocks vadLogRatio lastMicVol (Prod.map (overlay e x) id r) es).val =
        Prod.map (overlay e x) id (analogBlocks vadLogRatio lastMicVol r es).val
  | [], _ => rfl
  | nrg :: es, r => by
    rw [analogBlocks, Chk.val_bind, overlay_analogBlock,
      overlay_analogBlocks vadLogRatio lastMicVol es]
    rfl

theorem overlay_analogCall (s : LegacyAgc) (inMicLevel lvl vadLogRatio echo : Int) :
    (analogCall (overlay e x s) inMicLevel lvl vadLogRatio echo).val =
      { (analogCall s inMicLevel lvl vadLogRatio echo).val with
        agc := overlay e x (analogCall s inMicLevel lvl vadLogRatio echo).val.agc } := by
  simp only [analogCall, Chk.val_bind, Chk.val_pure, overlay_analogStart]
  obtain ⟨t, l, last, warning⟩ := (analogStart s inMicLevel lvl).val
  have hb : (analogBlocks vadLogRatio last (overlay e x t, l)
    ((overlay e x t).Rxx16w32_array0.take 5)).val =
      Prod.map (overlay e x) id
        (analogBlocks vadLogRatio last (t, l) (t.Rxx16w32_array0.take 5)).val :=
    overlay_analogBlocks e x vadLogRatio last (t.Rxx16w32_array0.take 5) (t, l)
  simp only [Prod.map_apply, id_eq, hb]
  generalize (analogBlocks vadLogRatio last (t, l) (t.Rxx16w32_array0.take 5)).val = b
  rfl

/-- The analog stage reads and writes neither field. -/
theorem overlay_processAnalog (s : LegacyAgc) (inMicLevel vadLogRatio echo : Int) :
    (processAnalog (overlay e x s) inMicLevel vadLogRatio echo).val =
      (processAnalog s inMicLevel vadLogRatio echo).val.map fun a =>
        { a with agc := overlay e x a.agc } := by
  rw [processAnalog, processAnalog, Chk.val_bind, Chk.val_bind]
  rw [show (overlay e x s).scale = s.scale from rfl, show (overlay e x s).maxAnalog =
    s.maxAnalog from rfl, show (overlay e x s).minLevel = s.minLevel from rfl]
  generalize (ck32 (inMicLevel * 2 ^ s.scale.toNat)).val = lvl
  by_cases hmax : lvl > s.maxAnalog
  · rw [if_pos hmax, if_pos hmax]
    rfl
  rw [if_neg hmax, if_neg hmax]
  by_cases hmin : lvl < s.minLevel
  · rw [if_pos hmin, if_pos hmin]
    rfl
  rw [if_neg hmin, if_neg hmin, Chk.val_bind, Chk.val_bind, overlay_analogCall]
  rfl

end Stages

/-! ### The calls -/

/-- The queue: the number of frames in it, and the second slot of the energies. -/
def queued (s : LegacyAgc) : Int × List Int := (s.inQueue, s.Rxx16w32_array1)

theorem queued_processAnalog {s : LegacyAgc} {inMicLevel vadLogRatio echo : Int} {a : AnalogResult}
    (h : (processAnalog s inMicLevel vadLogRatio echo).val = some a) : queued a.agc = queued s :=
  eq_of_untouched queued (fun _ => rfl) (untouched_processAnalog h)

/-- The queue moves up the second slot only if it is in it. -/
theorem overlay_popQueue {e : Int} {x : List Int} {s : LegacyAgc}
    (hx : 1 < s.inQueue → x = s.Rxx16w32_array1) :
    popQueue (overlay e x s) = overlay e x (popQueue s) := by
  unfold popQueue
  by_cases h : s.inQueue > 1
  · obtain rfl := hx h
    rfl
  · have h' : ¬ (overlay e x s).inQueue > 1 := h
    rw [if_neg h, if_neg h, if_neg h', if_neg h']
    rfl

theorem overlay_process {e : Int} {x : List Int} {s : LegacyAgc}
    (hx : 1 < s.inQueue → x = s.Rxx16w32_array1) (in_near out : List (List Int))
    (inMicLevel echo : Int) :
    (process (overlay e x s) in_near out inMicLevel echo).val =
      (process s in_near out inMicLevel echo).val.map fun r =>
        { r with agc := overlay e x r.agc } := by
  rw [process, process]
  have hfs : getAddFarendError (overlay e x s) (in_near.headD []).length =
      getAddFarendError s (in_near.headD []).length := rfl
  rw [hfs]
  by_cases hframe : getAddFarendError s (in_near.headD []).length ≠ 0
  · rw [if_pos hframe, if_pos hframe]
    rfl
  rw [if_neg hframe, if_neg hframe, Chk.val_bind, Chk.val_bind,
    show processDigital (overlay e x s).digitalAgc in_near (overlay e x s).fs
      (overlay e x s).lowLevelSignal = processDigital s.digitalAgc in_near s.fs s.lowLevelSignal
        from rfl]
  rcases (processDigital s.digitalAgc in_near s.fs s.lowLevelSignal).val with _ | _ | ⟨d, o⟩
  · rfl
  · rfl
  dsimp only
  rw [show ({ overlay e x s with digitalAgc := d } : LegacyAgc) =
    overlay e x { s with digitalAgc := d } from rfl]
  by_cases hrun : analogStageRuns { s with digitalAgc := d }
  · have hrun' : analogStageRuns (overlay e x { s with digitalAgc := d }) := hrun
    rw [if_pos hrun, if_pos hrun', Chk.val_bind, Chk.val_bind, overlay_processAnalog]
    rw [show (overlay e x s).vadMic.logRatio = s.vadMic.logRatio from rfl]
    rcases ha : (processAnalog { s with digitalAgc := d } inMicLevel s.vadMic.logRatio echo).val
      with _ | a
    · rfl
    obtain ⟨hq, hslot⟩ := Prod.mk.inj (queued_processAnalog ha)
    have hpop := @overlay_popQueue e x a.agc (by rw [hq, hslot]; exact hx)
    simp only [Option.map_some, Chk.val_pure, hpop]
  · have hrun' : ¬ analogStageRuns (overlay e x { s with digitalAgc := d }) := hrun
    have hpop := @overlay_popQueue e x { s with digitalAgc := d } hx
    rw [if_neg hrun, if_neg hrun', hpop]
    rfl

/-- Processing takes a frame off the queue at most, and does not write the
second slot. -/
theorem queue_process {s : LegacyAgc} {in_near out : List (List Int)} {inMicLevel echo : Int}
    {r : ProcessResult} (hq : 0 ≤ s.inQueue)
    (h : (process s in_near out inMicLevel echo).val = some r) :
    0 ≤ r.agc.inQueue ∧ r.agc.inQueue ≤ s.inQueue ∧
      r.agc.Rxx16w32_array1 = s.Rxx16w32_array1 := by
  have hpop : ∀ t : LegacyAgc, t.inQueue = s.inQueue → t.Rxx16w32_array1 = s.Rxx16w32_array1 →
      0 ≤ (popQueue t).inQueue ∧ (popQueue t).inQueue ≤ s.inQueue ∧
        (popQueue t).Rxx16w32_array1 = s.Rxx16w32_array1 := by
    intro t ht hslot
    refine ⟨?_, ?_, hslot⟩
    all_goals
      simp only [popQueue]
      split <;> omega
  rcases process_cases h
    with ⟨-, rfl⟩ | ⟨-, d, o, -, ⟨-, -, rfl⟩ | ⟨a, -, ha, rfl⟩ | ⟨-, rfl⟩⟩
  · exact ⟨hq, le_rfl, rfl⟩
  · exact ⟨hq, le_rfl, rfl⟩
  · obtain ⟨hlen, hslot⟩ := Prod.mk.inj (queued_processAnalog ha)
    exact hpop a.agc hlen hslot
  · exact hpop { s with digitalAgc := d } rfl rfl

/-- The analysis of a frame writes the slot that the frame is put in. -/
theorem alike_micAnalyse {s t : LegacyAgc} (h : Alike s t) (bands : List (List Int)) :
    Alike (micAnalyse s bands) (micAnalyse t bands) := by
  obtain ⟨hsame, hq, hslot⟩ := h
  generalize t.lastError = e at hsame
  generalize t.Rxx16w32_array1 = x at hsame hslot
  rw [hsame]
  refine ⟨rfl, ?_, ?_⟩
  · change 0 ≤ (if s.inQueue = 0 then 1 else 2 : Int)
    split <;> decide
  · intro hfull
    have hpos : s.inQueue > 0 := by
      change 1 < (if s.inQueue = 0 then 1 else 2 : Int) at hfull
      split at hfull <;> omega
    have hpos' : (overlay e x s).inQueue > 0 := hpos
    simp only [micAnalyse]
    rw [if_pos hpos, if_pos hpos']
    rfl

theorem alike_addMic {s t : LegacyAgc} (h : Alike s t) (in_mic : List (List Int)) :
    (addMic t in_mic).val.ret = (addMic s in_mic).val.ret ∧
      (addMic t in_mic).val.bands = (addMic s in_mic).val.bands ∧
      Alike (addMic s in_mic).val.agc (addMic t in_mic).val.agc := by
  have hfs : t.fs = s.fs := by rw [h.same]; rfl
  have hgain : micGain t in_mic = micGain s in_mic := by rw [h.same]; rfl
  rw [addMic, addMic]
  by_cases hlen : (in_mic.headD []).length ≠ 10 * micSubframe s.fs
  · have hlen' : (in_mic.headD []).length ≠ 10 * micSubframe t.fs := by rwa [hfs]
    rw [if_pos hlen, if_pos hlen']
    exact ⟨rfl, rfl, h⟩
  have hlen' : ¬ (in_mic.headD []).length ≠ 10 * micSubframe t.fs := by rwa [hfs]
  rw [if_neg hlen, if_neg hlen', Chk.val_bind, Chk.val_bind, hgain]
  rcases (micGain s in_mic).val with _ | ⟨idx, bands⟩
  · exact ⟨rfl, rfl, h⟩
  · have hidx : Alike { s with gainTableIdx := idx } { t with gainTableIdx := idx } :=
      ⟨congrArg (fun u : LegacyAgc => { u with gainTableIdx := idx }) h.same, h.queue, h.slot⟩
    exact ⟨rfl, rfl, alike_micAnalyse hidx bands⟩

theorem overlay_virtualEntry (e : Int) (x : List Int) (s : LegacyAgc) (in_near : List (List Int))
    (micLevelIn : Int) :
    virtualEntry (overlay e x s) in_near micLevelIn = Prod.map (overlay e x) id
      (virtualEntry s in_near micLevelIn) := by
  unfold virtualEntry virtualStart
  dsimp only
  rw [show (overlay e x s).scale = s.scale from rfl, show (overlay e x s).micRef =
    s.micRef from rfl]
  split <;> rfl

/-- The instance on which `WebRtcAgc_VirtualMic` calls `WebRtcAgc_AddMic`, for
alike instances, and the frame it calls it with. -/
theorem alike_virtualState {s t : LegacyAgc} (h : Alike s t) (in_near : List (List Int))
    (micLevelIn : Int) :
    Alike (virtualState s in_near micLevelIn) (virtualState t in_near micLevelIn) ∧
      virtualBands t in_near micLevelIn = virtualBands s in_near micLevelIn := by
  obtain ⟨hsame, hq, hslot⟩ := h
  generalize t.lastError = e at hsame
  generalize t.Rxx16w32_array1 = x at hsame hslot
  have hrun : virtualRun t in_near micLevelIn = virtualRun s in_near micLevelIn := by
    unfold virtualRun
    rw [hsame, overlay_virtualEntry]
    rfl
  have hkept : (virtualState s in_near micLevelIn).inQueue = s.inQueue ∧
      (virtualState s in_near micLevelIn).Rxx16w32_array1 = s.Rxx16w32_array1 := by
    unfold virtualState virtualEntry virtualStart
    dsimp only
    split <;> exact ⟨rfl, rfl⟩
  have hstate : virtualState t in_near micLevelIn =
      overlay e x (virtualState s in_near micLevelIn) := by
    unfold virtualState
    rw [hrun, hsame, overlay_virtualEntry]
    rfl
  refine ⟨?_, ?_⟩
  · rw [hstate]
    exact alike_overlay (by rw [hkept.1]; exact hq) (by rw [hkept.1, hkept.2]; exact hslot)
  · unfold virtualBands
    rw [hrun]

/-- A configuration is checked and set in the same way; on an error, `lastError`
is the same from then on. -/
theorem overlay_setConfig (e : Int) (x : List Int) (s : LegacyAgc) (c : WebRtcAgcConfig) :
    ∃ e', setConfig (overlay e x s) c = Prod.map (overlay e' x) id (setConfig s c) := by
  by_cases hs : s.initFlag = kInitCheck
  swap
  · refine ⟨AGC_UNINITIALIZED_ERROR, ?_⟩
    rw [setConfig, setConfig, if_pos hs,
      if_pos (show (overlay e x s).initFlag ≠ kInitCheck from hs)]
    rfl
  have hs' : (overlay e x s).initFlag = kInitCheck := hs
  by_cases hl : Config.LimiterOk c
  swap
  · exact ⟨AGC_BAD_PARAMETER_ERROR,
      by rw [Config.setConfig_limiter hs hl, Config.setConfig_limiter hs' hl]; rfl⟩
  by_cases ht : Config.TargetOk c
  swap
  · exact ⟨AGC_BAD_PARAMETER_ERROR,
      by rw [Config.setConfig_target hs hl ht, Config.setConfig_target hs' hl ht]; rfl⟩
  refine ⟨e, ?_⟩
  rw [Config.setConfig_table hs hl ht, Config.setConfig_table hs' hl ht,
    show (overlay e x s).agcMode = s.agcMode from rfl]
  rcases tableOf s.agcMode c with _ | table
  · rfl
  · rfl

theorem alike_setConfig {s t : LegacyAgc} (h : Alike s t) (c : WebRtcAgcConfig) :
    (setConfig t c).2 = (setConfig s c).2 ∧ Alike (setConfig s c).1 (setConfig t c).1 := by
  obtain ⟨e', he⟩ := overlay_setConfig t.lastError t.Rxx16w32_array1 s c
  rw [← h.same] at he
  rw [he]
  have hkept : queued (setConfig s c).1 = queued s :=
    of_setConfig (P := fun u => queued u = queued s) (fun _ => Iff.rfl) rfl c
  obtain ⟨hq, hslot⟩ := Prod.mk.inj hkept
  exact ⟨rfl, alike_overlay (by rw [hq]; exact h.queue) (by rw [hq, hslot]; exact h.slot)⟩

theorem alike_virtualMic {s t : LegacyAgc} (h : Alike s t) (in_near : List (List Int))
    (micLevelIn : Int) :
    (virtualMic t in_near micLevelIn).val.ret = (virtualMic s in_near micLevelIn).val.ret ∧
      (virtualMic t in_near micLevelIn).val.bands = (virtualMic s in_near micLevelIn).val.bands ∧
      (virtualMic t in_near micLevelIn).val.micLevelOut =
        (virtualMic s in_near micLevelIn).val.micLevelOut ∧
      Alike (virtualMic s in_near micLevelIn).val.agc
        (virtualMic t in_near micLevelIn).val.agc := by
  obtain ⟨hstate, hbands⟩ := alike_virtualState h in_near micLevelIn
  obtain ⟨hret, hout, hagc⟩ := alike_addMic hstate (virtualBands s in_near micLevelIn)
  rw [virtualMic_eq, virtualMic_eq, hbands]
  refine ⟨hret, hout, ?_, hagc⟩
  rw [hstate.same]
  rfl

theorem alike_getAddFarendError {s t : LegacyAgc} (h : Alike s t) (samples : ℕ) :
    getAddFarendError t samples = getAddFarendError s samples := by
  rw [h.same]
  rfl

theorem alike_addFarend {s t : LegacyAgc} (h : Alike s t) (in_far : List Int) :
    (addFarend t in_far).2 = (addFarend s in_far).2 ∧ Alike (addFarend s in_far).1
      (addFarend t in_far).1 := by
  rw [addFarend, addFarend, alike_getAddFarendError h]
  split
  · exact ⟨rfl, h⟩
  · refine ⟨rfl, ?_, h.queue, h.slot⟩
    exact congrArg (fun u : LegacyAgc =>
      { u with digitalAgc := addFarendToDigital u.digitalAgc in_far in_far.length })
      h.same

theorem alike_process {s t : LegacyAgc} (h : Alike s t) (in_near out : List (List Int))
    (inMicLevel echo : Int) :
    ((process s in_near out inMicLevel echo).val = none ∧
      (process t in_near out inMicLevel echo).val = none) ∨ ∃ r r',
        (process s in_near out inMicLevel echo).val = some r ∧
        (process t in_near out inMicLevel echo).val = some r' ∧ r'.ret = r.ret ∧
        r'.out = r.out ∧
        r'.outMicLevel = r.outMicLevel ∧ r'.saturationWarning = r.saturationWarning ∧
        Alike r.agc r'.agc := by
  have ht := @overlay_process t.lastError t.Rxx16w32_array1 s h.slot in_near out inMicLevel echo
  rw [← h.same] at ht
  rw [ht]
  rcases hs : (process s in_near out inMicLevel echo).val with _ | r
  · exact .inl ⟨rfl, rfl⟩
  obtain ⟨hq, hle, hslot⟩ := queue_process h.queue hs
  refine .inr ⟨r, _, rfl, rfl, rfl, rfl, rfl, rfl, alike_overlay hq fun hfull => ?_⟩
  rw [hslot]
  exact h.slot (by omega)

/-! ### Initialisation -/

/-- What `WebRtcAgc_Init` leaves with a valid mode, and the code it returns. -/
theorem init_eq (mem : LegacyAgc) (minLevel maxLevel fs : Int) {agcMode : Int}
    (hmode : 0 ≤ agcMode ∧ agcMode ≤ 3) :
    ∃ table, tableOf agcMode Config.defaultConfig = some table ∧
      (init mem minLevel maxLevel agcMode fs).val =
        ({ Config.withParams (initInstance mem (lowestLevel agcMode minLevel)
          (highestLevel agcMode maxLevel) agcMode fs).val Config.defaultConfig with
          digitalAgc := { initDigital mem.digitalAgc agcMode with gainTable := table }
          usedConfig := Config.defaultConfig
          Rxx160_LPw32 := targetLimit 20
          lowLevelSignal := 0 },
        if lowestLevel agcMode minLevel ≥ highestLevel agcMode maxLevel ∨
          u32 (highestLevel agcMode maxLevel) ≥ 2 ^ 26
          then -1 else 0) := by
  have hmode' : ¬ (agcMode < kAgcModeUnchanged ∨ agcMode > kAgcModeFixedDigital) := by
    simp only [kAgcModeUnchanged, kAgcModeFixedDigital]
    omega
  have hgain : tableOf agcMode Config.defaultConfig ≠ none := by
    rw [Ne, Config.tableOf_eq_none, not_not]
    rcases (by omega : agcMode = 0 ∨ agcMode = 1 ∨ agcMode = 2 ∨ agcMode = 3)
      with rfl | rfl | rfl | rfl <;> decide
  obtain ⟨table, htable⟩ := Option.ne_none_iff_exists'.mp hgain
  refine ⟨table, htable, ?_⟩
  rw [init, if_neg hmode', Chk.val_bind, Chk.val_pure]
  set i := (initInstance mem (lowestLevel agcMode minLevel) (highestLevel agcMode maxLevel) agcMode
    fs).val with hi
  have hflag : i.initFlag = kInitCheck := rfl
  have hset := @Config.setConfig_table i Config.defaultConfig hflag (by decide) (by decide)
  rw [show i.agcMode = agcMode from rfl, htable] at hset
  rw [initFinish, show i.defaultConfig = Config.defaultConfig from rfl, hset]
  rfl

/-- With a valid mode it leaves alike instances and returns the same code,
whatever was in memory. -/
theorem alike_init (s t : LegacyAgc) (minLevel maxLevel fs : Int) {agcMode : Int}
    (hmode : 0 ≤ agcMode ∧ agcMode ≤ 3) :
    (init t minLevel maxLevel agcMode fs).val.2 = (init s minLevel maxLevel agcMode fs).val.2 ∧
      Alike (init s minLevel maxLevel agcMode fs).val.1
        (init t minLevel maxLevel agcMode fs).val.1 := by
  obtain ⟨table, htable, hs⟩ := init_eq s minLevel maxLevel fs hmode
  obtain ⟨table', htable', ht⟩ := init_eq t minLevel maxLevel fs hmode
  obtain rfl := Option.some.inj (htable.symm.trans htable')
  rw [hs, ht]
  exact ⟨rfl, rfl, le_rfl, fun h => absurd h (by decide : ¬ (1 : Int) < 0)⟩

/-! ### Conversations -/

/-- A call of the interface, `WebRtcAgc_Init` and those that only ask
included. -/
inductive Call where
  | init (minLevel maxLevel agcMode fs : Int)
  | getConfig
  | getAddFarendError (samples : ℕ)
  | setConfig (c : WebRtcAgcConfig)
  | addMic (in_mic : List (List Int))
  | virtualMic (in_near : List (List Int)) (micLevelIn : Int)
  | addFarend (in_far : List Int)
  | process (in_near out : List (List Int)) (inMicLevel echo : Int)

/-- What the caller gets: the code, and what is written through its pointers. -/
structure Reply where
  ret : Int
  bands : List (List Int)
  level : Option Int
  warning : Option Bool
  config : Option WebRtcAgcConfig
deriving DecidableEq

/-- A reply that is a code only. -/
def Reply.code (ret : Int) : Reply := ⟨ret, [], none, none, none⟩

/-- The instance a call leaves and its reply; `none` if it does not return. -/
def Call.run (s : LegacyAgc) : Call → Option (LegacyAgc × Reply)
  | .init minLevel maxLevel agcMode fs =>
    let r := (AgcSpec.init s minLevel maxLevel agcMode fs).val
    some (r.1, .code r.2)
  | .getConfig =>
    match AgcSpec.getConfig s with
    | none => some ({ s with lastError := AGC_UNINITIALIZED_ERROR }, .code (-1))
    | some c => some (s, ⟨0, [], none, none, some c⟩)
  | .getAddFarendError samples => some (s, .code (AgcSpec.getAddFarendError s samples))
  | .setConfig c => some ((AgcSpec.setConfig s c).1, .code (AgcSpec.setConfig s c).2)
  | .addMic x =>
    let r := (AgcSpec.addMic s x).val
    some (r.agc, ⟨r.ret, r.bands, none, none, none⟩)
  | .virtualMic x l =>
    let r := (AgcSpec.virtualMic s x l).val
    some (r.agc, ⟨r.ret, r.bands, some r.micLevelOut, none, none⟩)
  | .addFarend x => some ((AgcSpec.addFarend s x).1, .code (AgcSpec.addFarend s x).2)
  | .process x out l echo =>
    (AgcSpec.process s x out l echo).val.map fun r =>
      (r.agc, ⟨r.ret, r.out, r.outMicLevel, r.saturationWarning, none⟩)

/-- The replies to a sequence of calls, up to one that does not return. -/
def replies (s : LegacyAgc) : List Call → List Reply
  | [] => []
  | c :: cs =>
    match c.run s with
    | none => []
    | some r => r.2 :: replies r.1 cs

/-- With a mode that is not valid only the digital stage and the sum of the
envelope are written. -/
theorem alike_init_rejected {s t : LegacyAgc} (h : Alike s t) {minLevel maxLevel agcMode fs : Int}
    (hmode : ¬ (0 ≤ agcMode ∧ agcMode ≤ 3)) :
    (init t minLevel maxLevel agcMode fs).val.2 = (init s minLevel maxLevel agcMode fs).val.2 ∧
      Alike (init s minLevel maxLevel agcMode fs).val.1
        (init t minLevel maxLevel agcMode fs).val.1 := by
  have hmode' : agcMode < kAgcModeUnchanged ∨ agcMode > kAgcModeFixedDigital := by
    simp only [kAgcModeUnchanged, kAgcModeFixedDigital]
    omega
  rw [init, init, if_pos hmode', if_pos hmode']
  refine ⟨rfl, ?_, h.queue, h.slot⟩
  exact congrArg (fun u : LegacyAgc =>
    { u with digitalAgc := initDigital u.digitalAgc agcMode, envSum := 0 }) h.same

/-- A call on alike instances: both return or neither does, with the same reply
and alike instances. -/
theorem alike_run {s t : LegacyAgc} (h : Alike s t) (c : Call) :
    (c.run s = none ∧ c.run t = none) ∨
      ∃ s' t' r, c.run s = some (s', r) ∧ c.run t = some (t', r) ∧ Alike s' t' := by
  cases c with
  | init minLevel maxLevel agcMode fs =>
    have hinit : (AgcSpec.init t minLevel maxLevel agcMode fs).val.2 =
      (AgcSpec.init s minLevel maxLevel agcMode fs).val.2 ∧
        Alike (AgcSpec.init s minLevel maxLevel agcMode fs).val.1
          (AgcSpec.init t minLevel maxLevel agcMode fs).val.1 := by
      by_cases hmode : 0 ≤ agcMode ∧ agcMode ≤ 3
      · exact alike_init s t minLevel maxLevel fs hmode
      · exact alike_init_rejected h hmode
    exact .inr ⟨_, _, _, rfl, by rw [Call.run, hinit.1], hinit.2⟩
  | getConfig =>
    have hget : AgcSpec.getConfig t = AgcSpec.getConfig s := by
      rw [h.same]
      rfl
    rcases hs : AgcSpec.getConfig s with _ | c
    · refine .inr ⟨{ s with lastError := AGC_UNINITIALIZED_ERROR },
        { t with lastError := AGC_UNINITIALIZED_ERROR }, .code (-1), by rw [Call.run, hs],
        by rw [Call.run, hget, hs], ?_, h.queue, h.slot⟩
      exact congrArg (fun u : LegacyAgc => { u with lastError := AGC_UNINITIALIZED_ERROR }) h.same
    · exact .inr ⟨_, _, _, by rw [Call.run, hs], by rw [Call.run, hget, hs], h⟩
  | getAddFarendError samples =>
    exact .inr ⟨_, _, _, rfl, by rw [Call.run, alike_getAddFarendError h], h⟩
  | setConfig c =>
    obtain ⟨hret, hs⟩ := alike_setConfig h c
    exact .inr ⟨_, _, _, rfl, by rw [Call.run, hret], hs⟩
  | addMic x =>
    obtain ⟨hret, hbands, hs⟩ := alike_addMic h x
    exact .inr ⟨_, _, _, rfl, by rw [Call.run, hret, hbands], hs⟩
  | virtualMic x l =>
    obtain ⟨hret, hbands, hlevel, hs⟩ := alike_virtualMic h x l
    exact .inr ⟨_, _, _, rfl, by rw [Call.run, hret, hbands, hlevel], hs⟩
  | addFarend x =>
    obtain ⟨hret, hs⟩ := alike_addFarend h x
    exact .inr ⟨_, _, _, rfl, by rw [Call.run, hret], hs⟩
  | process x out l echo =>
    rcases alike_process h x out l echo with ⟨hs, ht⟩ | ⟨r, r', hs, ht, hret, hout, hlevel,
      hwarning, hr⟩
    · exact .inl ⟨by rw [Call.run, hs]; rfl, by rw [Call.run, ht]; rfl⟩
    · refine .inr ⟨r.agc, r'.agc, _, by rw [Call.run, hs]; rfl, ?_, hr⟩
      rw [Call.run, ht, Option.map_some, hret, hout, hlevel, hwarning]

theorem replies_alike (cs : List Call) :
    ∀ {s t : LegacyAgc}, Alike s t → replies t cs = replies s cs := by
  induction cs with
  | nil => exact fun _ => rfl
  | cons c cs ih =>
    intro s t h
    rcases alike_run h c with ⟨hs, ht⟩ | ⟨s', t', r, hs, ht, h'⟩
    · rw [replies, replies, hs, ht]
    · rw [replies, replies, hs, ht]
      exact congrArg (r :: ·) (ih h')

/-- `WebRtcAgc_Init` forgets the past if and only if the mode is valid: then it
returns the same code on any two instances, and no sequence of calls after it
tells them apart. -/
theorem init_forgets_iff (minLevel maxLevel agcMode fs : Int) :
    (∀ (s t : LegacyAgc) (cs : List Call),
      replies s (.init minLevel maxLevel agcMode fs :: cs) =
        replies t (.init minLevel maxLevel agcMode fs :: cs)) ↔
      0 ≤ agcMode ∧ agcMode ≤ 3 := by
  constructor
  · intro hall
    by_contra hmode
    -- one that was initialised before still has its configuration
    have hmode' : agcMode < kAgcModeUnchanged ∨ agcMode > kAgcModeFixedDigital := by
      simp only [kAgcModeUnchanged, kAgcModeFixedDigital]
      omega
    have hrun : ∀ s : LegacyAgc, replies s [.init minLevel maxLevel agcMode fs, .getConfig] =
        [.code (-1), if s.initFlag = kInitCheck then ⟨0, [], none, none, some s.usedConfig⟩
          else .code (-1)] := by
      intro s
      by_cases hflag : s.initFlag = kInitCheck
      · simp [replies, Call.run, init, hmode', getConfig, hflag]
      · simp [replies, Call.run, init, hmode', getConfig, hflag]
    have heq := hall .cleared { LegacyAgc.cleared with initFlag := kInitCheck } [.getConfig]
    rw [hrun, hrun] at heq
    exact absurd heq (by decide)
  · intro hmode s t cs
    obtain ⟨hret, halike⟩ := alike_init t s minLevel maxLevel fs hmode
    have htail := replies_alike cs halike
    rw [replies, replies]
    dsimp only [Call.run]
    rw [hret, htail]

/-! ### The audio processing object -/

/-- Controllers with alike instances. -/
def AlikeController (c c' : GainController) : Prop :=
  Alike c.state_ c'.state_ ∧ c'.capture_level_ = c.capture_level_

/-- Gain controls that differ in what no function of the instance tells apart. -/
def Twin (g g' : GainControlImpl) : Prop :=
  g' = { g with gain_controller_ := g'.gain_controller_ } ∧
    Option.Rel AlikeController g.gain_controller_ g'.gain_controller_

/-- Results of a call on twins: twins, with the same audio and error. -/
def SameResult (r r' : GainControlImpl.Result) : Prop :=
  Twin r.gc r'.gc ∧ r'.audio = r.audio ∧ r'.error = r.error

/-- Twins have no controllers, or two that are alike. -/
theorem Twin.cases {g g' : GainControlImpl} (h : Twin g g') :
    (g.gain_controller_ = none ∧ g' = g) ∨
      ∃ c c', g.gain_controller_ = some c ∧ g' = { g with gain_controller_ := some c' } ∧
        AlikeController c c' := by
  obtain ⟨hsame, hc⟩ := h
  generalize g'.gain_controller_ = k at hsame hc
  generalize hk : g.gain_controller_ = k0 at hc
  cases hc with
  | none =>
    refine .inl ⟨rfl, ?_⟩
    rw [hsame, ← hk]
  | some hc => exact .inr ⟨_, _, rfl, hsame, hc⟩

/-- What `AnalyzeCaptureAudio` makes of the results of `WebRtcAgc_VirtualMic`. -/
theorem sameResult_virtualMic (g : GainControlImpl) {v v' : VirtualMicResult}
    (hret : v'.ret = v.ret) (hbands : v'.bands = v.bands) (hlevel : v'.micLevelOut = v.micLevelOut)
    (hagc : Alike v.agc v'.agc) :
    Option.Rel SameResult
      (some ⟨{ g with gain_controller_ := some ⟨v.agc, v.micLevelOut⟩ }, v.bands.headD [],
        if v.ret ≠ kNoError then kUnspecifiedError else kNoError⟩)
      (some ⟨{ g with gain_controller_ := some ⟨v'.agc, v'.micLevelOut⟩ }, v'.bands.headD [],
        if v'.ret ≠ kNoError then kUnspecifiedError else kNoError⟩) := by
  rw [hret, hbands]
  exact .some ⟨⟨rfl, .some ⟨hagc, hlevel⟩⟩, rfl, rfl⟩

theorem twin_analyzeCaptureAudio {g g' : GainControlImpl} (h : Twin g g') (audio : List Int) :
    Option.Rel SameResult (g.analyzeCaptureAudio audio).val (g'.analyzeCaptureAudio audio).val := by
  have hsame : Option.Rel SameResult (some ⟨g, audio, kNoError⟩)
    (some ⟨g', audio, kNoError⟩) := .some ⟨h, rfl, rfl⟩
  have hanalog : Option.Rel SameResult (some ⟨g, audio, kNotEnabledError⟩)
      (some ⟨g', audio, kNotEnabledError⟩) :=
    .some ⟨h, rfl, rfl⟩
  rcases h.cases with ⟨hnone, rfl⟩ | ⟨c, c', hg, rfl, hc, hlevel⟩
  · unfold GainControlImpl.analyzeCaptureAudio
    rw [hnone]
    split
    · exact hsame
    split
    · exact .none
    · exact hanalog
    · exact hsame
  unfold GainControlImpl.analyzeCaptureAudio
  dsimp only
  rw [hg]
  split
  · exact hsame
  split
  · obtain ⟨hret, hbands, hout, hagc⟩ := alike_virtualMic hc [audio] 0
    exact sameResult_virtualMic g hret hbands hout hagc
  · exact hanalog
  · exact hsame

theorem twin_processCaptureAudio {g g' : GainControlImpl} (h : Twin g g') (audio : List Int) :
    Option.Rel SameResult (g.processCaptureAudio audio).val (g'.processCaptureAudio audio).val := by
  have hsame : ∀ error, Option.Rel SameResult (some ⟨g, audio, error⟩)
      (some ⟨g', audio, error⟩) :=
    fun _ => .some ⟨h, rfl, rfl⟩
  rcases h.cases with ⟨hnone, rfl⟩ | ⟨c, c', hg, rfl, hc, hlevel⟩
  · unfold GainControlImpl.processCaptureAudio
    rw [hnone]
    split
    · exact hsame _
    split
    · exact hsame _
    · exact .none
  unfold GainControlImpl.processCaptureAudio
  dsimp only
  rw [hg]
  split
  · exact hsame _
  split
  · exact hsame _
  dsimp only
  rw [Chk.val_bind, Chk.val_bind, hlevel]
  rcases alike_process hc [audio] [audio] c.capture_level_ 0 with
    ⟨hs, ht⟩ | ⟨r, r', hs, ht, hret, hout, hmic, hwarning, hr⟩
  · rw [hs, ht]
    exact .none
  rw [hs, ht]
  dsimp only
  rw [hret, hout, hmic, hwarning]
  by_cases herror : r.ret ≠ kNoError
  · rw [if_pos herror, if_pos herror]
    exact .some ⟨⟨rfl, .some ⟨hr, rfl⟩⟩, rfl, rfl⟩
  · rw [if_neg herror, if_neg herror]
    exact .some ⟨⟨rfl, .some ⟨hr, rfl⟩⟩, rfl, rfl⟩

theorem twin_processHalf {g g' : GainControlImpl} (h : Twin g g') (audio : List Int) :
    Option.Rel SameResult (g.processHalf audio).val (g'.processHalf audio).val := by
  rw [GainControlImpl.processHalf, GainControlImpl.processHalf, Chk.val_bind, Chk.val_bind]
  have ha := twin_analyzeCaptureAudio h audio
  generalize (g.analyzeCaptureAudio audio).val = a, (g'.analyzeCaptureAudio audio).val = a'
    at ha ⊢
  cases ha with
  | none => exact .none
  | @some r r' hr =>
    obtain ⟨htwin, haudio, herror⟩ := hr
    dsimp only
    rw [herror]
    by_cases he : r.error ≠ kNoError
    · rw [if_pos he, if_pos he]
      exact .some ⟨htwin, haudio, herror⟩
    · rw [if_neg he, if_neg he, haudio]
      exact twin_processCaptureAudio htwin r.audio

/-- Results of `ProcessStream` on twins. -/
def SameStream (r r' : StreamResult) : Prop :=
  Twin r.apm.gain_control_ r'.apm.gain_control_ ∧ r'.data = r.data ∧ r'.error = r.error

/-- `ProcessStream` on twins: neither returns, or both do with the same data and
error. -/
theorem twin_processStream {a a' : AudioProcessingImpl} (h : Twin a.gain_control_ a'.gain_control_)
    (data : List Int) :
    Option.Rel SameStream (processStream a data).val (processStream a' data).val := by
  rw [processStream, processStream]
  by_cases hlen : data.length ≠ 160
  · rw [if_pos hlen, if_pos hlen]
    exact .some ⟨h, rfl, rfl⟩
  rw [if_neg hlen, if_neg hlen, Chk.val_bind, Chk.val_bind]
  have h0 := twin_processHalf h (data.take 80)
  generalize (a.gain_control_.processHalf (data.take 80)).val = o,
    (a'.gain_control_.processHalf (data.take 80)).val = o' at h0 ⊢
  cases h0 with
  | none => exact .none
  | @some r r' hr =>
    obtain ⟨htwin, haudio, herror⟩ := hr
    dsimp only
    rw [herror, haudio]
    by_cases he : r.error ≠ kNoError
    · rw [if_pos he, if_pos he]
      exact .some ⟨htwin, rfl, rfl⟩
    rw [if_neg he, if_neg he, Chk.val_bind, Chk.val_bind]
    have h1 := twin_processHalf htwin (data.drop 80)
    generalize (r.gc.processHalf (data.drop 80)).val = q, (r'.gc.processHalf (data.drop 80)).val =
      q' at h1 ⊢
    cases h1 with
    | none => exact .none
    | some hq => exact .some ⟨hq.1, congrArg (r.audio ++ ·) hq.2.1, hq.2.2⟩

/-- `Initialize` on twins, whatever the memory of the new controllers is. -/
theorem twin_initializeImpl {g g' : GainControlImpl} (h : Twin g g') (mem mem' : LegacyAgc)
    (n rate : Int) : Twin (g.initializeImpl mem n rate) (g'.initializeImpl mem' n rate) := by
  have hmode : ∀ m : Mode, 0 ≤ mapSetting m ∧ mapSetting m ≤ 3 := by
    intro m
    cases m <;> decide
  obtain ⟨hsame, hc⟩ := h
  generalize g'.gain_controller_ = k at hsame hc
  rw [hsame]
  unfold GainControlImpl.initializeImpl
  dsimp only
  split
  · exact ⟨rfl, hc⟩
  · obtain ⟨-, hinit⟩ :=
      alike_init (create mem) (create mem') g.minimum_capture_level_ g.maximum_capture_level_ rate
      (hmode g.mode_)
    exact ⟨rfl, .some ⟨(alike_setConfig hinit _).2, rfl⟩⟩

/-- Results of a call that sets something, on twins. -/
def SameSetting (r r' : GainControlImpl × Int) : Prop := Twin r.1 r'.1 ∧ r'.2 = r.2

theorem twin_configure {g g' : GainControlImpl} (h : Twin g g') :
    Option.Rel SameSetting g.configure g'.configure := by
  rcases h.cases with ⟨hnone, rfl⟩ | ⟨c, c', hg, rfl, hc, hlevel⟩
  · rw [GainControlImpl.configure, hnone]
    exact .none
  · obtain ⟨hret, hset⟩ := alike_setConfig hc g.config
    rw [GainControlImpl.configure, GainControlImpl.configure, hg]
    refine .some ⟨⟨rfl, .some ⟨hset, hlevel⟩⟩, ?_⟩
    exact congrArg (fun ret => if ret ≠ kNoError then ret else kNoError) hret

theorem twin_enable {g g' : GainControlImpl} (h : Twin g g') (mem mem' : LegacyAgc) (e : Bool) :
    SameSetting (g.enable mem e) (g'.enable mem' e) := by
  obtain ⟨hsame, hc⟩ := h
  generalize g'.gain_controller_ = k at hsame hc
  rw [hsame]
  unfold GainControlImpl.enable
  dsimp only
  split
  · exact ⟨twin_initializeImpl ⟨rfl, hc⟩ mem mem' _ _, rfl⟩
  · exact ⟨⟨rfl, hc⟩, rfl⟩

theorem twin_setMode {g g' : GainControlImpl} (h : Twin g g') (mem mem' : LegacyAgc) (mode : Mode) :
    SameSetting (g.setMode mem mode) (g'.setMode mem' mode) := by
  obtain ⟨hsame, hc⟩ := h
  generalize g'.gain_controller_ = k at hsame hc
  rw [hsame]
  unfold GainControlImpl.setMode
  dsimp only
  split
  · exact ⟨⟨rfl, hc⟩, rfl⟩
  · exact ⟨twin_initializeImpl ⟨rfl, hc⟩ mem mem' _ _, rfl⟩

theorem twin_setAnalogLevelLimits {g g' : GainControlImpl} (h : Twin g g') (mem mem' : LegacyAgc)
    (minimum maximum : Int) :
    SameSetting (g.setAnalogLevelLimits mem minimum maximum)
      (g'.setAnalogLevelLimits mem' minimum maximum) := by
  obtain ⟨hsame, hc⟩ := h
  generalize g'.gain_controller_ = k at hsame hc
  rw [hsame]
  unfold GainControlImpl.setAnalogLevelLimits
  dsimp only
  split
  · exact ⟨⟨rfl, hc⟩, rfl⟩
  split
  · exact ⟨⟨rfl, hc⟩, rfl⟩
  split
  · exact ⟨⟨rfl, hc⟩, rfl⟩
  · exact ⟨twin_initializeImpl ⟨rfl, hc⟩ mem mem' _ _, rfl⟩

theorem twin_setStreamAnalogLevel {g g' : GainControlImpl} (h : Twin g g') (level : Int) :
    SameSetting (g.setStreamAnalogLevel level) (g'.setStreamAnalogLevel level) := by
  obtain ⟨hsame, hc⟩ := h
  generalize g'.gain_controller_ = k at hsame hc
  rw [hsame]
  unfold GainControlImpl.setStreamAnalogLevel
  dsimp only
  split <;> exact ⟨⟨rfl, hc⟩, rfl⟩

/-- The calls that configure the controller there is, on twins. -/
theorem twin_setTargetLevelDbfs {g g' : GainControlImpl} (h : Twin g g') (level : Int) :
    Option.Rel SameSetting (g.setTargetLevelDbfs level) (g'.setTargetLevelDbfs level) := by
  unfold GainControlImpl.setTargetLevelDbfs
  split
  · exact .some ⟨h, rfl⟩
  · exact twin_configure
      ⟨congrArg (fun g : GainControlImpl => { g with target_level_dbfs_ := level }) h.1, h.2⟩

theorem twin_setCompressionGainDb {g g' : GainControlImpl} (h : Twin g g') (gain : Int) :
    Option.Rel SameSetting (g.setCompressionGainDb gain) (g'.setCompressionGainDb gain) := by
  unfold GainControlImpl.setCompressionGainDb
  split
  · exact .some ⟨h, rfl⟩
  · exact twin_configure
      ⟨congrArg (fun g : GainControlImpl => { g with compression_gain_db_ := gain }) h.1, h.2⟩

theorem twin_enableLimiter {g g' : GainControlImpl} (h : Twin g g') (e : Bool) :
    Option.Rel SameSetting (g.enableLimiter e) (g'.enableLimiter e) :=
  twin_configure ⟨congrArg (fun g : GainControlImpl => { g with limiter_enabled_ := e }) h.1,
    h.2⟩

/-! ### The life of an object -/

open Lifecycle

/-- The call, made where a new controller would find other memory. -/
def inMemory (mem : LegacyAgc) : ApmCall → ApmCall
  | .enable _ e => .enable mem e
  | .setMode _ mode => .setMode mem mode
  | .setAnalogLevelLimits _ minimum maximum => .setAnalogLevelLimits mem minimum maximum
  | c => c

/-- `kNullPointerError`. -/
def kNullPointerError : Int := -5

/-- The code a call returns and the data it leaves. -/
def returned (a : AudioProcessingImpl) : ApmCall → Option (Int × List Int)
  | .enable mem e => some ((a.gain_control_.enable mem e).2, [])
  | .setMode mem mode => some ((a.gain_control_.setMode mem mode).2, [])
  | .setTargetLevelDbfs level => (a.gain_control_.setTargetLevelDbfs level).map fun r => (r.2, [])
  | .setCompressionGainDb gain => (a.gain_control_.setCompressionGainDb gain).map fun r => (r.2, [])
  | .enableLimiter e => (a.gain_control_.enableLimiter e).map fun r => (r.2, [])
  | .setAnalogLevelLimits mem minimum maximum =>
    some ((a.gain_control_.setAnalogLevelLimits mem minimum maximum).2, [])
  | .setStreamAnalogLevel level => some ((a.gain_control_.setStreamAnalogLevel level).2, [])
  | .processStream none => some (kNullPointerError, [])
  | .processStream (some data) => (AgcSpec.processStream a data).val.map fun r => (r.error, r.data)
  | .destory => some (kNoError, [])

/-- What the getters read: every member but the controller. -/
def members (a : AudioProcessingImpl) : GainControlImpl :=
  { a.gain_control_ with gain_controller_ := none }

/-- What a caller sees of a sequence of calls: the codes, the data, and the
members after each call. The `i`-th call finds `mem i`. It ends with the object,
at a call that does not return and at a use of the unassigned pointer. -/
def seen (mem : ℕ → LegacyAgc) (i : ℕ) (a : AudioProcessingImpl) :
    List ApmCall → List (Option (Int × List Int) × Option GainControlImpl)
  | [] => []
  | c :: cs =>
    match (inMemory (mem i) c).run a with
    | none => []
    | some none => [(returned a (inMemory (mem i) c), none)]
    | some (some b) => (returned a (inMemory (mem i) c), some (members b)) :: seen mem (i + 1) b cs

/-- Objects with twins in them. -/
def TwinApm (a a' : AudioProcessingImpl) : Prop := Twin a.gain_control_ a'.gain_control_

theorem twin_create (m m' : LegacyAgc) (n rate n' rate' : Int) :
    TwinApm (.create m n rate) (.create m' n' rate') := ⟨rfl, .none⟩

theorem TwinApm.members_eq {a a' : AudioProcessingImpl} (h : TwinApm a a') :
    members a' = members a := by
  unfold members
  rw [h.1]

theorem twin_run {a a' : AudioProcessingImpl} (h : TwinApm a a') (mem mem' : LegacyAgc)
    (c : ApmCall) :
    returned a' (inMemory mem' c) = returned a (inMemory mem c) ∧
      Option.Rel (Option.Rel TwinApm) ((inMemory mem c).run a) ((inMemory mem' c).run a') := by
  have hset : ∀ {o o' : Option (GainControlImpl × Int)}, Option.Rel SameSetting o o' →
      (o'.map fun r => (r.2, ([] : List Int))) = (o.map fun r => (r.2, [])) ∧
      Option.Rel (Option.Rel TwinApm) (o.map fun r => some ⟨r.1⟩)
        (o'.map fun r => some ⟨r.1⟩) := by
    intro o o' ho
    cases ho with
    | none => exact ⟨rfl, .none⟩
    | some hr => exact ⟨congrArg (fun code => some (code, [])) hr.2, .some (.some hr.1)⟩
  cases c with
  | enable m e => exact hset (.some (twin_enable h mem mem' e))
  | setMode m mode => exact hset (.some (twin_setMode h mem mem' mode))
  | setTargetLevelDbfs level => exact hset (twin_setTargetLevelDbfs h level)
  | setCompressionGainDb gain => exact hset (twin_setCompressionGainDb h gain)
  | enableLimiter e => exact hset (twin_enableLimiter h e)
  | setAnalogLevelLimits m minimum maximum =>
    exact hset (.some (twin_setAnalogLevelLimits h mem mem' minimum maximum))
  | setStreamAnalogLevel level => exact hset (.some (twin_setStreamAnalogLevel h level))
  | processStream data =>
    cases data with
    | none => exact ⟨rfl, .some (.some h)⟩
    | some data =>
      have hp := twin_processStream h data
      simp only [inMemory, returned, ApmCall.run]
      generalize (processStream a data).val = o, (processStream a' data).val = o' at hp ⊢
      cases hp with
      | none => exact ⟨rfl, .none⟩
      | @some r r' hr =>
        obtain ⟨htwin, hdata, herror⟩ := hr
        refine ⟨?_, .some (.some htwin)⟩
        rw [Option.map_some, Option.map_some, hdata, herror]
  | destory =>
    refine ⟨rfl, ?_⟩
    have hc := h.2
    simp only [inMemory, ApmCall.run, destory]
    generalize a.gain_control_.gain_controller_ = k, a'.gain_control_.gain_controller_ = k'
      at hc ⊢
    cases hc with
    | none => exact .none
    | some _ => exact .some .none

theorem seen_twin (mem mem' : ℕ → LegacyAgc) (cs : List ApmCall) :
    ∀ (i : ℕ) {a a' : AudioProcessingImpl}, TwinApm a a' →
      seen mem' i a' cs = seen mem i a cs := by
  induction cs with
  | nil => exact fun _ _ _ _ => rfl
  | cons c cs ih =>
    intro i a a' h
    obtain ⟨hret, hrun⟩ := twin_run h (mem i) (mem' i) c
    rw [seen, seen, hret]
    generalize (inMemory (mem i) c).run a = o, (inMemory (mem' i) c).run a' = o' at hrun ⊢
    cases hrun with
    | none => rfl
    | some hb =>
      cases hb with
      | none => rfl
      | some hb =>
        dsimp only
        rw [hb.members_eq, ih (i + 1) hb]

/-- Up to the first use of the unassigned `gain_controller_`, where `seen` ends,
what a caller sees of an object does not depend on the memory it was made in, nor
on the memory its controllers are made in: not a code, not a sample and not what
a getter returns. -/
theorem object_memory (mem mem' : ℕ → LegacyAgc) (m m' : LegacyAgc) (n rate n' rate' : Int)
    (cs : List ApmCall) :
    seen mem 0 (.create m n rate) cs = seen mem' 0 (.create m' n' rate') cs := by
  exact seen_twin mem' mem cs 0 (twin_create m' m n' rate' n rate)

/-! ### The program -/

/-- What `ProcessStream` makes of the blocks of a file does not depend on the
memory. -/
theorem processAll_twin (bs : List (List Int)) : ∀ {a a' : AudioProcessingImpl}, TwinApm a a' →
    Program.processAll a' bs = Program.processAll a bs := by
  induction bs with
  | nil => exact fun _ => rfl
  | cons b bs ih =>
    intro a a' h
    have hp := twin_processStream h b
    rw [Program.processAll, Program.processAll]
    generalize (processStream a b).val = o, (processStream a' b).val = o' at hp ⊢
    cases hp with
    | none => rfl
    | @some r r' hr =>
      obtain ⟨htwin, hdata, herror⟩ := hr
      dsimp only
      rw [herror, hdata, ih htwin]

/-- The header that `Close` writes covers its buffer, if the number of samples
is one it accepts. -/
theorem close_buffer {w : Wav.WavWriter} {buf buf' : List UInt8}
    (h : Wav.Accepted w.num_channels_ w.sample_rate_ Wav.kWavFormat Wav.kBytesPerSample
      w.num_samples_)
    (hbuf : buf.length = Wav.kWavHeaderSize) (hbuf' : buf'.length = Wav.kWavHeaderSize) :
    w.close buf = w.close buf' := by
  have hdrop : buf.drop Wav.kWavHeaderSize = buf'.drop Wav.kWavHeaderSize := by
    rw [List.drop_of_length_le hbuf.le, List.drop_of_length_le hbuf'.le]
  unfold Wav.WavWriter.close Wav.WavWriter.closeHeader Wav.writeWavHeader
  rw [if_neg (not_not.mpr (Wav.checkWavParameters_iff.mpr h)), hdrop,
    if_neg (not_not.mpr (Wav.checkWavParameters_iff.mpr h))]

/-- For every file of 16-bit samples with a header that is accepted, the program
returns the same code and leaves the same file, byte for byte, whatever it finds
in memory. -/
theorem program_memory (mem mem' : Program.Memory) {input rest : List UInt8} {h : Wav.WavHeader}
    (hat : Wav.HeaderAt input h rest) (hok : (Wav.readWavHeader input).ok = true)
    (hwidth : h.bytesPerSample = 2) : Program.main mem input = Program.main mem' input := by
  have hpayload := Program.accepted_payload hat hok hwidth
  generalize hk : min (h.data.Size / 2) (rest.length / 2) / Program.kNumSamples = k
  have hfits : 2 * (Program.kNumSamples * k) ≤ 2 ^ 32 - 37 := by
    rw [← hk]
    unfold Program.kNumSamples
    omega
  have hrun : ∀ m : Program.Memory, ∃ outs w,
      Program.processAll m.apm (Program.blocks k rest) = some outs ∧
      Wav.total outs = Program.kNumSamples * k ∧
      Wav.WavWriter.writeAll ⟨8000, 1, 0, List.replicate Wav.kWavHeaderSize 0⟩ outs = some w ∧
      Program.main m input = some ⟨0, w.close m.header⟩ := by
    intro m
    obtain ⟨hremaining, hfile⟩ := Wav.new_spec hat (by omega) m.reader
    have hblocks : Program.wholeBlocks (Wav.WavReader.new m.reader input) = k := by
      rw [Program.wholeBlocks, hremaining, hfile, hwidth, hk]
    obtain ⟨outs, w, hall, hw, hloop, -, htotal⟩ :=
      @Program.loop_eq m.header k m.apm (Wav.WavReader.new m.reader input)
      ⟨8000, 1, 0, List.replicate Wav.kWavHeaderSize 0⟩ (Shipped.serving_shipped _ _ _ _)
        hblocks (by dsimp only; omega)
    rw [hfile] at hall
    refine ⟨outs, w, hall, htotal, hw, ?_⟩
    rw [Program.main, Wav.WavWriter.new, if_neg (not_not.mpr (by decide)), Option.bind_some, hloop]
  obtain ⟨outs, w, hall, htotal, hw, hmain⟩ := hrun mem
  obtain ⟨outs', w', hall', -, hw', hmain'⟩ := hrun mem'
  have htwin : TwinApm mem.apm mem'.apm :=
    (twin_enable (twin_create mem.instance0 mem'.instance0 _ _ _ _) mem.instance1
      mem'.instance1 true).1
  rw [processAll_twin _ htwin, hall] at hall'
  obtain rfl := Option.some.inj hall'
  obtain rfl := Option.some.inj (hw.symm.trans hw')
  rw [Wav.writeAll_eq outs _ (by dsimp only; omega), htotal] at hw
  obtain rfl := Option.some.inj hw
  have haccepted : Wav.Accepted 1 8000 Wav.kWavFormat Wav.kBytesPerSample
      (0 + Program.kNumSamples * k) :=
    (Wav.accepted_total_iff (Wav.checkWavParameters_iff.mp (by decide))).mpr
      ⟨Nat.mod_one _, by omega⟩
  rw [hmain, hmain', close_buffer haccepted mem.length_header mem'.length_header]

/-- A file of 161 samples in cleared memory and in memory with something in it. -/
theorem program_memory_one_block :
    Program.main ⟨.cleared, .cleared, 0, 0, ⟨0, 0, 0, 0, []⟩,
      List.replicate Wav.kWavHeaderSize 7, rfl⟩
        ((Wav.headerOf 1 8000 .kWavFormatPcm 2 161).bytes ++ List.replicate 322 1) =
      Program.main ⟨.fresh 1, .fresh 2, 5, 6, ⟨1, 2, 3, 4, [9]⟩,
        List.replicate Wav.kWavHeaderSize 0, rfl⟩
        ((Wav.headerOf 1 8000 .kWavFormatPcm 2 161).bytes ++ List.replicate 322 1) :=
  program_memory _ _ (Program.headerAt_bytes (Wav.fits_headerOf 1 8000 .kWavFormatPcm 2 161) rfl _)
    (by decide +kernel)
    (by decide)

end Restart
end AgcSpec
