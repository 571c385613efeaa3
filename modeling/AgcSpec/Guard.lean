/-
# The guard against an increase

In the adaptive analog mode the level that one call puts out comes back as the
level of the next, unless the user moves the volume. Closed in this way, a
call takes in the volume it left (`levelIntake_closed`), and when there is
echo, or zero control has fired less than 8 s ago, it does not leave a larger
one (`guarded_call`). The timer of the second case goes down by 10 ms a call
as long as the input neither saturates nor makes zero control fire again, so
that it covers the 799 calls after the one in which zero control fired
(`no_increase`).
-/
import AgcSpec.Levels

namespace AgcSpec
namespace Guard

open FixedPoint Runs Levels

/-! ### A call in the closed loop -/

/-- The last call put out the level `out`. -/
structure Closed (s : LegacyAgc) (out : Int) : Prop where
  firstCall : s.firstCall ≠ 0
  minOutput : s.minOutput ≤ s.micVol
  out_eq : out = min s.micVol s.maxAnalog

/-- The level that comes back is taken for the volume, above the analog
maximum too. -/
theorem levelIntake_closed {s : LegacyAgc} (h : LevelInv s) {out : Int} (hc : Closed s out) :
    (levelIntake s out out).val = ({ s with lastInMicLevel := out }, s.micVol) := by
  obtain ⟨hf, -, rfl⟩ := hc
  have hfirst : firstLevel s (min s.micVol s.maxAnalog) = pure (s, min s.micVol s.maxAnalog) := by
    rw [firstLevel, if_neg hf]
  have hdig : digitalLevel s (min s.micVol s.maxAnalog) = s.micVol := by
    rw [digitalLevel]
    split <;> omega
  have hraise : raiseLowLevel s s.micVol = pure (s, s.micVol) := by
    rw [raiseLowLevel, if_neg (fun h => h.1 rfl)]
  have hmatch : matchLevel s (min s.micVol s.maxAnalog) s.micVol = (s, s.micVol) := by
    rw [matchLevel, if_neg (fun h => h rfl)]
  rw [levelIntake, hfirst, pure_bind, hdig, hraise, pure_bind, hmatch, Chk.val_pure,
    if_neg (not_lt.mpr h.micVol.2)]

/-! ### The timer -/

/-- Saturation is detected in the frame. -/
def Saturates (s : LegacyAgc) : Prop := (saturationCtrl s.envSum s.env0).2 = true

/-- The frame is neither saturated nor the last of a long silence. -/
def Quiet (s : LegacyAgc) : Prop := ¬ Saturates s ∧ ¬ zeroFires s

/-- What a call's later stages do not write: the guard's timer and the mark of
the first call. -/
def marks (s : LegacyAgc) : Int × Int := (s.muteGuardMs, s.firstCall)

theorem marks_adaptLevel (s : LegacyAgc) (lvl lastMicVol : Int) :
    marks (adaptLevel s lvl lastMicVol).val.1 = marks s := by
  obtain ⟨_, _, _, _, _, _, _, _, _, _, _, _, _, h, -⟩ := adaptLevel_writes s lvl lastMicVol
  rw [h]
  rfl

theorem marks_trackSpeech (s : LegacyAgc) : marks (trackSpeech s) = marks s := by
  obtain ⟨_, _, _, h⟩ := trackSpeech_writes s
  rw [h]
  rfl

theorem marks_analogBlocks (vadLogRatio lastMicVol : Int) :
    ∀ (es : List Int) (r : LegacyAgc × Int),
      marks (analogBlocks vadLogRatio lastMicVol r es).val.1 = marks r.1
  | [], _ => rfl
  | e :: es, r => by
    rw [analogBlocks, Chk.val_bind, marks_analogBlocks vadLogRatio lastMicVol es, analogBlock]
    split
    · rw [marks_adaptLevel, marks_trackSpeech]
      rfl
    · rfl

theorem muteGuardMs_speakerInactiveCtrl (s : LegacyAgc) :
    (speakerInactiveCtrl s).muteGuardMs = s.muteGuardMs := by
  unfold speakerInactiveCtrl
  split <;> rfl

theorem firstCall_speakerInactiveCtrl (s : LegacyAgc) :
    (speakerInactiveCtrl s).firstCall = s.firstCall := by
  unfold speakerInactiveCtrl
  split <;> rfl

theorem firstCall_saturationStage (s : LegacyAgc) (lvl : Int) :
    (saturationStage s lvl).val.1.firstCall = s.firstCall := by
  unfold saturationStage
  dsimp only
  split <;> rfl

theorem firstCall_zeroCtrl (s : LegacyAgc) (lvl : Int) :
    (zeroCtrl s lvl).val.1.firstCall = s.firstCall := by
  unfold zeroCtrl
  dsimp only
  split <;> rfl

/-- The guard's timer after zero control. -/
def guardMs (s : LegacyAgc) (inMicLevel : Int) : Int :=
  (analogStart s inMicLevel (i32 (inMicLevel * 2 ^ s.scale.toNat))).val.1.muteGuardMs

/-- Zero control sets the timer when it fires, and lets it run in a quiet frame. -/
theorem muteGuardMs_analogStart (s : LegacyAgc) (inMicLevel lvl : Int) :
    (zeroFires s → (analogStart s inMicLevel lvl).val.1.muteGuardMs = kMuteGuardTimeMs) ∧
    (Quiet s → (analogStart s inMicLevel lvl).val.1.muteGuardMs =
      if s.muteGuardMs > 0 then s.muteGuardMs - 10 else s.muteGuardMs) := by
  simp only [analogStart, Chk.val_bind, Chk.val_pure, muteGuardMs_speakerInactiveCtrl]
  obtain ⟨f, v, m, -, hw⟩ := levelIntake_writes s inMicLevel lvl
  generalize (levelIntake s inMicLevel lvl).val = r at hw ⊢
  rw [saturationStage, hw]
  constructor
  · intro hz
    rw [zeroCtrl, if_pos ?_]
    · rfl
    · dsimp only
      split <;> exact hz
  · rintro ⟨hs, hz⟩
    rw [Saturates] at hs
    dsimp only
    rw [if_neg hs, Chk.val_pure, zeroCtrl, if_neg ?_]
    · rfl
    · exact hz

theorem guardMs_fires {s : LegacyAgc} (h : zeroFires s) (inMicLevel : Int) :
    guardMs s inMicLevel = kMuteGuardTimeMs := (muteGuardMs_analogStart s inMicLevel _).1 h

theorem guardMs_quiet {s : LegacyAgc} (h : Quiet s) (hms : 0 < s.muteGuardMs) (inMicLevel : Int) :
    guardMs s inMicLevel = s.muteGuardMs - 10 := by
  rw [guardMs, (muteGuardMs_analogStart s inMicLevel _).2 h, if_pos hms]

theorem firstCall_analogStart (s : LegacyAgc) (inMicLevel lvl : Int) :
    (analogStart s inMicLevel lvl).val.1.firstCall ≠ 0 := by
  obtain ⟨f, v, m, hf, hw⟩ := levelIntake_writes s inMicLevel lvl
  simp only [analogStart, Chk.val_bind, Chk.val_pure, firstCall_speakerInactiveCtrl,
    firstCall_zeroCtrl, firstCall_saturationStage, hw]
  exact hf

theorem marks_processAnalog {s : LegacyAgc} {inMicLevel vadLogRatio echo : Int} {a : AnalogResult}
    (ha : (processAnalog s inMicLevel vadLogRatio echo).val = some a) :
    a.agc.muteGuardMs = guardMs s inMicLevel ∧ a.agc.firstCall ≠ 0 := by
  obtain ⟨lvl, r, b, rfl, -, hr, hb, hagc, -⟩ := processAnalog_cases ha
  have h := marks_analogBlocks vadLogRatio r.2.2.1 (r.1.Rxx16w32_array0.take 5) (r.1, r.2.1)
  rw [hb] at h
  obtain ⟨h1, h2⟩ := Prod.mk.inj h
  rw [hagc, guardMs, hr]
  refine ⟨h1, ?_⟩
  have hf := firstCall_analogStart s inMicLevel (i32 (inMicLevel * 2 ^ s.scale.toNat))
  rw [hr] at hf
  exact fun h0 => hf (h2.symm.trans h0)

/-! ### No increase -/

theorem guardAndClamp_le {s : LegacyAgc} {echo lastMicVol : Int} (hg : guardActive s echo)
    (hm : s.minOutput ≤ lastMicVol) :
    (guardAndClamp s echo lastMicVol).micVol ≤ lastMicVol := by
  simp only [guardAndClamp, if_pos hg]
  have hv : (if s.micVol > lastMicVol then lastMicVol else s.micVol) ≤ lastMicVol := by
    split <;> omega
  generalize (if s.micVol > lastMicVol then lastMicVol else s.micVol) = v at hv
  split
  · omega
  · split <;> omega

/-- In the closed loop, with echo or with the timer running, a call does not
leave a larger volume. -/
theorem guarded_call {s : LegacyAgc} (h : LevelInv s) {out : Int} (hc : Closed s out)
    {vadLogRatio echo : Int} {a : AnalogResult}
    (ha : (processAnalog s out vadLogRatio echo).val = some a)
    (hg : echo = 1 ∨ (0 < guardMs s out ∧ guardMs s out < kMuteGuardTimeMs)) :
    a.agc.micVol ≤ s.micVol := by
  have hms := (marks_processAnalog ha).1
  have hmo := eq_of_untouched LegacyAgc.minOutput (fun _ => rfl) (untouched_processAnalog ha)
  obtain ⟨lvl, r, b, hlvl, -, hr, -, hagc, -⟩ := processAnalog_cases ha
  have hout : lvl = out := by
    have hv := h.micVol
    have h0 := h.min_nonneg
    have h1 := h.min_lt
    have h2 := h.max_le
    have ho := hc.out_eq
    rw [hlvl, h.scale, Int.toNat_zero, pow_zero, mul_one]
    exact i32_of ⟨by omega, by omega⟩
  have hlast : r.2.2.1 = s.micVol := by
    rw [← hr, hout, analogStart, Chk.val_bind, levelIntake_closed h hc]
    rfl
  rw [hagc, hlast] at hms hmo ⊢
  refine guardAndClamp_le ?_ (hmo.trans_le hc.minOutput)
  rcases hg with he | ⟨hg0, hg1⟩
  · exact .inl he
  · rw [← hms] at hg0 hg1
    exact .inr ⟨hg0, hg1⟩

/-! ### The closed loop -/

/-- An instance and the last level it put out. -/
structure Loop where
  agc : LegacyAgc
  out : Option Int

/-- A frame is added; a call fails; a call succeeds on a frame in which
saturation is detected or not, and zero control fires or not. -/
inductive Event where
  | mic
  | failed
  | call (saturates fires : Bool)
deriving DecidableEq

/-- The calls of `WebRtcAgc_AddMic` and `WebRtcAgc_Process`, with any frames,
levels and echo flags. -/
inductive LoopStep : Loop → Event → Loop → Prop
  | mic {s : LegacyAgc} {o : Option Int} {x : List (List Int)} :
      LoopStep ⟨s, o⟩ .mic ⟨(addMic s x).val.agc, o⟩
  | failed {s : LegacyAgc} {o : Option Int} {x out : List (List Int)} {l echo : Int}
    {r : ProcessResult} :
      (process s x out l echo).val = some r → r.ret = -1 →
        LoopStep ⟨s, o⟩ .failed ⟨r.agc, o⟩
  | call {s : LegacyAgc} {o : Option Int} {x out : List (List Int)} {l echo : Int}
    {r : ProcessResult} :
      (process s x out l echo).val = some r → r.ret = 0 →
      LoopStep ⟨s, o⟩ (.call (saturationCtrl s.envSum s.env0).2 (decide (zeroFires s)))
        ⟨r.agc, r.outMicLevel⟩

/-- The invariant of the loop. -/
structure LoopInv (c : Loop) : Prop where
  levels : LevelInv c.agc
  mode : c.agc.agcMode = kAgcModeAdaptiveAnalog
  closed : ∀ o, c.out = some o → Closed c.agc o

theorem closed_processAnalog {s : LegacyAgc} (h : LevelInv s) {inMicLevel vadLogRatio echo : Int}
    {a : AnalogResult} (ha : (processAnalog s inMicLevel vadLogRatio echo).val = some a) :
    Closed a.agc a.outMicLevel := by
  obtain ⟨-, hv, hout⟩ := processAnalog_spec h ha
  exact ⟨(marks_processAnalog ha).2, hv, hout⟩

/-- A successful call runs the analog stage, in this mode. -/
theorem process_ok {s : LegacyAgc} (hm : s.agcMode = kAgcModeAdaptiveAnalog)
    {x out : List (List Int)} {l echo : Int} {r : ProcessResult}
    (hr : (process s x out l echo).val = some r) (h0 : r.ret = 0) :
    ∃ d a, (processAnalog { s with digitalAgc := d } l s.vadMic.logRatio echo).val = some a ∧
      r.agc = popQueue a.agc ∧ r.outMicLevel = some a.outMicLevel := by
  have hruns : analogStageRuns s := by
    rw [analogStageRuns, hm]
    exact ⟨by decide, .inr (by decide)⟩
  rcases process_cases hr
    with ⟨-, rfl⟩ | ⟨-, d, o, -, ⟨-, -, rfl⟩ | ⟨a, -, ha, rfl⟩ | ⟨hn, rfl⟩⟩
  · cases h0
  · cases h0
  · exact ⟨d, a, ha, rfl, rfl⟩
  · exact absurd hruns hn

/-- A failed call writes nothing but the state of the digital stage. -/
theorem process_failed {s : LegacyAgc} {x out : List (List Int)} {l echo : Int} {r : ProcessResult}
    (hr : (process s x out l echo).val = some r) (h0 : r.ret = -1) :
    ∃ d, r.agc = { s with digitalAgc := d } := by
  rcases process_cases hr
    with ⟨-, rfl⟩ | ⟨-, d, o, -, ⟨-, -, rfl⟩ | ⟨a, -, ha, rfl⟩ | ⟨hn, rfl⟩⟩
  · exact ⟨s.digitalAgc, rfl⟩
  · exact ⟨d, rfl⟩
  · cases h0
  · cases h0

theorem loopInv_step {c c' : Loop} {e : Event} (h : LoopInv c) (hs : LoopStep c e c') :
    LoopInv c' := by
  obtain ⟨hl, hm, hc⟩ := h
  cases hs with
  | @mic s o x =>
    refine ⟨levelInv_addMic hl x, (congrArg Ranges.agcMode (ranges_addMic s x)).trans hm, ?_⟩
    intro o' ho
    have hcl := hc o' ho
    rcases addMic_cases s x with hr | ⟨idx, bands, -, -, hr⟩
    · rw [hr]
      exact hcl
    · rw [hr]
      exact ⟨hcl.firstCall, hcl.minOutput, hcl.out_eq⟩
  | @failed s o x out l echo r hr h0 =>
    obtain ⟨d, hd⟩ := process_failed hr h0
    rw [hd]
    exact ⟨{ hl with }, hm, fun o' ho => ⟨(hc o' ho).firstCall, (hc o' ho).minOutput,
      (hc o' ho).out_eq⟩⟩
  | @call s o x out l echo r hr h0 =>
    obtain ⟨d, a, ha, hagc, hout⟩ := process_ok hm hr h0
    have hd : LevelInv { s with digitalAgc := d } := { hl with }
    have hcl := closed_processAnalog hd ha
    refine ⟨levelInv_process hl hr, (congrArg Ranges.agcMode (ranges_process hr)).trans hm, ?_⟩
    intro o' ho
    dsimp only at ho ⊢
    rw [hout] at ho
    cases ho
    rw [hagc]
    exact ⟨hcl.firstCall, hcl.minOutput, hcl.out_eq⟩

/-! ### The timer in the loop -/

/-- The successful calls of a history. -/
def calls (es : List Event) : ℕ := es.countP fun e => e matches .call _ _

/-- A call on a frame that is neither saturated nor the last of a silence. -/
def Event.Quiet (e : Event) : Prop :=
  ∀ sat fires, e = .call sat fires → sat = false ∧ fires = false

/-- A timer that was set runs down by 10 ms in a quiet call, and no other call
writes it. -/
theorem muteGuardMs_step {c c' : Loop} {e : Event} (h : LoopInv c) (hs : LoopStep c e c')
    (he : e.Quiet)
    (hms : 0 < c.agc.muteGuardMs) : c'.agc.muteGuardMs = c.agc.muteGuardMs - 10 * calls [e] := by
  cases hs with
  | @mic s o x =>
    rcases addMic_cases s x with hr | ⟨idx, bands, -, -, hr⟩
    · rw [hr]
      simp [calls]
    · rw [hr]
      simp [calls, micAnalyse]
  | @failed s o x out l echo r hr h0 =>
    obtain ⟨d, hd⟩ := process_failed hr h0
    rw [hd]
    simp [calls]
  | @call s o x out l echo r hr h0 =>
    obtain ⟨hsat, hfire⟩ := he _ _ rfl
    obtain ⟨d, a, ha, hagc, -⟩ := process_ok h.mode hr h0
    have hq : Quiet { s with digitalAgc := d } :=
      ⟨fun hc => Bool.false_ne_true (hsat.symm.trans hc), of_decide_eq_false hfire⟩
    have h1 := (marks_processAnalog ha).1
    rw [guardMs_quiet hq hms] at h1
    rw [hagc]
    simpa [calls, popQueue] using h1

/-- A call in which zero control fires sets the timer. -/
theorem muteGuardMs_fires {c c' : Loop} {sat : Bool} (h : LoopInv c)
    (hs : LoopStep c (.call sat true) c') : c'.agc.muteGuardMs = kMuteGuardTimeMs := by
  generalize he : Event.call sat true = e at hs
  cases hs with
  | mic => cases he
  | failed => cases he
  | @call s o x out l echo r hr h0 =>
    obtain ⟨-, hf⟩ := Event.call.inj he
    have hz : zeroFires s := of_decide_eq_true hf.symm
    obtain ⟨d, a, ha, hagc, -⟩ := process_ok h.mode hr h0
    have hz' : zeroFires { s with digitalAgc := d } := hz
    have h1 := (marks_processAnalog ha).1
    rw [guardMs_fires hz'] at h1
    rw [hagc]
    exact h1

/-- From the call in which zero control fires, the timer counts the calls. -/
theorem muteGuardMs_run {c c' : Loop} {es : List Event} (h : LoopInv c)
    (hms : c.agc.muteGuardMs = kMuteGuardTimeMs) (hrun : Run LoopStep c es c')
    (hq : ∀ e ∈ es, e.Quiet)
    (hn : calls es < 800) : c'.agc.muteGuardMs = 8000 - 10 * calls es := by
  induction hrun with
  | nil => exact hms
  | @snoc es e c1 c2 hr hs ih =>
    have hsplit : calls (es ++ [e]) = calls es + calls [e] := List.countP_append
    have ih := ih (fun e' he' => hq e' (List.mem_append_left _ he')) (by omega)
    have hi : LoopInv c1 := hr.invariant h fun _ _ _ => loopInv_step
    rw [muteGuardMs_step hi hs (hq e (by simp)) (by omega), ih, hsplit]
    push_cast
    ring

/-- A call with the level that the last one put out succeeds. -/
theorem closed_call {s : LegacyAgc} (h : LevelInv s) {out : Int} (hc : Closed s out)
    (vadLogRatio echo : Int) : ∃ a, (processAnalog s out vadLogRatio echo).val = some a := by
  refine ⟨_, processAnalog_eq_some.mpr ⟨?_, rfl⟩⟩
  have hv := h.micVol
  have h0 := h.min_nonneg
  have h1 := h.min_lt
  have h2 := h.max_le
  have ho := hc.out_eq
  rw [h.scale, Int.toNat_zero, pow_zero, mul_one, i32_of ⟨by omega, by omega⟩]
  omega

theorem loopInv_init {mem s : LegacyAgc} {minLevel maxLevel fs : Int} (h0 : 0 ≤ minLevel)
    (h1 : minLevel < maxLevel) (h2 : maxLevel ≤ 65535)
    (h : (init mem minLevel maxLevel kAgcModeAdaptiveAnalog fs).val = (s, 0)) :
    LoopInv ⟨s, none⟩ := by
  obtain ⟨hl, hm⟩ := levelInv_init (levels_range kAgcModeAdaptiveAnalog h0 h1 h2) h
  exact ⟨hl, hm, fun o ho => by cases ho⟩

/-- In the closed loop of the adaptive analog mode a call with echo, or with
the guard's timer running, does not raise the volume. After a call in which
zero control fires, this covers the next 799 calls, as long as saturation is
not detected and zero control does not fire again. -/
theorem no_increase {mem s t : LegacyAgc} {minLevel maxLevel fs : Int} {o : Option Int}
    {es : List Event} (h0 : 0 ≤ minLevel) (h1 : minLevel < maxLevel) (h2 : maxLevel ≤ 65535)
    (hinit : (init mem minLevel maxLevel kAgcModeAdaptiveAnalog fs).val = (s, 0))
    (hrun : Run LoopStep ⟨s, none⟩ es ⟨t, o⟩) :
    (∀ (out : Int) (d : DigitalAgc) (vadLogRatio echo : Int), o = some out →
      ∃ a, (processAnalog { t with digitalAgc := d } out vadLogRatio echo).val = some a ∧
        ((echo = 1 ∨ (0 < guardMs { t with digitalAgc := d } out ∧
          guardMs { t with digitalAgc := d } out < kMuteGuardTimeMs)) →
            a.agc.micVol ≤ t.micVol)) ∧
    (∀ c sat es' u out, LoopStep ⟨t, o⟩ (.call sat true) c →
      Run LoopStep c es' ⟨u, some out⟩ → (∀ e ∈ es', e.Quiet) →
      calls es' < 799 → Quiet u →
      ∀ (d : DigitalAgc) (vadLogRatio echo : Int),
        ∃ a, (processAnalog { u with digitalAgc := d } out vadLogRatio echo).val = some a ∧
          a.agc.micVol ≤ u.micVol) := by
  have hinv := hrun.invariant (loopInv_init h0 h1 h2 hinit) fun _ _ _ => loopInv_step
  constructor
  · rintro out d vadLogRatio echo rfl
    have hl : LevelInv { t with digitalAgc := d } := { hinv.levels with }
    have hc : Closed { t with digitalAgc := d } out := { hinv.closed out rfl with }
    obtain ⟨a, ha⟩ := closed_call hl hc vadLogRatio echo
    exact ⟨a, ha, fun hg => guarded_call hl hc ha hg⟩
  · intro c sat es' u out hfire hrun' hq hn hqu d vadLogRatio echo
    have hc := loopInv_step hinv hfire
    have hms := muteGuardMs_fires hinv hfire
    have hinv' := hrun'.invariant hc fun _ _ _ => loopInv_step
    have hl : LevelInv { u with digitalAgc := d } := { hinv'.levels with }
    have hcl : Closed { u with digitalAgc := d } out := { hinv'.closed out rfl with }
    obtain ⟨a, ha⟩ := closed_call hl hcl vadLogRatio echo
    refine ⟨a, ha, guarded_call hl hcl ha (.inr ?_)⟩
    have hu : u.muteGuardMs = 8000 - 10 * calls es' := muteGuardMs_run hc hms hrun' hq (by omega)
    have hqd : Quiet { u with digitalAgc := d } := hqu
    rw [guardMs_quiet hqd (by dsimp only; omega), kMuteGuardTimeMs]
    dsimp only
    omega

/-- A silent frame at level 127, and a second call with echo. -/
theorem no_increase_echo :
    ∃ r a, (process (LegacyAgc.fresh 1) [List.replicate 80 0] [List.replicate 80 0] 127 0).val =
      some r ∧
      r.outMicLevel = some 127 ∧ (processAnalog r.agc 127 0 1).val = some a ∧
      a.agc.micVol ≤ r.agc.micVol := by
  have hval : ((process (LegacyAgc.fresh 1) [List.replicate 80 0] [List.replicate 80 0]
    127 0).val.map
      fun r => (r.ret, r.outMicLevel)) = some (0, some 127) := by
    decide +kernel
  obtain ⟨r, hr, hv⟩ := Option.map_eq_some_iff.mp hval
  obtain ⟨hret, hout⟩ := Prod.mk.inj hv
  have hrun : Run LoopStep ⟨LegacyAgc.fresh 1, none⟩ _ ⟨r.agc, r.outMicLevel⟩ :=
    .one (.call hr hret)
  obtain ⟨a, ha, hle⟩ :=
    (@no_increase (create .cleared) _ _ 0 255 8000 _ _ (by decide) (by decide)
      (by decide) rfl hrun).1 127 r.agc.digitalAgc 0 1 hout
  exact ⟨r, a, hr, hout, ha, hle (.inl rfl)⟩

end Guard
end AgcSpec
