/-
# The level of a frame

In the adaptive analog mode the multi-channel gain control wants a level for
every frame: `set_stream_analog_level` sets a flag, `ProcessCaptureAudio`
refuses to work without it and clears it on success. The flag says that a
level was set since the last frame (`flag_iff`), whatever else was called in
between: changes of mode, of the limits and of the format leave it alone, and
so does a frame that fails.

It does not say that the level was accepted. `set_stream_analog_level` sets
the flag before it looks at the level, so a frame is processed after a level
that was refused, with the level of the frame before (`gate_open_iff`,
`refused_level_opens`).
-/
import AgcSpec.Lib.Run
import AgcSpec.MultiChannel

namespace AgcSpec
namespace LevelProtocol

open Runs MultiChannel

/-! ### Events -/

/-- The error a call returns. The calls that return nothing have none. -/
def error (g : MultiChannel.GainControlImpl) : Call → Option Int
  | .enable mem e => (g.enable mem e).map (·.2)
  | .initializeImpl _ _ _ => some kNoError
  | .setMode mem mode => (g.setMode mem mode).map (·.2)
  | .setAnalogLevelLimits mem minimum maximum =>
    (g.setAnalogLevelLimits mem minimum maximum).map (·.2)
  | .setStreamAnalogLevel level => some (g.setStreamAnalogLevel level).2
  | .setTargetLevelDbfs level => some (g.setTargetLevelDbfs level).2
  | .setCompressionGainDb gain => some (g.setCompressionGainDb gain).2
  | .enableLimiter e => some (g.enableLimiter e).2
  | .processRenderAudio _ => some kNoError
  | .analyzeCaptureAudio audio => (g.analyzeCaptureAudio audio).map (·.error)
  | .processCaptureAudio audio echo => (g.processCaptureAudio audio echo).map (·.error)

/-- A call, the error it returned, and whether the object was enabled. -/
structure Event where
  call : Call
  enabled : Bool
  error : Int

/-- A call of `set_stream_analog_level`. -/
def Event.isLevel (e : Event) : Bool := match e.call with
  | .setStreamAnalogLevel _ => true
  | _ => false

/-- A level that was accepted. -/
def Event.accepted (e : Event) : Bool := e.isLevel && decide (e.error = kNoError)

/-- A frame that was processed. A disabled object returns without an error,
too, but does nothing. -/
def Event.processed (e : Event) : Bool := match e.call with
  | .processCaptureAudio _ _ => e.enabled && decide (e.error = kNoError)
  | _ => false

/-- A call that returns, as an event. -/
def EventStep (g : MultiChannel.GainControlImpl) (e : Event) (g' : MultiChannel.GainControlImpl) :
    Prop :=
  CallStep g e.call g' ∧ error g e.call = some e.error ∧ e.enabled = g.enabled_

/-- The events since the last frame that was processed, the latest first. -/
def sinceProcessed (es : List Event) : List Event := es.reverse.takeWhile fun e => !e.processed

theorem sinceProcessed_append (es : List Event) (e : Event) :
    sinceProcessed (es ++ [e]) = if e.processed then [] else e :: sinceProcessed es := by
  rw [sinceProcessed, List.reverse_append, List.reverse_singleton, List.singleton_append,
    List.takeWhile_cons]
  cases e.processed <;> rfl

/-! ### The flag -/

section Flag

variable {g g' : MultiChannel.GainControlImpl}

theorem flag_initializeImpl (mem : ℕ → LegacyAgc) (n : ℕ) (rate : Int) :
    (g.initializeImpl mem n rate).was_analog_level_set_ = g.was_analog_level_set_ := by
  unfold MultiChannel.GainControlImpl.initializeImpl
  dsimp only
  split <;> rfl

theorem flag_startAgain {mem : ℕ → LegacyAgc} (h : g.startAgain mem = some g') :
    g'.was_analog_level_set_ = g.was_analog_level_set_ := by
  unfold MultiChannel.GainControlImpl.startAgain at h
  split at h
  · obtain rfl := Option.some.inj h
    exact flag_initializeImpl _ _ _
  · cases h

/-- The flag is set before the level is checked. -/
theorem flag_setStreamAnalogLevel (level : Int) :
    (g.setStreamAnalogLevel level).1.was_analog_level_set_ = true := by
  unfold MultiChannel.GainControlImpl.setStreamAnalogLevel
  dsimp only
  split <;> rfl

theorem flag_setTargetLevelDbfs (level : Int) :
    (g.setTargetLevelDbfs level).1.was_analog_level_set_ = g.was_analog_level_set_ := by
  unfold MultiChannel.GainControlImpl.setTargetLevelDbfs
  split <;> rfl

theorem flag_setCompressionGainDb (gain : Int) :
    (g.setCompressionGainDb gain).1.was_analog_level_set_ = g.was_analog_level_set_ := by
  unfold MultiChannel.GainControlImpl.setCompressionGainDb
  split <;> rfl

theorem flag_processRenderAudio (x : List Int) :
    (g.processRenderAudio x).was_analog_level_set_ = g.was_analog_level_set_ := by
  unfold MultiChannel.GainControlImpl.processRenderAudio
  split <;> rfl

theorem flag_analyzeCaptureAudio {audio : List (List (List Int))}
    {r : MultiChannel.GainControlImpl.Result} (h : g.analyzeCaptureAudio audio = some r) :
    r.gc.was_analog_level_set_ = g.was_analog_level_set_ := by
  unfold MultiChannel.GainControlImpl.analyzeCaptureAudio at h
  split at h
  · obtain rfl := Option.some.inj h
    rfl
  split at h
  · cases h
  split at h
  · obtain ⟨l, -, rfl⟩ := Option.map_eq_some_iff.mp h
    rfl
  · obtain ⟨l, -, rfl⟩ := Option.map_eq_some_iff.mp h
    rfl
  · obtain rfl := Option.some.inj h
    rfl

/-- A frame clears the flag if it is processed, and leaves it otherwise. -/
theorem flag_processCaptureAudio {audio : List (List (List Int))} {echo : Bool}
    {r : MultiChannel.GainControlImpl.Result} (h : g.processCaptureAudio audio echo = some r) :
    r.gc.was_analog_level_set_ = if g.enabled_ ∧ r.error = kNoError then false
      else g.was_analog_level_set_ := by
  unfold MultiChannel.GainControlImpl.processCaptureAudio at h
  split at h
  · rename_i hoff
    obtain rfl := Option.some.inj h
    rw [if_neg fun hc => hoff hc.1]
  split at h
  · obtain rfl := Option.some.inj h
    rw [if_neg fun hc => absurd hc.2 (show kStreamParameterNotSetError ≠ kNoError by decide)]
  split at h
  · cases h
  rename_i hon _ _
  have hon := not_not.mp hon
  obtain ⟨l, -, hl⟩ := Option.bind_eq_some_iff.mp h
  dsimp only at hl
  split at hl
  · rename_i herr
    obtain rfl := Option.some.inj hl
    rw [if_neg fun hc => herr hc.2]
  split at hl
  · obtain ⟨level, -, rfl⟩ := Option.map_eq_some_iff.mp hl
    rw [if_pos ⟨hon, rfl⟩]
  · obtain rfl := Option.some.inj hl
    rw [if_pos ⟨hon, rfl⟩]

end Flag

theorem flag_step {g g' : MultiChannel.GainControlImpl} {e : Event} (h : EventStep g e g') :
    g'.was_analog_level_set_ = if e.processed then false else if e.isLevel then true
      else g.was_analog_level_set_ := by
  obtain ⟨hrun, herr, hon⟩ := h
  obtain ⟨call, enabled, err⟩ := e
  dsimp only at hrun herr hon
  cases call with
  | enable mem e =>
    rcases MultiChannel.GainControlImpl.enable_cases hrun with ⟨-, rfl⟩ | hagain
    · rfl
    · have hflag := flag_startAgain hagain
      exact hflag
  | initializeImpl mem n r =>
    obtain rfl := Option.some.inj hrun
    exact flag_initializeImpl mem n r
  | setMode mem mode =>
    rcases MultiChannel.GainControlImpl.setMode_cases hrun with rfl | hagain
    · rfl
    · have hflag := flag_startAgain hagain
      exact hflag
  | setAnalogLevelLimits mem minimum maximum =>
    rcases MultiChannel.GainControlImpl.setAnalogLevelLimits_cases hrun with rfl | ⟨-, hagain⟩
    · rfl
    · have hflag := flag_startAgain hagain
      exact hflag
  | setStreamAnalogLevel level =>
    obtain rfl := Option.some.inj hrun
    exact flag_setStreamAnalogLevel level
  | setTargetLevelDbfs level =>
    obtain rfl := Option.some.inj hrun
    exact flag_setTargetLevelDbfs level
  | setCompressionGainDb gain =>
    obtain rfl := Option.some.inj hrun
    exact flag_setCompressionGainDb gain
  | enableLimiter e =>
    obtain rfl := Option.some.inj hrun
    rfl
  | processRenderAudio x =>
    obtain rfl := Option.some.inj hrun
    exact flag_processRenderAudio x
  | analyzeCaptureAudio audio =>
    obtain ⟨r, hr, rfl⟩ := Option.map_eq_some_iff.mp hrun
    exact flag_analyzeCaptureAudio hr
  | processCaptureAudio audio echo =>
    obtain ⟨r, hr, rfl⟩ := Option.map_eq_some_iff.mp hrun
    obtain rfl : r.error = err := by
      rw [error, hr] at herr
      exact Option.some.inj herr
    rw [flag_processCaptureAudio hr]
    simp [Event.processed, Event.isLevel, hon]

/-- The flag says that a level was set since the last frame. -/
theorem flag_iff {es : List Event} {g : MultiChannel.GainControlImpl}
    (h : Run EventStep .new es g) :
    g.was_analog_level_set_ = true ↔ ∃ e ∈ sinceProcessed es, e.isLevel = true := by
  refine h.history (I := fun es g => g.was_analog_level_set_ = true ↔ ∃ e ∈ sinceProcessed es,
    e.isLevel = true) ?_ ?_
  · simp [sinceProcessed, MultiChannel.GainControlImpl.new]
  · intro es g e g' ih hstep
    rw [flag_step hstep, sinceProcessed_append]
    cases e.processed with
    | true => simp
    | false =>
      cases hl : e.isLevel with
      | true => simp [hl]
      | false => simp [hl, ih]

theorem error_forChannels {f : GainController → List (List Int) → Option ChannelResult} :
    ∀ {ks : List GainController} {audio : List (List (List Int))} {l : LoopResult},
      forChannels f ks audio = some l → l.error = kNoError ∨ l.error = kUnspecifiedError
  | [], audio, l, h => by
    obtain rfl := Option.some.inj h
    exact .inl rfl
  | k :: ks, audio, l, h => by
    rw [forChannels] at h
    split at h
    · cases h
    split at h
    · obtain rfl := Option.some.inj h
      exact .inr rfl
    · obtain ⟨l', hl', rfl⟩ := Option.map_eq_some_iff.mp h
      have herr := error_forChannels hl'
      exact herr

/-- An enabled object in the adaptive analog mode refuses a frame exactly while
the flag is down. -/
theorem refuses_iff {g : MultiChannel.GainControlImpl} (hon : g.enabled_ = true)
    (hmode : g.mode_ = .kAdaptiveAnalog) (audio : List (List (List Int))) (echo : Bool) :
    (g.processCaptureAudio audio echo).map (·.error) = some kStreamParameterNotSetError ↔
      g.was_analog_level_set_ = false := by
  unfold MultiChannel.GainControlImpl.processCaptureAudio
  rw [if_neg (not_not.mpr hon)]
  constructor
  · intro h
    by_contra hset
    rw [if_neg fun hc => hset (Bool.eq_false_iff.mpr hc.2)] at h
    split at h
    · cases h
    obtain ⟨r, hr, herr⟩ := Option.map_eq_some_iff.mp h
    obtain ⟨l, hl, hr⟩ := Option.bind_eq_some_iff.mp hr
    dsimp only at hr
    rw [if_pos hmode] at hr
    split at hr
    · -- the only error of the channels is the unspecified one
      obtain rfl := Option.some.inj hr
      have := error_forChannels hl
      dsimp only at herr
      rw [herr] at this
      revert this
      decide
    · obtain ⟨level, -, rfl⟩ := Option.map_eq_some_iff.mp hr
      cases herr
  · intro hset
    rw [if_pos ⟨hmode, by rw [hset]; decide⟩]
    rfl

/-! ### The frame and the level -/

/-- When a frame is not refused for want of a level: since the last frame that
was processed a level has been set. That is a level that was accepted exactly
if not all of the levels since were refused. -/
theorem gate_open_iff {es : List Event} {g : MultiChannel.GainControlImpl}
    (hrun : Run EventStep .new es g) (hon : g.enabled_ = true) (hmode : g.mode_ = .kAdaptiveAnalog)
    (audio : List (List (List Int))) (echo : Bool) :
    ((g.processCaptureAudio audio echo).map (·.error) ≠ some kStreamParameterNotSetError ↔
      ∃ e ∈ sinceProcessed es, e.isLevel = true) ∧
    (((g.processCaptureAudio audio echo).map (·.error) ≠ some kStreamParameterNotSetError →
        ∃ e ∈ sinceProcessed es, e.accepted = true) ↔
      ((∃ e ∈ sinceProcessed es, e.isLevel = true) → ∃ e ∈ sinceProcessed es,
        e.accepted = true)) := by
  have hopen : (g.processCaptureAudio audio echo).map (·.error) ≠
    some kStreamParameterNotSetError ↔
      ∃ e ∈ sinceProcessed es, e.isLevel = true := by
    rw [Ne, refuses_iff hon hmode, Bool.not_eq_false]
    exact flag_iff hrun
  exact ⟨hopen, by rw [hopen]⟩

/-- The calls of a caller that sets one level. -/
def oneLevel (level : Int) (err : Int) : List Event :=
  [⟨.initializeImpl (fun _ => .cleared) 1 8000, false, kNoError⟩,
    ⟨.enable (fun _ => .cleared) true, false, kNoError⟩,
    ⟨.setStreamAnalogLevel level, true, err⟩]

/-- The object after the level. -/
def afterLevel (level : Int) : MultiChannel.GainControlImpl :=
  (MultiChannel.oneChannel.setStreamAnalogLevel level).1

theorem run_oneLevel (level : Int) :
    Run EventStep .new (oneLevel level (MultiChannel.oneChannel.setStreamAnalogLevel level).2)
      (afterLevel level) := by
  have h1 : Run EventStep .new [⟨.initializeImpl (fun _ => .cleared) 1 8000, false, kNoError⟩]
      (MultiChannel.GainControlImpl.new.initializeImpl (fun _ => .cleared) 1 8000) :=
        .one ⟨rfl, rfl, rfl⟩
  have h2 : Run EventStep .new _ MultiChannel.oneChannel :=
    h1.snoc (a := (⟨.enable (fun _ => .cleared) true, false, kNoError⟩ : Event))
      ⟨rfl, rfl, rfl⟩
  exact h2.snoc (a := (⟨.setStreamAnalogLevel level, true, _⟩ : Event)) ⟨rfl, rfl, rfl⟩

/-- The level 100 is accepted. -/
theorem gate_open_hundred :
    ((afterLevel 100).processCaptureAudio [[List.replicate 80 0]] false).map (·.error) ≠
      some kStreamParameterNotSetError ∧
    ∃ e ∈ sinceProcessed (oneLevel 100 kNoError), e.accepted = true := by
  have hacc : ∃ e ∈ sinceProcessed (oneLevel 100 kNoError), e.accepted = true :=
    ⟨_, List.mem_cons_self, rfl⟩
  have hrun : Run EventStep .new (oneLevel 100 kNoError) (afterLevel 100) := run_oneLevel 100
  have hiff := gate_open_iff hrun rfl rfl [[List.replicate 80 0]] false
  exact ⟨hiff.1.mpr ⟨_, List.mem_cons_self, rfl⟩, hacc⟩

/-- The level 300 is refused, and the frame is processed. -/
theorem refused_level_opens :
    ∃ g, Run EventStep .new (oneLevel 300 kBadParameterError) g ∧ g.enabled_ = true ∧
      g.mode_ = .kAdaptiveAnalog ∧ (g.processCaptureAudio [[List.replicate 80 0]] false).map
        (·.error) = some kNoError ∧
      ∀ e ∈ sinceProcessed (oneLevel 300 kBadParameterError), e.accepted = false := by
  refine ⟨afterLevel 300, run_oneLevel 300, rfl, rfl, by decide +kernel, ?_⟩
  intro e he
  fin_cases he <;> rfl

end LevelProtocol
end AgcSpec
