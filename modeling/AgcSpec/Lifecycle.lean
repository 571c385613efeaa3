/-
# The life of the audio processing object

The public calls on an object from `AudioProcessing::Create` and on its gain
control, in any order, up to `AudioProcessing::Destory`.

The constructor of `GainControlImpl` does not initialise `gain_controller_`;
`Initialize` assigns it, and only while the gain control is enabled. The
setters that call `Configure` and the destructor use the pointer whether or
not that has happened.

* `assigned_before_use_iff`: along every sequence of calls the pointer is never
  used unassigned exactly if the setters that configure and `Destory` come
  after an `Enable(true)`.
-/
import AgcSpec.Calls
import AgcSpec.Lib.Run
import AgcSpec.Wrapper

namespace AgcSpec
namespace Lifecycle

open FixedPoint Runs

/-! ### Calls -/

/-- A public call. The memory a new controller would find is part of it; the
data of `ProcessStream` is `none` for a null pointer. -/
inductive ApmCall where
  | enable (mem : LegacyAgc) (e : Bool)
  | setMode (mem : LegacyAgc) (mode : Mode)
  | setTargetLevelDbfs (level : Int)
  | setCompressionGainDb (gain : Int)
  | enableLimiter (e : Bool)
  | setAnalogLevelLimits (mem : LegacyAgc) (minimum maximum : Int)
  | setStreamAnalogLevel (level : Int)
  | processStream (data : Option (List Int))
  | destory

/-- `AudioProcessing::Destory`, with the destructors it runs. There is nothing
left; the destructor of the gain control reads the pointer and deletes what it
points to. -/
def destory (a : AudioProcessingImpl) : Option (Option AudioProcessingImpl) :=
  a.gain_control_.gain_controller_.map fun _ => none

/-- The object after a call. There is no result if the call uses the
unassigned pointer, or never returns. -/
def ApmCall.run (a : AudioProcessingImpl) : ApmCall → Option (Option AudioProcessingImpl)
  | .enable mem e => some (some ⟨(a.gain_control_.enable mem e).1⟩)
  | .setMode mem mode => some (some ⟨(a.gain_control_.setMode mem mode).1⟩)
  | .setTargetLevelDbfs level =>
    (a.gain_control_.setTargetLevelDbfs level).map fun r => some ⟨r.1⟩
  | .setCompressionGainDb gain =>
    (a.gain_control_.setCompressionGainDb gain).map fun r => some ⟨r.1⟩
  | .enableLimiter e => (a.gain_control_.enableLimiter e).map fun r => some ⟨r.1⟩
  | .setAnalogLevelLimits mem minimum maximum =>
    some (some ⟨(a.gain_control_.setAnalogLevelLimits mem minimum maximum).1⟩)
  | .setStreamAnalogLevel level => some (some ⟨(a.gain_control_.setStreamAnalogLevel level).1⟩)
  | .processStream none => some (some a)
  | .processStream (some data) => (AgcSpec.processStream a data).val.map fun r => some r.apm
  | .destory => Lifecycle.destory a

/-- A call on the object, as long as there is one. -/
def ApmStep (a : Option AudioProcessingImpl) (c : ApmCall) (b : Option AudioProcessingImpl) :
    Prop :=
  a.bind c.run = some b

/-! ### What processing leaves alone -/

/-- What the processing calls do not write: the settings of the gain control,
and those of the instance behind its pointer. -/
structure Profile where
  enabled : Bool
  mode : Mode
  target : Int
  gain : Int
  limiter : Bool
  core : Option Settings

/-- The profile of a gain control. -/
def profile (g : GainControlImpl) : Profile :=
  ⟨g.enabled_, g.mode_, g.target_level_dbfs_, g.compression_gain_db_, g.limiter_enabled_,
    g.gain_controller_.map (·.state_.settings)⟩

/-- A controller with the same settings behind the pointer. -/
theorem profile_controller {g : GainControlImpl} {c : GainController}
    (hc : g.gain_controller_ = some c) {s : LegacyAgc} (h : s.settings = c.state_.settings)
    (level : Int) : profile { g with gain_controller_ := some ⟨s, level⟩ } = profile g := by
  unfold profile
  rw [hc, Option.map_some, Option.map_some, h]

/-- In the adaptive digital mode the analysis is the virtual microphone. -/
theorem analyzeCaptureAudio_digital {g : GainControlImpl} {c : GainController}
    (he : g.enabled_ = true) (hm : g.mode_ = .kAdaptiveDigital) (hc : g.gain_controller_ = some c)
    (audio : List Int) :
    g.analyzeCaptureAudio audio = virtualMic c.state_ [audio] 0 >>= fun v =>
      pure (some ⟨{ g with gain_controller_ := some ⟨v.agc, v.micLevelOut⟩ },
        v.bands.headD [],
        if v.ret ≠ kNoError then kUnspecifiedError else kNoError⟩) := by
  rw [GainControlImpl.analyzeCaptureAudio, if_neg (not_not.mpr he)]
  simp only [hm, hc]

theorem profile_analyzeCaptureAudio {g : GainControlImpl} {audio : List Int}
    {r : GainControlImpl.Result}
    (h : (g.analyzeCaptureAudio audio).val = some r) : profile r.gc = profile g := by
  by_cases he : g.enabled_ = true
  swap
  · rw [GainControlImpl.analyzeCaptureAudio, if_pos he] at h
    cases h
    rfl
  cases hm : g.mode_ with
  | kAdaptiveDigital =>
    cases hc : g.gain_controller_ with
    | none =>
      rw [GainControlImpl.analyzeCaptureAudio, if_neg (not_not.mpr he), hm, hc] at h
      cases h
    | some c =>
      rw [analyzeCaptureAudio_digital he hm hc, Chk.val_bind, Chk.val_pure, Option.some.injEq] at h
      rw [← h]
      exact profile_controller hc (settings_virtualMic c.state_ [audio] 0) _
  | kAdaptiveAnalog =>
    rw [GainControlImpl.analyzeCaptureAudio, if_neg (not_not.mpr he), hm] at h
    cases h
    rfl
  | kFixedDigital =>
    rw [GainControlImpl.analyzeCaptureAudio, if_neg (not_not.mpr he), hm] at h
    cases h
    rfl

theorem profile_processCaptureAudio {g : GainControlImpl} {audio : List Int}
    {r : GainControlImpl.Result}
    (h : (g.processCaptureAudio audio).val = some r) : profile r.gc = profile g := by
  rw [GainControlImpl.processCaptureAudio] at h
  by_cases he : g.enabled_ = true
  swap
  · rw [if_pos he, Chk.val_pure, Option.some.injEq] at h
    rw [← h]
  rw [if_neg (not_not.mpr he)] at h
  by_cases hm : g.mode_ = .kAdaptiveAnalog
  · rw [if_pos hm, Chk.val_pure, Option.some.injEq] at h
    rw [← h]
  rw [if_neg hm] at h
  cases hc : g.gain_controller_ with
  | none =>
    rw [hc] at h
    cases h
  | some c =>
    rw [hc] at h
    dsimp only at h
    rw [Chk.val_bind] at h
    cases hp : (process c.state_ [audio] [audio] c.capture_level_ 0).val with
    | none =>
      rw [hp] at h
      cases h
    | some p =>
      rw [hp] at h
      dsimp only at h
      have hset := settings_process hp
      by_cases hret : p.ret ≠ kNoError
      · rw [if_pos hret, Chk.val_pure, Option.some.injEq] at h
        rw [← h]
        simp [profile, hset, hc]
      · rw [if_neg hret, Chk.val_pure, Option.some.injEq] at h
        rw [← h]
        simp [profile, hset, hc]

theorem profile_processHalf {g : GainControlImpl} {audio : List Int} {r : GainControlImpl.Result}
    (h : (g.processHalf audio).val = some r) : profile r.gc = profile g := by
  rw [GainControlImpl.processHalf, Chk.val_bind] at h
  rcases ha : (g.analyzeCaptureAudio audio).val with _ | q
  · rw [ha] at h
    cases h
  · rw [ha] at h
    dsimp only at h
    have hq := profile_analyzeCaptureAudio ha
    split at h
    · cases h
      exact hq
    · exact (profile_processCaptureAudio h).trans hq

theorem profile_processStream {a : AudioProcessingImpl} {data : List Int} {r : StreamResult}
    (h : (processStream a data).val = some r) :
    profile r.apm.gain_control_ = profile a.gain_control_ := by
  unfold processStream at h
  split at h
  · cases h
    rfl
  rw [Chk.val_bind] at h
  rcases h0 : (a.gain_control_.processHalf (data.take 80)).val with _ | q
  · rw [h0] at h
    cases h
  rw [h0] at h
  dsimp only at h
  have hq := profile_processHalf h0
  split at h
  · cases h
    exact hq
  rw [Chk.val_bind] at h
  rcases h1 : (q.gc.processHalf (data.drop 80)).val with _ | q'
  · rw [h1] at h
    cases h
  · rw [h1] at h
    cases h
    exact (profile_processHalf h1).trans hq

/-! ### Uses of the pointer -/

/-- The calls that follow `gain_controller_`, by the code of `Configure`, of the
two processing functions and of the destructor. -/
def ApmCall.Uses (g : GainControlImpl) : ApmCall → Prop
  | .enable _ _ | .setMode _ _ | .setAnalogLevelLimits _ _ _ | .setStreamAnalogLevel _ => False
  | .setTargetLevelDbfs level => ¬ (level > 31 ∨ level < 0)
  | .setCompressionGainDb gain => ¬ (gain < 0 ∨ gain > 90)
  | .enableLimiter _ => True
  | .processStream none => False
  | .processStream (some data) =>
    data.length = 160 ∧ g.enabled_ = true ∧ g.mode_ ≠ .kAdaptiveAnalog
  | .destory => True

/-- The call does not use the pointer before it is assigned. -/
def SafeUse (a : Option AudioProcessingImpl) (c : ApmCall) : Prop :=
  ∀ x, a = some x → c.Uses x.gain_control_ → x.gain_control_.gain_controller_ ≠ none

theorem processHalf_unassigned {g : GainControlImpl} (hg : g.gain_controller_ = none)
    (he : g.enabled_ = true)
    (hm : g.mode_ ≠ .kAdaptiveAnalog) (audio : List Int) : g.processHalf audio = pure none := by
  have hcap : g.processCaptureAudio audio = pure none := by
    rw [GainControlImpl.processCaptureAudio, if_neg (by simp [he]), if_neg hm, hg]
  have hana : g.analyzeCaptureAudio audio = pure none ∨
      g.analyzeCaptureAudio audio = pure (some ⟨g, audio, kNoError⟩) := by
    rw [GainControlImpl.analyzeCaptureAudio, if_neg (by simp [he])]
    cases hmode : g.mode_ with
    | kAdaptiveAnalog => exact absurd hmode hm
    | kAdaptiveDigital => exact .inl (by rw [hg])
    | kFixedDigital => exact .inr rfl
  rw [GainControlImpl.processHalf]
  rcases hana with h | h
  · rw [h, pure_bind]
  · rw [h, pure_bind]
    dsimp only
    rw [if_neg (by decide), hcap]

/-- Without an object behind the pointer the processing stops early: the gain
control is disabled, or has the analog mode, which it does not serve. -/
theorem processHalf_unused {g : GainControlImpl}
    (h : ¬ (g.enabled_ = true ∧ g.mode_ ≠ .kAdaptiveAnalog))
    (audio : List Int) : ∃ error, g.processHalf audio = pure (some ⟨g, audio, error⟩) := by
  rw [GainControlImpl.processHalf, GainControlImpl.analyzeCaptureAudio]
  by_cases he : g.enabled_ = true
  · have hm : g.mode_ = .kAdaptiveAnalog := by
      by_contra hm
      exact h ⟨he, hm⟩
    rw [if_neg (by simp [he]), hm]
    exact ⟨kNotEnabledError, rfl⟩
  · rw [if_pos he, pure_bind]
    dsimp only
    rw [if_neg (by decide), GainControlImpl.processCaptureAudio, if_pos he]
    exact ⟨kNoError, rfl⟩

theorem processStream_unused {a : AudioProcessingImpl} {data : List Int}
    (h : ¬ ApmCall.Uses a.gain_control_ (.processStream (some data))) :
    ∃ data' error, processStream a data = pure (some ⟨a, data', error⟩) := by
  unfold processStream
  by_cases hlen : data.length = 160
  swap
  · rw [if_pos hlen]
    exact ⟨_, _, rfl⟩
  have hu : ¬ (a.gain_control_.enabled_ = true ∧ a.gain_control_.mode_ ≠ .kAdaptiveAnalog) :=
    fun hu => h ⟨hlen, hu⟩
  obtain ⟨e0, h0⟩ := processHalf_unused hu (data.take 80)
  obtain ⟨e1, h1⟩ := processHalf_unused hu (data.drop 80)
  rw [if_neg (not_not.mpr hlen), h0, pure_bind]
  dsimp only
  split
  · exact ⟨_, _, rfl⟩
  · rw [h1, pure_bind]
    exact ⟨_, _, rfl⟩

/-- With the pointer unassigned, the calls without a result are the ones that
use it. -/
theorem run_eq_none_iff {a : AudioProcessingImpl} (ha : a.gain_control_.gain_controller_ = none)
    (c : ApmCall) : c.run a = none ↔ c.Uses a.gain_control_ := by
  cases c with
  | enable mem e => simp [ApmCall.run, ApmCall.Uses]
  | setMode mem mode => simp [ApmCall.run, ApmCall.Uses]
  | setTargetLevelDbfs level =>
    simp only [ApmCall.run, ApmCall.Uses, GainControlImpl.setTargetLevelDbfs,
      Option.map_eq_none_iff]
    split <;> simp_all [GainControlImpl.configure]
  | setCompressionGainDb gain =>
    simp only [ApmCall.run, ApmCall.Uses, GainControlImpl.setCompressionGainDb,
      Option.map_eq_none_iff]
    split <;> simp_all [GainControlImpl.configure]
  | enableLimiter e =>
    simp [ApmCall.run, ApmCall.Uses, GainControlImpl.enableLimiter, GainControlImpl.configure, ha]
  | setAnalogLevelLimits mem minimum maximum => simp [ApmCall.run, ApmCall.Uses]
  | setStreamAnalogLevel level => simp [ApmCall.run, ApmCall.Uses]
  | destory => simp [ApmCall.run, ApmCall.Uses, Lifecycle.destory, ha]
  | processStream data =>
    cases data with
    | none => simp [ApmCall.run, ApmCall.Uses]
    | some data =>
      by_cases hu : ApmCall.Uses a.gain_control_ (.processStream (some data))
      · have hnone : processStream a data = pure none := by
          rw [processStream, if_neg (not_not.mpr hu.1), processHalf_unassigned ha hu.2.1 hu.2.2,
            pure_bind]
        rw [ApmCall.run, hnone]
        exact iff_of_true rfl hu
      · obtain ⟨data', error, hsome⟩ := processStream_unused hu
        rw [ApmCall.run, hsome]
        exact iff_of_false (Option.some_ne_none _) hu

/-! ### Effects of a call -/

/-- What a call that returns does to the gain control: it leaves the profile,
flips the switch, makes a new controller, or hands its settings to the
controller there is. The last two write a setting first. -/
inductive Effect (g : GainControlImpl) : ApmCall → GainControlImpl → Prop
  | kept {c : ApmCall} {g' : GainControlImpl} (h : profile g' = profile g) : Effect g c g'
  | switched {mem : LegacyAgc} {e : Bool} (h : ¬ (e ∧ ¬ g.enabled_)) :
    Effect g (.enable mem e) { g with enabled_ := e }
  | started {mem : LegacyAgc} {e : Bool} (h : e ∧ ¬ g.enabled_) :
    Effect g (.enable mem e)
      ({ g with enabled_ := e }.initializeImpl mem g.num_proc_channels_ g.sample_rate_hz_)
  | restarted {c : ApmCall} {g' : GainControlImpl} (he : g'.enabled_ = g.enabled_)
    (hk : g'.gain_controller_ = g.gain_controller_) (mem : LegacyAgc) (n r : Int) :
      Effect g c (g'.initializeImpl mem n r)
  | configured {c : ApmCall} {g' g'' : GainControlImpl} {error : Int}
    (h : g'.configure = some (g'', error))
    (hk : g'.gain_controller_ = g.gain_controller_) : Effect g c g''

theorem run_effect {a b : AudioProcessingImpl} {c : ApmCall} (h : c.run a = some (some b)) :
    Effect a.gain_control_ c b.gain_control_ := by
  cases c with
  | enable mem e =>
    obtain rfl := Option.some.inj (Option.some.inj h)
    unfold GainControlImpl.enable
    split_ifs with he
    · exact .started he
    · exact .switched he
  | setMode mem mode =>
    obtain rfl := Option.some.inj (Option.some.inj h)
    unfold GainControlImpl.setMode
    split_ifs
    · exact .kept rfl
    · refine .restarted ?_ ?_ mem _ _ <;> rfl
  | setTargetLevelDbfs level =>
    obtain ⟨⟨g, error⟩, hg, hb⟩ := Option.map_eq_some_iff.mp h
    obtain rfl := Option.some.inj hb
    rw [GainControlImpl.setTargetLevelDbfs] at hg
    split_ifs at hg
    · cases hg
      exact .kept rfl
    · exact .configured hg rfl
  | setCompressionGainDb gain =>
    obtain ⟨⟨g, error⟩, hg, hb⟩ := Option.map_eq_some_iff.mp h
    obtain rfl := Option.some.inj hb
    rw [GainControlImpl.setCompressionGainDb] at hg
    split_ifs at hg
    · cases hg
      exact .kept rfl
    · exact .configured hg rfl
  | enableLimiter e =>
    obtain ⟨⟨g, error⟩, hg, hb⟩ := Option.map_eq_some_iff.mp h
    obtain rfl := Option.some.inj hb
    exact .configured hg rfl
  | setAnalogLevelLimits mem minimum maximum =>
    obtain rfl := Option.some.inj (Option.some.inj h)
    unfold GainControlImpl.setAnalogLevelLimits
    split_ifs
    · exact .kept rfl
    · exact .kept rfl
    · exact .kept rfl
    · refine .restarted ?_ ?_ mem _ _ <;> rfl
  | setStreamAnalogLevel level =>
    obtain rfl := Option.some.inj (Option.some.inj h)
    unfold GainControlImpl.setStreamAnalogLevel
    dsimp only
    split_ifs <;> exact .kept rfl
  | processStream data =>
    cases data with
    | none =>
      obtain rfl := Option.some.inj (Option.some.inj h)
      exact .kept rfl
    | some data =>
      obtain ⟨r, hr, hb⟩ := Option.map_eq_some_iff.mp h
      obtain rfl := Option.some.inj hb
      exact .kept (profile_processStream hr)
  | destory =>
    obtain ⟨c, -, hb⟩ := Option.map_eq_some_iff.mp h
    cases hb

/-! ### Along a sequence of calls -/

/-- The call turns the gain control on. -/
def ApmCall.Enables : ApmCall → Prop
  | .enable _ e => e = true
  | _ => False

/-- The calls that use the pointer whatever the state of the object is. -/
def ApmCall.Needs : ApmCall → Prop
  | .setTargetLevelDbfs level => ¬ (level > 31 ∨ level < 0)
  | .setCompressionGainDb gain => ¬ (gain < 0 ∨ gain > 90)
  | .enableLimiter _ => True
  | .destory => True
  | _ => False

theorem uses_of_needs {c : ApmCall} (h : c.Needs) (g : GainControlImpl) : c.Uses g := by
  cases c <;> first | exact h | exact h.elim

/-- The object as it comes from the constructor: not enabled, the pointer
unassigned. -/
def Untouched (a : AudioProcessingImpl) : Prop :=
  a.gain_control_.enabled_ = false ∧ a.gain_control_.gain_controller_ = none

theorem untouched_create (mem : LegacyAgc) (n r : Int) :
    Untouched (AudioProcessingImpl.create mem n r) := ⟨rfl, rfl⟩

theorem needs_of_uses {a : AudioProcessingImpl} (ha : Untouched a) {c : ApmCall}
    (h : c.Uses a.gain_control_) : c.Needs := by
  cases c with
  | processStream data =>
    cases data with
    | none => exact h.elim
    | some data => exact absurd h.2.1 (by rw [ha.1]; decide)
  | _ => exact h

/-- `Initialize` of a disabled gain control stores the format. -/
theorem untouched_initializeImpl {g : GainControlImpl} (he : g.enabled_ = false)
    (hp : g.gain_controller_ = none)
    (mem : LegacyAgc) (n r : Int) : Untouched ⟨g.initializeImpl mem n r⟩ := by
  unfold GainControlImpl.initializeImpl
  dsimp only
  rw [if_pos (by simp [he])]
  exact ⟨he, hp⟩

/-- Only `Destory` leaves nothing. -/
theorem needs_of_gone {a : AudioProcessingImpl} {c : ApmCall} (h : c.run a = some none) :
    c.Needs := by
  cases c with
  | destory => trivial
  | processStream data => cases data <;> simp [ApmCall.run] at h
  | _ => simp [ApmCall.run] at h

theorem untouched_iff (a : AudioProcessingImpl) :
    Untouched a ↔ (profile a.gain_control_).enabled = false ∧
      (profile a.gain_control_).core = none :=
  and_congr_right fun _ => Option.map_eq_none_iff.symm

theorem untouched_effect {a b : AudioProcessingImpl} (ha : Untouched a) {c : ApmCall}
    (he : ¬ c.Enables) (h : Effect a.gain_control_ c b.gain_control_) : Untouched b := by
  obtain ⟨hd, hp⟩ := ha
  obtain ⟨g⟩ := b
  cases h with
  | kept h => exact (untouched_iff ⟨g⟩).mpr (h ▸ (untouched_iff a).mp ⟨hd, hp⟩)
  | switched h => exact ⟨Bool.eq_false_iff.mpr he, hp⟩
  | started h => exact absurd h.1 he
  | restarted he hk mem n r => exact untouched_initializeImpl (he.trans hd) (hk.trans hp) mem n r
  | configured h hk =>
    rw [GainControlImpl.configure, hk, hp] at h
    cases h

/-- As long as nothing enables the object and nothing needs the controller, a
call leaves the object as it came. -/
theorem untouched_run {a : AudioProcessingImpl} (ha : Untouched a) {c : ApmCall} (hn : ¬ c.Needs)
    (he : ¬ c.Enables) : ∃ b, c.run a = some (some b) ∧ Untouched b := by
  have hreturns : c.run a ≠ none := fun h => hn (needs_of_uses ha ((run_eq_none_iff ha.2 c).mp h))
  obtain ⟨t, ht⟩ := Option.ne_none_iff_exists'.mp hreturns
  cases t with
  | none => exact absurd (needs_of_gone ht) hn
  | some b => exact ⟨b, ht, untouched_effect ha he (run_effect ht)⟩

/-- There is a controller behind the pointer. -/
def Assigned (a : AudioProcessingImpl) : Prop := a.gain_control_.gain_controller_ ≠ none

theorem assigned_initializeImpl {g : GainControlImpl}
    (h : g.enabled_ = true ∨ g.gain_controller_ ≠ none)
    (mem : LegacyAgc) (n r : Int) : Assigned ⟨g.initializeImpl mem n r⟩ := by
  unfold GainControlImpl.initializeImpl
  dsimp only
  by_cases he : g.enabled_ = true
  · rw [if_neg (not_not.mpr he)]
    exact Option.some_ne_none _
  · rw [if_pos he]
    exact h.resolve_left he

theorem assigned_configure {g g' : GainControlImpl} {error : Int}
    (h : g.configure = some (g', error)) : Assigned ⟨g'⟩ := by
  obtain ⟨c, -, hc⟩ := Option.map_eq_some_iff.mp h
  obtain ⟨rfl, -⟩ := Prod.mk.inj hc
  exact Option.some_ne_none _

/-- Once assigned, the pointer stays so. -/
theorem assigned_run {a b : AudioProcessingImpl} (ha : Assigned a) {c : ApmCall}
    (h : c.run a = some (some b)) : Assigned b := by
  obtain ⟨g⟩ := b
  cases run_effect h with
  | kept h =>
    have hcore : g.gain_controller_.map _ = a.gain_control_.gain_controller_.map _ :=
      congrArg Profile.core h
    exact fun hnone => ha (Option.map_eq_none_iff.mp (hcore ▸ Option.map_eq_none_iff.mpr hnone))
  | switched h => exact ha
  | started h =>
    apply assigned_initializeImpl
    exact .inr ha
  | restarted he hk mem n r => exact assigned_initializeImpl (.inr (by rw [hk]; exact ha)) mem n r
  | configured h hk => exact assigned_configure h

theorem assigned_enable {a : AudioProcessingImpl} {c : ApmCall} (hc : c.Enables)
    (ha : a.gain_control_.enabled_ = false)
    {b : AudioProcessingImpl} (h : c.run a = some (some b)) : Assigned b := by
  cases c with
  | enable mem e =>
    obtain rfl := Option.some.inj (Option.some.inj h)
    unfold GainControlImpl.enable
    rw [if_pos ⟨hc, by simp [ha]⟩]
    apply assigned_initializeImpl
    exact .inl hc
  | _ => exact hc.elim

/-- Where a history leads, if the object still exists: the pointer is
assigned, or nothing has enabled the object. -/
def Follows (pre : List ApmCall) (t : Option AudioProcessingImpl) : Prop :=
  ∀ a, t = some a → Assigned a ∨ Untouched a ∧ ∀ e ∈ pre, ¬ e.Enables

theorem follows_create (mem : LegacyAgc) (n r : Int) :
    Follows [] (some (AudioProcessingImpl.create mem n r)) := by
  intro a ha
  obtain rfl := Option.some.inj ha
  exact .inr ⟨untouched_create mem n r, fun e he => absurd he List.not_mem_nil⟩

theorem follows_step {pre : List ApmCall} {t u : Option AudioProcessingImpl} {d : ApmCall}
    (h : Follows pre t) (hstep : ApmStep t d u) : Follows (pre ++ [d]) u := by
  rintro b rfl
  obtain ⟨a, rfl, hrun⟩ := Option.bind_eq_some_iff.mp hstep
  rcases h a rfl with ha | ⟨ha, hno⟩
  · exact .inl (assigned_run ha hrun)
  by_cases he : d.Enables
  · exact .inl (assigned_enable he ha.1 hrun)
  by_cases hn : d.Needs
  · rw [(run_eq_none_iff ha.2 d).mpr (uses_of_needs hn _)] at hrun
    cases hrun
  · obtain ⟨b', hb', hub⟩ := untouched_run ha hn he
    rw [hb'] at hrun
    obtain rfl := Option.some.inj (Option.some.inj hrun)
    refine .inr ⟨hub, fun e hmem => ?_⟩
    rcases List.mem_append.mp hmem with hmem | hmem
    · exact hno e hmem
    · rw [List.mem_singleton.mp hmem]
      exact he

/-- Calls that can all be made safely, and of which none enables the object,
leave it as it came. -/
theorem untouched_of_safe {mem : LegacyAgc} {n r : Int} {cs pre : List ApmCall}
    (hsafe : EveryStep ApmStep (some (AudioProcessingImpl.create mem n r)) cs SafeUse)
    (hpre : pre <+: cs) (hno : ∀ e ∈ pre, ¬ e.Enables) :
    ∃ a, Run ApmStep (some (AudioProcessingImpl.create mem n r)) pre (some a) ∧
      Untouched a := by
  induction pre using List.reverseRecOn with
  | nil => exact ⟨_, .nil, untouched_create mem n r⟩
  | append_singleton pre d ih =>
    obtain ⟨a, hr, ha⟩ := ih ((List.prefix_append _ [d]).trans hpre) fun e he =>
      hno e (List.mem_append_left _ he)
    have hn : ¬ d.Needs := fun hn => hsafe pre d (some a) hpre hr a rfl (uses_of_needs hn _) ha.2
    obtain ⟨b, hb, hub⟩ := untouched_run ha hn (hno d (by simp))
    exact ⟨b, hr.snoc hb, hub⟩

/-- Along every sequence of calls on a new object, the pointer is never used
before it is assigned, exactly if every setter that configures and `Destory`
comes after an `Enable(true)`. -/
theorem assigned_before_use_iff (mem : LegacyAgc) (n r : Int) (cs : List ApmCall) :
    EveryStep ApmStep (some (AudioProcessingImpl.create mem n r)) cs SafeUse ↔
      ∀ pre c, pre ++ [c] <+: cs → c.Needs → ∃ e ∈ pre, e.Enables := by
  constructor
  · intro hsafe pre c hpre hneeds
    by_contra hno
    push Not at hno
    obtain ⟨a, hr, ha⟩ := untouched_of_safe hsafe ((List.prefix_append _ [c]).trans hpre) hno
    exact hsafe pre c (some a) hpre hr a rfl (uses_of_needs hneeds _) ha.2
  · rintro hlist pre c t hpre hr a rfl huses
    have hinv : Follows pre (some a) := hr.history (follows_create mem n r) fun _ _ _ _ h hs =>
      follows_step h hs
    rcases hinv a rfl with ha | ⟨ha, hno⟩
    · exact ha
    · obtain ⟨e, he, hen⟩ := hlist pre c hpre (needs_of_uses ha huses)
      exact absurd hen (hno e he)

/-- A new object that is destroyed at once, and one whose limiter is turned
off before it is enabled. -/
theorem unassigned_used :
    ¬ EveryStep ApmStep (some (AudioProcessingImpl.create .cleared 0 0)) [.destory] SafeUse ∧
    ¬ EveryStep ApmStep (some (AudioProcessingImpl.create .cleared 0 0))
      [.enableLimiter false, .enable .cleared true]
      SafeUse :=
  ⟨fun h => h [] .destory _ (by simp) .nil _ rfl trivial rfl,
    fun h => h [] (.enableLimiter false) _ (by simp) .nil _ rfl trivial rfl⟩

end Lifecycle
end AgcSpec
