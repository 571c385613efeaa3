/-
# Threads on one gain control

`GainControlImpl` of `gain_control_impl_webrtc.cc` under its two locks. A call
that changes the format or makes controllers takes `crit_render_` and then
`crit_capture_`, and so do `Initialize` and `Configure` when they are called
under the locks already; every other call takes `crit_capture_` alone. The
setters of the target level, the gain and the limiter store the value in one
critical section and call `Configure` after it, and `set_analog_level_limits`
does the same with `Initialize`, with the format it has read in the first
section. Their checks of the arguments are outside of the locks. So a call is
not one step: between the two sections other threads come in.

What stands between two operations on the locks is one section here, and the
code that follows it can depend on it. A section on an object that is gone
(`none`) does nothing.

* `call_alone`: a call that no other thread interrupts does what `Call.run`
  says.
* `threads_complete`: whatever threads make whatever calls, no two of them are in
  the critical sections at the same time; some thread can go on until all calls
  have returned, and every schedule gets there.
* `settled_agree`: whenever no thread is in a call, the controllers agree with the
  object: there is one for each channel, with its mode, format and range of
  levels as long as it is enabled, and with its configuration.
* `format_lost`: the calls are not atomic all the same. `set_analog_level_limits`
  can take back the format of an `Initialize` of another thread that has started
  and returned in between, which no order of the two calls does.
-/
import AgcSpec.LevelLimits
import AgcSpec.Lib.Locks

namespace AgcSpec
namespace MultiChannel
namespace Interleaving

open FixedPoint Runs Locks

/-! ### The source -/

/-- The locks, in the order in which they are taken. -/
inductive Lock where
  | crit_render_
  | crit_capture_
deriving DecidableEq

/-- The place of a lock in the order. -/
def Lock.rank : Lock → ℕ
  | .crit_render_ => 0
  | .crit_capture_ => 1

theorem Lock.rank_injective : Function.Injective Lock.rank := by
  intro a b h
  cases a <;> cases b <;> first | rfl | cases h

instance : LinearOrder Lock := LinearOrder.lift' Lock.rank Lock.rank_injective

/-- What is done between two operations on the locks. -/
inductive Section where
  | enable (mem : ℕ → LegacyAgc) (e : Bool)
  | setMode (mem : ℕ → LegacyAgc) (mode : Mode)
  | storeLimits (mem : ℕ → LegacyAgc) (minimum maximum : Int)
  | storeTarget (level : Int)
  | storeGain (gain : Int)
  | storeLimiter (e : Bool)
  | initializeImpl (mem : ℕ → LegacyAgc) (num_proc_channels : ℕ) (sample_rate_hz : Int)
  | configure
  | setStreamAnalogLevel (level : Int)
  | processRenderAudio (packed_render_audio : List Int)
  | analyzeCaptureAudio (audio : List (List (List Int)))
  | processCaptureAudio (audio : List (List (List Int))) (stream_has_echo : Bool)
  | get

/-- A call, or one of the functions that read a field. -/
inductive Request where
  | call (c : Call)
  | get

abbrev Code := List (Instr Lock Section)

/-- A section under both locks. -/
def both (s : Section) : Code :=
  [.enter .crit_render_, .enter .crit_capture_, .exec s, .leave .crit_capture_,
    .leave .crit_render_]

/-- A section under the capture lock. -/
def capture (s : Section) : Code := [.enter .crit_capture_, .exec s, .leave .crit_capture_]

/-- A section under the capture lock that gives it back itself and goes on. -/
def store (s : Section) : Code := [.enter .crit_capture_, .exec s]

/-- The code of a call. -/
def body : Request → Code
  | .call (.enable mem e) => both (.enable mem e)
  | .call (.initializeImpl mem n r) => both (.initializeImpl mem n r)
  | .call (.setMode mem mode) => both (.setMode mem mode)
  | .call (.setAnalogLevelLimits mem minimum maximum) =>
    if minimum < 0 then []
    else if maximum > 65535 then []
    else if maximum < minimum then []
    else store (.storeLimits mem minimum maximum)
  | .call (.setStreamAnalogLevel level) => capture (.setStreamAnalogLevel level)
  | .call (.setTargetLevelDbfs level) =>
    if level > 31 ∨ level < 0 then [] else store (.storeTarget level)
  | .call (.setCompressionGainDb gain) =>
    if gain < 0 ∨ gain > 90 then [] else store (.storeGain gain)
  | .call (.enableLimiter e) => store (.storeLimiter e)
  | .call (.processRenderAudio x) => capture (.processRenderAudio x)
  | .call (.analyzeCaptureAudio audio) => capture (.analyzeCaptureAudio audio)
  | .call (.processCaptureAudio audio echo) => capture (.processCaptureAudio audio echo)
  | .get => capture .get

/-- `Initialize` is called with the format that is set. -/
def again (g : GainControlImpl) (mem : ℕ → LegacyAgc) : Option GainControlImpl × Code :=
  match g.num_proc_channels_, g.sample_rate_hz_ with
  | some n, some r => (some g, both (.initializeImpl mem n r))
  | _, _ => (none, [])

/-- What a section does to the object, and the code that it goes on with. -/
def run (g : GainControlImpl) : Section → Option GainControlImpl × Code
  | .enable mem e =>
    if e ∧ ¬ g.enabled_ then again { g with enabled_ := e } mem
    else (some { g with enabled_ := e }, [])
  | .setMode mem mode =>
    if mapSetting mode = -1 then (some g, []) else again { g with mode_ := mode } mem
  | .storeLimits mem minimum maximum =>
    let r := again { g with minimum_capture_level_ := minimum, maximum_capture_level_ := maximum }
      mem
    (r.1, .leave .crit_capture_ :: r.2)
  | .storeTarget level =>
    (some { g with target_level_dbfs_ := level }, .leave .crit_capture_ :: both .configure)
  | .storeGain gain =>
    (some { g with compression_gain_db_ := gain }, .leave .crit_capture_ :: both .configure)
  | .storeLimiter e =>
    (some { g with limiter_enabled_ := e }, .leave .crit_capture_ :: both .configure)
  | .initializeImpl mem n r =>
    let g := { g with num_proc_channels_ := some n, sample_rate_hz_ := some r }
    if ¬ g.enabled_ then (some g, [])
    else
      (some { g with
        gain_controllers_ := (g.resized mem n).map fun s =>
          ⟨(g.initOf r s).1, g.analog_capture_level_⟩ }, both .configure)
  | .configure => (some g.configure.1, [])
  | .setStreamAnalogLevel level => (some (g.setStreamAnalogLevel level).1, [])
  | .processRenderAudio x => (some (g.processRenderAudio x), [])
  | .analyzeCaptureAudio audio => ((g.analyzeCaptureAudio audio).map (·.gc), [])
  | .processCaptureAudio audio echo => ((g.processCaptureAudio audio echo).map (·.gc), [])
  | .get => (some g, [])

/-- A section that gives the lock back itself does so without an object too. -/
def dead : Section → Code
  | .storeLimits .. | .storeTarget _ | .storeGain _ | .storeLimiter _ => [.leave .crit_capture_]
  | _ => []

/-- The calls of the gain control. -/
def calls : Calls Lock Section (Option GainControlImpl) Request where
  body := body
  sem s
    | none => (none, dead s)
    | some g => run g s

/-- The locks that are held in a section. -/
def guard : Section → List Lock
  | .enable .. | .setMode .. | .initializeImpl .. | .configure => [.crit_capture_, .crit_render_]
  | _ => [.crit_capture_]

/-- The object with the threads. -/
abbrev System (ι : Type) := State Lock Section (Option GainControlImpl) Request ι

/-- Threads with calls to make, on a new object. -/
def start {ι : Type} (todo : ι → List Request) : System ι :=
  ⟨some GainControlImpl.new, fun i => ⟨[], [], todo i⟩⟩

/-! ### The order of the locks -/

/-- No lock, or both of them: `Initialize` and `Configure` are called so. -/
def Fits (held : List Lock) : Prop :=
  held = [] ∨ Lock.crit_render_ ∈ held ∧ Lock.crit_capture_ ∈ held

theorem guard_subset (s : Section) (held : List Lock) :
    guard s ⊆ .crit_capture_ :: .crit_render_ :: held := by
  cases s <;> simp [guard]

/-- A section under both locks keeps the order, if the code it goes on with
does. -/
theorem ordered_both {held : List Lock} {s : Section} {k : Code} (hf : Fits held)
    (hk : Ordered calls guard held k)
    (hs : ∀ x k', Ordered calls guard (.crit_capture_ :: .crit_render_ :: held) k' →
      Ordered calls guard (.crit_capture_ :: .crit_render_ :: held) ((calls.sem s x).2 ++ k')) :
    Ordered calls guard held (both s ++ k) := by
  have hrender : Lock.crit_render_ ∈ held ∨ ∀ m ∈ held, m < Lock.crit_render_ := by
    rcases hf with rfl | hf
    · exact .inr (by simp)
    · exact .inl hf.1
  have hcapture : Lock.crit_capture_ ∈ Lock.crit_render_ :: held ∨
      ∀ m ∈ Lock.crit_render_ :: held, m < Lock.crit_capture_ := by
    rcases hf with rfl | hf
    · refine .inr fun m hm => ?_
      rw [List.mem_singleton.mp hm]
      decide
    · exact .inl (List.mem_cons_of_mem _ hf.2)
  exact .enter hrender
    (.enter hcapture (.exec (guard_subset s held) fun x => hs x _ (.leave (.leave hk))))

theorem fits_both (held : List Lock) : Fits (.crit_capture_ :: .crit_render_ :: held) :=
  .inr (by simp)

theorem ordered_configure {held : List Lock} {k : Code} (hf : Fits held)
    (hk : Ordered calls guard held k) : Ordered calls guard held (both .configure ++ k) := by
  refine ordered_both hf hk ?_
  intro x k' hk'
  cases x <;> exact hk'

theorem ordered_initializeImpl {held : List Lock} {k : Code} (hf : Fits held)
    (hk : Ordered calls guard held k) (mem : ℕ → LegacyAgc) (n : ℕ) (r : Int) :
    Ordered calls guard held (both (.initializeImpl mem n r) ++ k) := by
  refine ordered_both hf hk ?_
  intro x k' hk'
  cases x with
  | none => exact hk'
  | some g =>
    simp only [calls, run]
    split
    · exact hk'
    · exact ordered_configure (fits_both held) hk'

theorem ordered_again {held : List Lock} {k : Code} (hf : Fits held)
    (hk : Ordered calls guard held k) (g : GainControlImpl) (mem : ℕ → LegacyAgc) :
    Ordered calls guard held ((again g mem).2 ++ k) := by
  unfold again
  split
  · exact ordered_initializeImpl hf hk mem _ _
  · exact hk

theorem ordered_capture {s : Section} (hg : guard s = [.crit_capture_])
    (hs : ∀ x, (calls.sem s x).2 = []) : Ordered calls guard [] (capture s) := by
  refine .enter (.inr (by simp)) (.exec (by rw [hg]; simp) fun x => ?_)
  rw [hs x]
  exact .leave .nil

theorem ordered_store {s : Section} (hg : guard s = [.crit_capture_])
    (hs : ∀ x, ∃ k, (calls.sem s x).2 = .leave .crit_capture_ :: k ∧
      Ordered calls guard [] k) :
    Ordered calls guard [] (store s) := by
  refine .enter (.inr (by simp)) (.exec (by rw [hg]; simp) fun x => ?_)
  obtain ⟨k, hk, hord⟩ := hs x
  rw [hk, List.append_nil]
  exact .leave hord

theorem ordered_storeConfig {s : Section} (hg : guard s = [.crit_capture_])
    (hdead : dead s = [.leave .crit_capture_])
    (hs : ∀ g, (run g s).2 = .leave .crit_capture_ :: both .configure) :
    Ordered calls guard [] (store s) := by
  refine ordered_store hg fun x => ?_
  cases x with
  | none => exact ⟨[], hdead, .nil⟩
  | some g =>
    refine ⟨both .configure, hs g, ?_⟩
    have h := @ordered_configure [] [] (.inl rfl) .nil
    rwa [List.append_nil] at h

/-- Every call keeps the order. -/
theorem ordered_body (c : Request) : Ordered calls guard [] (calls.body c) := by
  -- a section under both locks, with nothing behind it
  have hboth : ∀ s, (∀ x k', Ordered calls guard [.crit_capture_, .crit_render_] k' →
      Ordered calls guard [.crit_capture_, .crit_render_] ((calls.sem s x).2 ++ k')) →
      Ordered calls guard [] (both s) := by
    intro s hs
    have h := @ordered_both [] s [] (.inl rfl) .nil hs
    rwa [List.append_nil] at h
  have hread : ∀ s, guard s = [.crit_capture_] → dead s = [] → (∀ g, (run g s).2 = []) →
      Ordered calls guard [] (capture s) := by
    intro s hg hdead hrun
    refine ordered_capture hg fun x => ?_
    cases x with
    | none => exact hdead
    | some g => exact hrun g
  cases c with
  | get => exact hread _ rfl rfl fun _ => rfl
  | call c =>
    cases c with
    | enable mem e =>
      refine hboth _ fun x k' hk' => ?_
      cases x with
      | none => exact hk'
      | some g =>
        simp only [calls, run]
        split
        · exact ordered_again (fits_both []) hk' _ mem
        · exact hk'
    | initializeImpl mem n r =>
      have h := @ordered_initializeImpl [] [] (.inl rfl) .nil mem n r
      rwa [List.append_nil] at h
    | setMode mem mode =>
      refine hboth _ fun x k' hk' => ?_
      cases x with
      | none => exact hk'
      | some g =>
        simp only [calls, run]
        split
        · exact hk'
        · exact ordered_again (fits_both []) hk' _ mem
    | setAnalogLevelLimits mem minimum maximum =>
      simp only [calls, body]
      split_ifs
      · exact .nil
      · exact .nil
      · exact .nil
      · refine ordered_store rfl fun x => ?_
        cases x with
        | none => exact ⟨[], rfl, .nil⟩
        | some g =>
          refine ⟨_, rfl, ?_⟩
          have h := @ordered_again [] [] (.inl rfl) .nil
            { g with minimum_capture_level_ := minimum, maximum_capture_level_ := maximum } mem
          rwa [List.append_nil] at h
    | setStreamAnalogLevel level => exact hread _ rfl rfl fun _ => rfl
    | setTargetLevelDbfs level =>
      simp only [calls, body]
      split_ifs
      · exact .nil
      · exact ordered_storeConfig rfl rfl fun _ => rfl
    | setCompressionGainDb gain =>
      simp only [calls, body]
      split_ifs
      · exact .nil
      · exact ordered_storeConfig rfl rfl fun _ => rfl
    | enableLimiter e => exact ordered_storeConfig rfl rfl fun _ => rfl
    | processRenderAudio x => exact hread _ rfl rfl fun _ => rfl
    | analyzeCaptureAudio audio => exact hread _ rfl rfl fun _ => rfl
    | processCaptureAudio audio echo => exact hread _ rfl rfl fun _ => rfl

/-! ### A call alone -/

theorem alone_configure {g : GainControlImpl} {k : Code} {y : Option GainControlImpl}
    (h : Alone calls (some g.configure.1) k y) : Alone calls (some g) (both .configure ++ k) y :=
  .enter (.enter (.exec (.leave (.leave h))))

theorem alone_initializeImpl {g : GainControlImpl} {mem : ℕ → LegacyAgc} {n : ℕ}
    {r : Int} {k : Code} {y : Option GainControlImpl}
    (h : Alone calls (some (g.initializeImpl mem n r)) k y) :
    Alone calls (some g) (both (.initializeImpl mem n r) ++ k) y := by
  refine .enter (.enter (.exec ?_))
  unfold GainControlImpl.initializeImpl at h
  simp only [calls, run]
  dsimp only at h
  split
  · rename_i he
    rw [if_pos he] at h
    exact .leave (.leave h)
  · rename_i he
    rw [if_neg he] at h
    exact alone_configure (.leave (.leave h))

theorem alone_again {g : GainControlImpl} {mem : ℕ → LegacyAgc} {k : Code}
    {y : Option GainControlImpl} (h : Alone calls (g.startAgain mem) k y) :
    Alone calls (again g mem).1 ((again g mem).2 ++ k) y := by
  unfold again
  unfold GainControlImpl.startAgain at h
  split
  · rename_i n r hn hr
    rw [hn, hr] at h
    exact alone_initializeImpl h
  · rename_i hne
    split at h
    · rename_i n r hn hr
      exact (hne n r hn hr).elim
    · exact h

theorem map_fst_map (x : Option GainControlImpl) (error : Int) :
    ((x.map fun g => (g, error)).map fun r : GainControlImpl × Int => r.1) = x := by
  cases x <;> rfl

/-- The code of a call, run without a break, does what the call does. -/
theorem alone_body (g : GainControlImpl) (c : Call) :
    Alone calls (some g) (calls.body (.call c)) (c.run g) := by
  cases c with
  | enable mem e =>
    refine .enter (.enter (.exec ?_))
    simp only [calls, run, Call.run, GainControlImpl.enable]
    split
    · rw [map_fst_map]
      exact alone_again (.leave (.leave .nil))
    · exact .leave (.leave .nil)
  | initializeImpl mem n r =>
    have h := @alone_initializeImpl g mem n r [] _ .nil
    rwa [List.append_nil] at h
  | setMode mem mode =>
    refine .enter (.enter (.exec ?_))
    simp only [calls, run, Call.run, GainControlImpl.setMode]
    split
    · exact .leave (.leave .nil)
    · rw [map_fst_map]
      exact alone_again (.leave (.leave .nil))
  | setAnalogLevelLimits mem minimum maximum =>
    simp only [calls, body, Call.run, GainControlImpl.setAnalogLevelLimits]
    split_ifs
    · exact .nil
    · exact .nil
    · exact .nil
    · rw [map_fst_map]
      exact .enter (.exec (.leave (alone_again .nil)))
  | setStreamAnalogLevel level => exact .enter (.exec (.leave .nil))
  | setTargetLevelDbfs level =>
    simp only [calls, body, Call.run, GainControlImpl.setTargetLevelDbfs]
    split_ifs
    · exact .nil
    · exact .enter (.exec (.leave (alone_configure .nil)))
  | setCompressionGainDb gain =>
    simp only [calls, body, Call.run, GainControlImpl.setCompressionGainDb]
    split_ifs
    · exact .nil
    · exact .enter (.exec (.leave (alone_configure .nil)))
  | enableLimiter e => exact .enter (.exec (.leave (alone_configure .nil)))
  | processRenderAudio x => exact .enter (.exec (.leave .nil))
  | analyzeCaptureAudio audio => exact .enter (.exec (.leave .nil))
  | processCaptureAudio audio echo => exact .enter (.exec (.leave .nil))

/-- A thread that makes a call while no other one has a lock can finish it, and
leaves what the call leaves. -/
theorem call_alone {ι : Type} [DecidableEq ι] {m : System ι} {i : ι} {g : GainControlImpl}
    {c : Call} {cs : List Request} (hg : m.shared = some g)
    (hi : m.threads i = ⟨[], [], .call c :: cs⟩) (hfree : Free m i) :
    ∃ is, (∀ j ∈ is, j = i) ∧ Run (Locks.Step calls) m is
      (m.set (c.run g) i ⟨[], [], cs⟩) := by
  have hbody := alone_body g c
  have hrest := hbody.run (m := m.set m.shared i ⟨[], calls.body (.call c), cs⟩) hg
    (State.set_self ..) (ordered_body _)
    (hfree.set _ _)
  rw [State.set_set] at hrest
  exact (Locks.Step.call hi).cons hrest

/-! ### The work of a call -/

/-- One more than what a section goes on with. -/
def weight : Section → ℕ
  | .enable .. | .setMode .. => 11
  | .storeLimits .. => 12
  | .storeTarget _ | .storeGain _ | .storeLimiter _ => 7
  | .initializeImpl .. => 6
  | _ => 1

theorem cost_again (g : GainControlImpl) (mem : ℕ → LegacyAgc) :
    cost weight (again g mem).2 ≤ 10 := by
  unfold again
  split <;> simp [both, cost, weight]

theorem cost_sem (s : Section) (x : Option GainControlImpl) :
    cost weight (calls.sem s x).2 < weight s := by
  cases x with
  | none => cases s <;> simp [calls, dead, cost, weight]
  | some g =>
    cases s with
    | enable mem e =>
      have := cost_again { g with enabled_ := e } mem
      simp only [calls, run]
      split
      · exact Nat.lt_succ_of_le this
      · simp [cost, weight]
    | setMode mem mode =>
      have := cost_again { g with mode_ := mode } mem
      simp only [calls, run]
      split
      · simp [cost, weight]
      · exact Nat.lt_succ_of_le this
    | storeLimits mem minimum maximum =>
      have := cost_again
        { g with minimum_capture_level_ := minimum, maximum_capture_level_ := maximum } mem
      simp only [calls, run, cost, weight]
      omega
    | initializeImpl mem n r =>
      simp only [calls, run]
      split <;> simp [both, cost, weight]
    | storeTarget level => simp [calls, run, both, cost, weight]
    | storeGain gain => simp [calls, run, both, cost, weight]
    | storeLimiter e => simp [calls, run, both, cost, weight]
    | configure => simp [calls, run, cost, weight]
    | setStreamAnalogLevel level => simp [calls, run, cost, weight]
    | processRenderAudio x => simp [calls, run, cost, weight]
    | analyzeCaptureAudio audio => simp [calls, run, cost, weight]
    | processCaptureAudio audio echo => simp [calls, run, cost, weight]
    | get => simp [calls, run, cost, weight]

/-! ### Every schedule -/

section Schedules

variable {ι : Type} [DecidableEq ι]

omit [DecidableEq ι] in
theorem sound_start (todo : ι → List Request) : Locks.Sound calls guard (start todo) :=
  ⟨fun _ => .nil, fun _ _ _ _ hl => by cases hl⟩

theorem sound_run {todo : ι → List Request} {is : List ι} {m : System ι}
    (hrun : Run (Locks.Step calls) (start todo) is m) :
    Locks.Sound calls guard m :=
  hrun.invariant (sound_start todo) fun _ _ _ hm hs => sound_step ordered_body hm hs

theorem capture_mem_guard (s : Section) : Lock.crit_capture_ ∈ guard s := by
  cases s <;> simp [guard]

/-- Any number of threads, each with any calls to make, in any order of their
steps: at most one thread at a time is ready to run a section; as long as a
call is left some thread can go on; no schedule is longer than the work there
was, and every one of them can be gone on with until all calls have returned. -/
theorem threads_complete [Fintype ι] {todo : ι → List Request} {is : List ι} {m : System ι}
    (hrun : Run (Locks.Step calls) (start todo) is m) :
    (∀ i j s s' k k', (m.threads i).code = .exec s :: k →
      (m.threads j).code = .exec s' :: k' → i = j) ∧
    ((∃ i, ¬ (m.threads i).Finished) → ∃ i m', Locks.Step calls m i m') ∧
    is.length ≤ work weight calls (start todo) ∧
    ∃ js m', Run (Locks.Step calls) m js m' ∧ ∀ i, (m'.threads i).Finished := by
  have hm := sound_run hrun
  refine ⟨?_, progress hm, ?_, completes ordered_body cost_sem hm⟩
  · intro i j s s' k k' hi hj
    exact exclusive hm hi hj (capture_mem_guard s) (capture_mem_guard s')
  · have := length_le_work cost_sem hrun
    omega

/-- One thread sets the format and then enables the object, the other one reads
and sets the target level: whatever happens after the first call, all calls can
return. -/
theorem threads_complete_two : ∃ is m js m',
    Run (Locks.Step calls) (start ![[.call (.initializeImpl (fun _ => .cleared) 2 16000),
      .call (.enable (fun _ => .cleared) true)], [.get, .call (.setTargetLevelDbfs 5)]]) is m ∧
    m.shared = some (GainControlImpl.new.initializeImpl (fun _ => .cleared) 2 16000) ∧
    Run (Locks.Step calls) m js m' ∧ ∀ i, (m'.threads i).Finished := by
  have hfree : Unlocked (start ![[.call (.initializeImpl (fun _ => .cleared) 2 16000),
      .call (.enable (fun _ => .cleared) true)], [.get, .call (.setTargetLevelDbfs 5)]]) := fun _ =>
        rfl
  obtain ⟨is, -, hrun⟩ := call_alone (i := 0) rfl rfl (hfree.free 0)
  obtain ⟨js, m', hrest, hfinished⟩ := (threads_complete hrun).2.2.2
  exact ⟨is, _, js, m', hrun, rfl, hrest, hfinished⟩

end Schedules

/-! ### The controllers and the object -/

/-- An instance has the mode, the format and the range of levels of the object. -/
def MadeFor (g : GainControlImpl) (r : Ranges) : Prop :=
  r.agcMode = mapSetting g.mode_ ∧ g.sample_rate_hz_ = some r.fs ∧
    r.minLevel = lowestLevel (mapSetting g.mode_) g.minimum_capture_level_ ∧
    r.maxAnalog = highestLevel (mapSetting g.mode_) g.maximum_capture_level_

/-- While the object is enabled, it has a controller of its own kind for each
channel. -/
def Made (g : GainControlImpl) : Prop :=
  g.enabled_ = true → g.num_proc_channels_ = some g.gain_controllers_.length ∧
    ∀ k ∈ g.gain_controllers_, MadeFor g k.state_.ranges

/-- The controllers have the configuration of the object. -/
def Tuned (g : GainControlImpl) : Prop :=
  ∀ k ∈ g.gain_controllers_, k.state_.settings.usedConfig = g.config

/-- The settings are in their ranges, and the controllers take a configuration. -/
structure Consistent (g : GainControlImpl) : Prop where
  target : 0 ≤ g.target_level_dbfs_ ∧ g.target_level_dbfs_ ≤ 31
  gain : 0 ≤ g.compression_gain_db_ ∧ g.compression_gain_db_ ≤ 90
  ready : ∀ k ∈ g.gain_controllers_, k.state_.settings.initFlag = kInitCheck ∧
    ∃ m : Mode, k.state_.settings.agcMode = mapSetting m

/-! What the processing calls keep. -/

/-- The object without what is processed. -/
def shell (g : GainControlImpl) : GainControlImpl :=
  { g with
    analog_capture_level_ := 0
    was_analog_level_set_ := false
    stream_is_saturated_ := false
    gain_controllers_ := [] }

/-- The settings of the object, the number of controllers, and the format and
the settings of each of them stay. -/
structure Kept (g g' : GainControlImpl) : Prop where
  shell : shell g' = shell g
  length : g'.gain_controllers_.length = g.gain_controllers_.length
  each : ∀ Q : Ranges → Settings → Prop,
    (∀ k ∈ g.gain_controllers_, Q k.state_.ranges k.state_.settings) →
      ∀ k ∈ g'.gain_controllers_, Q k.state_.ranges k.state_.settings

theorem Kept.refl (g : GainControlImpl) : Kept g g := ⟨rfl, rfl, fun _ h => h⟩

/-- A loop over the channels whose body keeps the format and the settings of
its instance. -/
theorem each_forChannels {f : GainController → List (List Int) → Option ChannelResult}
    (hf : ∀ k bands r, f k bands = some r →
      r.controller.state_.ranges = k.state_.ranges ∧
        r.controller.state_.settings = k.state_.settings)
    {ks : List GainController} {audio : List (List (List Int))} {l : LoopResult}
    (hl : forChannels f ks audio = some l) (Q : Ranges → Settings → Prop)
    (h : ∀ k ∈ ks, Q k.state_.ranges k.state_.settings) :
    ∀ k ∈ l.controllers, Q k.state_.ranges k.state_.settings := by
  refine (LevelLimits.forChannels_keeps (P := fun k => Q k.state_.ranges k.state_.settings) ?_ h
    hl).1
  intro k bands r hk hr
  obtain ⟨hranges, hsettings⟩ := hf k bands r hr
  rwa [hranges, hsettings]

theorem length_forChannels {f : GainController → List (List Int) → Option ChannelResult}
    {ks : List GainController} {audio : List (List (List Int))} {l : LoopResult}
    (hl : forChannels f ks audio = some l) : l.controllers.length = ks.length :=
  (LevelLimits.forChannels_keeps (P := fun _ => True) (fun _ _ _ _ _ => trivial)
    (fun _ _ => trivial) hl).2

theorem addMicTo_keeps (level : Int) (k : GainController) (bands : List (List Int))
    (r : ChannelResult) (h : addMicTo level k bands = some r) :
    r.controller.state_.ranges = k.state_.ranges ∧
      r.controller.state_.settings = k.state_.settings := by
  obtain rfl := Option.some.inj h
  exact ⟨ranges_addMic _ _, settings_addMic _ _⟩

theorem virtualMicTo_keeps (level : Int) (k : GainController) (bands : List (List Int))
    (r : ChannelResult) (h : virtualMicTo level k bands = some r) :
    r.controller.state_.ranges = k.state_.ranges ∧
      r.controller.state_.settings = k.state_.settings := by
  obtain rfl := Option.some.inj h
  refine ⟨?_, settings_virtualMic _ _ _⟩
  dsimp only
  rw [virtualMic_eq]
  exact (ranges_addMic _ _).trans (ranges_virtualState _ _ _)

theorem processOn_keeps (echo : Bool) (k : GainController) (bands : List (List Int))
    (r : ChannelResult) (h : processOn echo k bands = some r) :
    r.controller.state_.ranges = k.state_.ranges ∧
      r.controller.state_.settings = k.state_.settings := by
  obtain ⟨p, hp, rfl⟩ := Option.map_eq_some_iff.mp h
  split <;> exact ⟨ranges_process hp, settings_process hp⟩

theorem kept_setStreamAnalogLevel (g : GainControlImpl) (level : Int) :
    Kept g (g.setStreamAnalogLevel level).1 := by
  unfold GainControlImpl.setStreamAnalogLevel
  dsimp only
  split <;> exact ⟨rfl, rfl, fun _ h => h⟩

theorem kept_processRenderAudio (g : GainControlImpl) (x : List Int) :
    Kept g (g.processRenderAudio x) := by
  unfold GainControlImpl.processRenderAudio
  split
  · exact .refl g
  · refine ⟨rfl, by simp, ?_⟩
    intro Q h k hk
    obtain ⟨k', hk', rfl⟩ := List.mem_map.mp hk
    dsimp only
    rw [ranges_addFarend, settings_addFarend]
    exact h k' hk'

theorem kept_analyzeCaptureAudio {g : GainControlImpl} {audio : List (List (List Int))}
    {r : GainControlImpl.Result} (h : g.analyzeCaptureAudio audio = some r) : Kept g r.gc := by
  unfold GainControlImpl.analyzeCaptureAudio at h
  split at h
  · obtain rfl := Option.some.inj h
    exact .refl g
  split at h
  · cases h
  split at h
  · obtain ⟨l, hl, rfl⟩ := Option.map_eq_some_iff.mp h
    exact ⟨rfl, length_forChannels hl, each_forChannels (addMicTo_keeps _) hl⟩
  · obtain ⟨l, hl, rfl⟩ := Option.map_eq_some_iff.mp h
    exact ⟨rfl, length_forChannels hl, each_forChannels (virtualMicTo_keeps _) hl⟩
  · obtain rfl := Option.some.inj h
    exact .refl g

theorem kept_processCaptureAudio {g : GainControlImpl} {audio : List (List (List Int))}
    {echo : Bool}
    {r : GainControlImpl.Result} (h : g.processCaptureAudio audio echo = some r) : Kept g r.gc := by
  unfold GainControlImpl.processCaptureAudio at h
  split at h
  · obtain rfl := Option.some.inj h
    exact .refl g
  split at h
  · obtain rfl := Option.some.inj h
    exact .refl g
  split at h
  · cases h
  obtain ⟨l, hl, h⟩ := Option.bind_eq_some_iff.mp h
  have heach := each_forChannels (processOn_keeps echo) hl
  have hlen := length_forChannels hl
  dsimp only at h
  split at h
  · obtain rfl := Option.some.inj h
    exact ⟨rfl, hlen, heach⟩
  split at h
  · obtain ⟨level, -, rfl⟩ := Option.map_eq_some_iff.mp h
    exact ⟨rfl, hlen, heach⟩
  · obtain rfl := Option.some.inj h
    exact ⟨rfl, hlen, heach⟩

/-- The object after a call that keeps: the fields that are compared with the
controllers are those before it. -/
theorem Kept.made {g g' : GainControlImpl} (h : Kept g g') (hg : Made g) : Made g' := by
  intro he
  have henabled := congrArg GainControlImpl.enabled_ h.shell
  have hmode := congrArg GainControlImpl.mode_ h.shell
  have hrate := congrArg GainControlImpl.sample_rate_hz_ h.shell
  have hlow := congrArg GainControlImpl.minimum_capture_level_ h.shell
  have hhigh := congrArg GainControlImpl.maximum_capture_level_ h.shell
  have hchannels := congrArg GainControlImpl.num_proc_channels_ h.shell
  simp only [Interleaving.shell] at henabled hmode hrate hlow hhigh hchannels
  obtain ⟨hn, hk⟩ := hg (henabled ▸ he)
  refine ⟨by rw [hchannels, hn, h.length], ?_⟩
  refine h.each (fun r _ => MadeFor g' r) ?_
  intro k hmem
  unfold MadeFor
  rw [hmode, hrate, hlow, hhigh]
  exact hk k hmem

theorem Kept.tuned {g g' : GainControlImpl} (h : Kept g g') (hg : Tuned g) : Tuned g' := by
  have hconfig : (Interleaving.shell g').config = (Interleaving.shell g).config := by rw [h.shell]
  exact h.each (fun _ t => t.usedConfig = g'.config) fun k hk => (hg k hk).trans hconfig.symm

theorem Kept.consistent {g g' : GainControlImpl} (h : Kept g g') (hg : Consistent g) :
    Consistent g' := by
  have htarget := congrArg GainControlImpl.target_level_dbfs_ h.shell
  have hgain := congrArg GainControlImpl.compression_gain_db_ h.shell
  simp only [Interleaving.shell] at htarget hgain
  exact ⟨by rw [htarget]; exact hg.target, by rw [hgain]; exact hg.gain,
    h.each (fun _ t => t.initFlag = kInitCheck ∧ ∃ m : Mode, t.agcMode = mapSetting m)
      hg.ready⟩

/-! What `Initialize` and `Configure` do to the controllers. -/

/-- `WebRtcAgc_Init` in a mode of the gain control: the format and the range
are those it is given, and the instance takes a configuration. -/
theorem init_made (s : LegacyAgc) (minimum maximum : Int) (mode : Mode) (fs : Int) :
    (init s minimum maximum (mapSetting mode) fs).val.1.ranges.agcMode = mapSetting mode ∧
    (init s minimum maximum (mapSetting mode) fs).val.1.ranges.fs = fs ∧
    (init s minimum maximum (mapSetting mode) fs).val.1.ranges.minLevel =
      lowestLevel (mapSetting mode) minimum ∧
    (init s minimum maximum (mapSetting mode) fs).val.1.ranges.maxAnalog =
      highestLevel (mapSetting mode) maximum ∧
    (init s minimum maximum (mapSetting mode) fs).val.1.initFlag = kInitCheck := by
  have hfinish : ∀ (i : LegacyAgc) (lo hi : Int), (initFinish i lo hi).1.ranges = i.ranges := by
    intro i lo hi
    have hset := ranges_setConfig i i.defaultConfig
    unfold initFinish
    dsimp only
    split <;> exact hset
  unfold init
  rw [if_neg (by cases mode <;> decide), Chk.val_bind, Chk.val_pure, hfinish]
  exact ⟨rfl, rfl, rfl, rfl, (Agreement.initFinish_settings rfl _ _).1⟩

/-- The other gain control with the same settings: its configurations are
accepted, so these are. -/
theorem configured {g : GainControlImpl} (hg : Consistent g) {k : GainController}
    (hk : k ∈ g.gain_controllers_) :
    (setConfig k.state_ g.config).1.usedConfig = g.config ∧
      (setConfig k.state_ g.config).1.initFlag = kInitCheck ∧
      (setConfig k.state_ g.config).1.agcMode = k.state_.agcMode := by
  obtain ⟨-, hmode, hflag, hused⟩ := Agreement.setConfig_accepted
    (g := { AgcSpec.GainControlImpl.new 1 8000 with
      limiter_enabled_ := g.limiter_enabled_
      target_level_dbfs_ := g.target_level_dbfs_
      compression_gain_db_ := g.compression_gain_db_ })
    ⟨hg.target, hg.gain⟩ (hg.ready k hk)
  exact ⟨hused, hflag, hmode⟩

theorem mem_configure {g : GainControlImpl} {k : GainController}
    (h : k ∈ g.configure.1.gain_controllers_) :
    ∃ k' ∈ g.gain_controllers_,
      k = ⟨(setConfig k'.state_ g.config).1, k'.capture_level_⟩ := by
  simp only [GainControlImpl.configure, List.mem_map] at h
  obtain ⟨-, ⟨k', hk', rfl⟩, rfl⟩ := h
  exact ⟨k', hk', rfl⟩

theorem tuned_configure {g : GainControlImpl} (hg : Consistent g) : Tuned g.configure.1 := by
  intro k hk
  obtain ⟨k', hk', rfl⟩ := mem_configure hk
  exact (configured hg hk').1

theorem consistent_configure {g : GainControlImpl} (hg : Consistent g) :
    Consistent g.configure.1 := by
  refine ⟨hg.target, hg.gain, ?_⟩
  intro k hk
  obtain ⟨k', hk', rfl⟩ := mem_configure hk
  obtain ⟨-, hflag, hmode⟩ := configured hg hk'
  obtain ⟨m, hm⟩ := (hg.ready k' hk').2
  exact ⟨hflag, m, hmode.trans hm⟩

theorem made_configure {g : GainControlImpl} (hg : Made g) : Made g.configure.1 := by
  intro he
  obtain ⟨hn, hk⟩ := hg he
  refine ⟨?_, ?_⟩
  · rw [show g.configure.1.num_proc_channels_ = g.num_proc_channels_ from rfl, hn]
    simp [GainControlImpl.configure]
  intro k hmem
  obtain ⟨k', hk', rfl⟩ := mem_configure hmem
  dsimp only
  rw [ranges_setConfig]
  exact hk k' hk'

/-! ### What a section does to the agreement -/

/-- The arguments of the setters were checked before. -/
def Section.Valid : Section → Prop
  | .storeTarget level => 0 ≤ level ∧ level ≤ 31
  | .storeGain gain => 0 ≤ gain ∧ gain ≤ 90
  | _ => True

/-- The sections that make the controllers and that configure them. -/
def Section.Makes : Section → Prop
  | .initializeImpl .. => True
  | _ => False

def Section.Tunes : Section → Prop
  | .configure => True
  | _ => False

theorem again_cases (g : GainControlImpl) (mem : ℕ → LegacyAgc) :
    again g mem = (none, []) ∨ ∃ n r,
      again g mem = (some g, both (.initializeImpl mem n r)) := by
  unfold again
  split
  · exact .inr ⟨_, _, rfl⟩
  · exact .inl rfl

theorem pending_both {R : Section → Prop} {s : Section} (h : R s) : Pending R (both s) :=
  ⟨s, by simp [both], h⟩

theorem pending_leave {R : Section → Prop} {l : Lock} {k : Code} (h : Pending R k) :
    Pending R (.leave l :: k) := by
  obtain ⟨s, hs, hR⟩ := h
  exact ⟨s, List.mem_cons_of_mem _ hs, hR⟩

/-- The code a section goes on with has valid sections. -/
theorem valid_run (g : GainControlImpl) (s : Section) :
    ∀ s', Instr.exec s' ∈ (run g s).2 → s'.Valid := by
  have hagain : ∀ (g : GainControlImpl) (mem : ℕ → LegacyAgc) s', Instr.exec s' ∈
      (again g mem).2 → s'.Valid := by
    intro g mem s' hs'
    rcases again_cases g mem with h | ⟨n, r, h⟩
    · rw [h] at hs'
      cases hs'
    · rw [h] at hs'
      obtain rfl : s' = .initializeImpl mem n r := by simpa [both] using hs'
      trivial
  have hconfigure : ∀ s', Instr.exec s' ∈ both .configure → s'.Valid := by
    intro s' hs'
    obtain rfl : s' = .configure := by simpa [both] using hs'
    trivial
  intro s' hs'
  cases s with
  | enable mem e =>
    simp only [run] at hs'
    split at hs'
    · exact hagain _ _ s' hs'
    · cases hs'
  | setMode mem mode =>
    simp only [run] at hs'
    split at hs'
    · cases hs'
    · exact hagain _ _ s' hs'
  | storeLimits mem minimum maximum => exact hagain _ _ s' (by simpa [run] using hs')
  | storeTarget level => exact hconfigure s' (by simpa [run] using hs')
  | storeGain gain => exact hconfigure s' (by simpa [run] using hs')
  | storeLimiter e => exact hconfigure s' (by simpa [run] using hs')
  | initializeImpl mem n r =>
    simp only [run] at hs'
    split at hs'
    · cases hs'
    · exact hconfigure s' hs'
  | configure => cases hs'
  | setStreamAnalogLevel level => cases hs'
  | processRenderAudio x => cases hs'
  | analyzeCaptureAudio audio => cases hs'
  | processCaptureAudio audio echo => cases hs'
  | get => cases hs'

/-- `Initialize` on the controllers of an enabled object. -/
def remade (g : GainControlImpl) (mem : ℕ → LegacyAgc) (n : ℕ) (r : Int) : GainControlImpl :=
  { g with
    num_proc_channels_ := some n
    sample_rate_hz_ := some r
    gain_controllers_ := (g.resized mem n).map fun s =>
      ⟨(g.initOf r s).1, g.analog_capture_level_⟩ }

theorem run_initializeImpl (g : GainControlImpl) (mem : ℕ → LegacyAgc) (n : ℕ) (r : Int) :
    run g (.initializeImpl mem n r) =
      if ¬ g.enabled_ then (some
        { g with num_proc_channels_ := some n, sample_rate_hz_ := some r }, [])
      else (some (remade g mem n r), both .configure) := rfl

theorem made_remade (g : GainControlImpl) (mem : ℕ → LegacyAgc) (n : ℕ) (r : Int) :
    Made (remade g mem n r) := by
  intro _
  refine ⟨by simp [remade, GainControlImpl.length_resized], ?_⟩
  intro k hk
  obtain ⟨s, -, rfl⟩ := List.mem_map.mp hk
  obtain ⟨h1, h2, h3, h4, -⟩ :=
    init_made s g.minimum_capture_level_ g.maximum_capture_level_ g.mode_ r
  exact ⟨h1, congrArg some h2.symm, h3, h4⟩

theorem consistent_remade {g : GainControlImpl} (hg : Consistent g) (mem : ℕ → LegacyAgc)
    (n : ℕ) (r : Int) : Consistent (remade g mem n r) := by
  refine ⟨hg.target, hg.gain, ?_⟩
  intro k hk
  obtain ⟨s, -, rfl⟩ := List.mem_map.mp hk
  obtain ⟨h1, -, -, -, h5⟩ :=
    init_made s g.minimum_capture_level_ g.maximum_capture_level_ g.mode_ r
  exact ⟨h5, g.mode_, h1⟩

theorem consistent_run {g g' : GainControlImpl} {s : Section} (hv : s.Valid) (hg : Consistent g)
    (h : (run g s).1 = some g') : Consistent g' := by
  have hagain : ∀ (g₁ : GainControlImpl) (mem : ℕ → LegacyAgc), Consistent g₁ →
    (again g₁ mem).1 = some g' →
      Consistent g' := by
    intro g₁ mem hg₁ h
    rcases again_cases g₁ mem with he | ⟨n, r, he⟩
    · rw [he] at h
      cases h
    · rw [he] at h
      exact Option.some.inj h ▸ hg₁
  cases s with
  | enable mem e =>
    simp only [run] at h
    split at h
    · exact hagain { g with enabled_ := e } mem ⟨hg.target, hg.gain, hg.ready⟩ h
    · exact Option.some.inj h ▸ ⟨hg.target, hg.gain, hg.ready⟩
  | setMode mem mode =>
    simp only [run] at h
    split at h
    · exact Option.some.inj h ▸ hg
    · exact hagain { g with mode_ := mode } mem ⟨hg.target, hg.gain, hg.ready⟩ h
  | storeLimits mem minimum maximum =>
    exact hagain { g with minimum_capture_level_ := minimum, maximum_capture_level_ := maximum } mem
      ⟨hg.target, hg.gain, hg.ready⟩ h
  | storeTarget level => exact Option.some.inj h ▸ ⟨hv, hg.gain, hg.ready⟩
  | storeGain gain => exact Option.some.inj h ▸ ⟨hg.target, hv, hg.ready⟩
  | storeLimiter e => exact Option.some.inj h ▸ ⟨hg.target, hg.gain, hg.ready⟩
  | initializeImpl mem n r =>
    rw [run_initializeImpl] at h
    split at h
    · exact Option.some.inj h ▸ ⟨hg.target, hg.gain, hg.ready⟩
    · exact Option.some.inj h ▸ consistent_remade hg mem n r
  | configure => exact Option.some.inj h ▸ consistent_configure hg
  | setStreamAnalogLevel level =>
    exact Option.some.inj h ▸ (kept_setStreamAnalogLevel g level).consistent hg
  | processRenderAudio x => exact Option.some.inj h ▸ (kept_processRenderAudio g x).consistent hg
  | analyzeCaptureAudio audio =>
    obtain ⟨r, hr, rfl⟩ := Option.map_eq_some_iff.mp h
    exact (kept_analyzeCaptureAudio hr).consistent hg
  | processCaptureAudio audio echo =>
    obtain ⟨r, hr, rfl⟩ := Option.map_eq_some_iff.mp h
    exact (kept_processCaptureAudio hr).consistent hg
  | get => exact Option.some.inj h ▸ hg

/-- A section keeps the agreement in mode, format and range, makes the
controllers anew, or goes on with the code that does. -/
theorem made_run {g : GainControlImpl} {s : Section} (hg : Made g ∨ s.Makes) :
    (∀ g', (run g s).1 = some g' → Made g') ∨ Pending Section.Makes (run g s).2 := by
  have hagain : ∀ (g : GainControlImpl) (mem : ℕ → LegacyAgc),
      (∀ g', (again g mem).1 = some g' → Made g') ∨
        Pending Section.Makes (again g mem).2 := by
    intro g mem
    rcases again_cases g mem with h | ⟨n, r, h⟩
    · rw [h]
      exact .inl fun _ h => by cases h
    · rw [h]
      exact .inr (pending_both trivial)
  cases s with
  | enable mem e =>
    have hg := hg.resolve_right id
    simp only [run]
    split
    · exact hagain _ mem
    · rename_i he
      refine .inl fun g' h => Option.some.inj h ▸ ?_
      intro hen
      exact hg (by_contra fun hdis => he ⟨hen, hdis⟩)
  | setMode mem mode =>
    have hg := hg.resolve_right id
    simp only [run]
    split
    · exact .inl fun g' h => Option.some.inj h ▸ hg
    · exact hagain _ mem
  | storeLimits mem minimum maximum => exact (hagain _ mem).imp id pending_leave
  | storeTarget level => exact .inl fun g' h => Option.some.inj h ▸ hg.resolve_right id
  | storeGain gain => exact .inl fun g' h => Option.some.inj h ▸ hg.resolve_right id
  | storeLimiter e => exact .inl fun g' h => Option.some.inj h ▸ hg.resolve_right id
  | initializeImpl mem n r =>
    rw [run_initializeImpl]
    split
    · rename_i he
      exact .inl fun g' h => Option.some.inj h ▸ fun hen => absurd hen he
    · exact .inl fun g' h => Option.some.inj h ▸ made_remade g mem n r
  | configure => exact .inl fun g' h => Option.some.inj h ▸ made_configure (hg.resolve_right id)
  | setStreamAnalogLevel level =>
    exact .inl fun g' h => Option.some.inj h ▸ (kept_setStreamAnalogLevel g level).made
      (hg.resolve_right id)
  | processRenderAudio x =>
    exact .inl fun g' h => Option.some.inj h ▸ (kept_processRenderAudio g x).made
      (hg.resolve_right id)
  | analyzeCaptureAudio audio =>
    refine .inl fun g' h => ?_
    obtain ⟨r, hr, rfl⟩ := Option.map_eq_some_iff.mp h
    exact (kept_analyzeCaptureAudio hr).made (hg.resolve_right id)
  | processCaptureAudio audio echo =>
    refine .inl fun g' h => ?_
    obtain ⟨r, hr, rfl⟩ := Option.map_eq_some_iff.mp h
    exact (kept_processCaptureAudio hr).made (hg.resolve_right id)
  | get => exact .inl fun g' h => Option.some.inj h ▸ hg.resolve_right id

theorem tuned_run {g : GainControlImpl} {s : Section} (hc : Consistent g)
    (hg : Tuned g ∨ s.Tunes) :
    (∀ g', (run g s).1 = some g' → Tuned g') ∨ Pending Section.Tunes (run g s).2 := by
  have hagain : ∀ {g : GainControlImpl} (mem : ℕ → LegacyAgc), Tuned g → ∀ g',
      (again g mem).1 = some g' → Tuned g' := by
    intro g mem hg g' h
    rcases again_cases g mem with he | ⟨n, r, he⟩
    · rw [he] at h
      cases h
    · rw [he] at h
      exact Option.some.inj h ▸ hg
  cases s with
  | enable mem e =>
    have hg := hg.resolve_right id
    simp only [run]
    split
    · exact .inl (hagain (g := { g with enabled_ := e }) mem hg)
    · exact .inl fun g' h => Option.some.inj h ▸ hg
  | setMode mem mode =>
    have hg := hg.resolve_right id
    simp only [run]
    split
    · exact .inl fun g' h => Option.some.inj h ▸ hg
    · exact .inl (hagain (g := { g with mode_ := mode }) mem hg)
  | storeLimits mem minimum maximum =>
    exact .inl (hagain
      (g := { g with minimum_capture_level_ := minimum, maximum_capture_level_ := maximum }) mem
        (hg.resolve_right id))
  | storeTarget level => exact .inr (pending_leave (pending_both trivial))
  | storeGain gain => exact .inr (pending_leave (pending_both trivial))
  | storeLimiter e => exact .inr (pending_leave (pending_both trivial))
  | initializeImpl mem n r =>
    rw [run_initializeImpl]
    split
    · exact .inl fun g' h => Option.some.inj h ▸ hg.resolve_right id
    · exact .inr (pending_both trivial)
  | configure => exact .inl fun g' h => Option.some.inj h ▸ tuned_configure hc
  | setStreamAnalogLevel level =>
    exact .inl fun g' h => Option.some.inj h ▸ (kept_setStreamAnalogLevel g level).tuned
      (hg.resolve_right id)
  | processRenderAudio x =>
    exact .inl fun g' h => Option.some.inj h ▸ (kept_processRenderAudio g x).tuned
      (hg.resolve_right id)
  | analyzeCaptureAudio audio =>
    refine .inl fun g' h => ?_
    obtain ⟨r, hr, rfl⟩ := Option.map_eq_some_iff.mp h
    exact (kept_analyzeCaptureAudio hr).tuned (hg.resolve_right id)
  | processCaptureAudio audio echo =>
    refine .inl fun g' h => ?_
    obtain ⟨r, hr, rfl⟩ := Option.map_eq_some_iff.mp h
    exact (kept_processCaptureAudio hr).tuned (hg.resolve_right id)
  | get => exact .inl fun g' h => Option.some.inj h ▸ hg.resolve_right id

/-! ### Whole runs -/

/-- A property of the object, if there is one. -/
def OfObject (A : GainControlImpl → Prop) (x : Option GainControlImpl) : Prop :=
  ∀ g, x = some g → A g

theorem valid_body (c : Request) (s : Section) (h : Instr.exec s ∈ calls.body c) : s.Valid := by
  cases c with
  | get =>
    obtain rfl : s = .get := by simpa [calls, body, capture] using h
    trivial
  | call c =>
    cases c <;> simp only [calls, body, both, capture, store] at h
    all_goals try split_ifs at h
    all_goals simp only [List.mem_cons, Instr.exec.injEq, reduceCtorEq, List.not_mem_nil, or_false,
      false_or] at h
    all_goals subst h
    all_goals simp only [Section.Valid]
    all_goals omega

section Runs

variable {ι : Type} [DecidableEq ι]

/-- What a thread owes is a property of the object that every section keeps,
restores or goes on to restore. -/
theorem owing_run {A : GainControlImpl → Prop} {R : Section → Prop} (h0 : A GainControlImpl.new)
    (hA : ∀ {g s}, Consistent g → A g ∨ R s → (∀ g', (run g s).1 = some g' → A g') ∨
      Pending R (run g s).2)
    {todo : ι → List Request} {is : List ι} {m : System ι}
    (hrun : Run (Locks.Step calls) (start todo) is m) :
    Owing Section.Valid R (OfObject Consistent) (OfObject A) m := by
  have hnew : Consistent GainControlImpl.new := ⟨by decide, by decide, fun _ hk => by cases hk⟩
  refine hrun.invariant ⟨fun _ _ hs => (by cases hs), ?_, .inl ?_⟩ fun _ _ _ hm hs =>
    owing_step valid_body ?_ hm hs
  · exact fun g hg => Option.some.inj hg ▸ hnew
  · exact fun g hg => Option.some.inj hg ▸ h0
  · intro s x hv hJ
    cases x with
    | none =>
      refine ⟨fun _ h => (by cases h), ?_, fun _ => .inl fun _ h => by cases h⟩
      intro s' hs'
      cases s <;> simp [calls, dead] at hs'
    | some g =>
      refine ⟨fun g' h => consistent_run hv (hJ g rfl) h, valid_run g s, ?_⟩
      intro h
      exact hA (hJ g rfl) (h.imp (fun ha => ha g rfl) id)

/-- Whatever threads have made whatever calls on a new object, in any order of
their steps: whenever no thread is in a call, every controller reports exactly
the settings of the object; and while the object is enabled there is one
controller for each channel, each in its mode, at its rate and with its range of
levels. -/
theorem settled_agree {todo : ι → List Request} {is : List ι} {m : System ι}
    (hrun : Run (Locks.Step calls) (start todo) is m) (hidle : ∀ i, (m.threads i).code = [])
    {g : GainControlImpl} (hg : m.shared = some g) :
    (∀ k ∈ g.gain_controllers_, getConfig k.state_ =
      some ⟨g.target_level_dbfs_, g.compression_gain_db_, if g.limiter_enabled_ then kAgcTrue
        else kAgcFalse⟩) ∧
    (g.enabled_ = true → g.num_proc_channels_ = some g.gain_controllers_.length ∧
      ∀ k ∈ g.gain_controllers_, k.state_.agcMode = mapSetting g.mode_ ∧
        g.sample_rate_hz_ = some k.state_.fs ∧
          k.state_.minLevel = lowestLevel (mapSetting g.mode_) g.minimum_capture_level_ ∧
        k.state_.maxAnalog = highestLevel (mapSetting g.mode_) g.maximum_capture_level_) := by
  have htuned := owing_run (A := Tuned) (R := Section.Tunes) (fun _ hk => by cases hk)
    tuned_run hrun
  have hmade := owing_run (A := Made) (R := Section.Makes) (fun he => by cases he)
    (fun _ => made_run) hrun
  have hc : Consistent g := htuned.inv g hg
  refine ⟨?_, ?_⟩
  · intro k hk
    have hused : k.state_.usedConfig = g.config := htuned.settled hidle g hg k hk
    have hconfig : g.config = ⟨g.target_level_dbfs_, g.compression_gain_db_,
        if g.limiter_enabled_ then kAgcTrue else kAgcFalse⟩ := by
      have := hc.target
      have := hc.gain
      rw [GainControlImpl.config, i16_of ⟨by omega, by omega⟩, i16_of ⟨by omega, by omega⟩]
      rfl
    have hflag : k.state_.initFlag = kInitCheck := (hc.ready k hk).1
    rw [getConfig, if_neg (not_not.mpr hflag), hused, hconfig]
  · intro he
    obtain ⟨hn, hk⟩ := hmade.settled hidle g hg he
    exact ⟨hn, hk⟩

/-- One thread sets the format and enables the object, the other one then sets
the target level. -/
theorem settled_agree_two_threads :
    ∃ is m g, Run (Locks.Step calls)
      (start ![[.call (.initializeImpl (fun _ => .cleared) 2 16000),
        .call (.enable (fun _ => .cleared) true)], [.call (.setTargetLevelDbfs 5)]]) is m ∧
      (∀ i, (m.threads i).code = []) ∧ m.shared = some g ∧ g.target_level_dbfs_ = 5 ∧
      g.gain_controllers_.length = 2 ∧ ∀ k ∈ g.gain_controllers_,
        getConfig k.state_ = some ⟨5, 9, kAgcTrue⟩ ∧
          k.state_.agcMode = kAgcModeAdaptiveAnalog ∧ k.state_.fs = 16000 := by
  have hfree : Unlocked (start ![[.call (.initializeImpl (fun _ => .cleared) 2 16000),
      .call (.enable (fun _ => .cleared) true)], [.call (.setTargetLevelDbfs 5)]]) := fun _ => rfl
  obtain ⟨is₁, -, h₁⟩ := call_alone (i := 0) rfl rfl (hfree.free 0)
  have hfree₁ := hfree.set ((Call.initializeImpl (fun _ => .cleared) 2 16000).run .new) 0 []
    [.call (.enable (fun _ => .cleared) true)]
  obtain ⟨is₂, -, h₂⟩ := call_alone (i := 0) rfl (State.set_self ..) (hfree₁.free 0)
  have hfree₂ := hfree₁.set ((Call.enable (fun _ => .cleared) true).run
    (GainControlImpl.new.initializeImpl (fun _ => .cleared) 2 16000)) 0 [] []
  obtain ⟨is₃, -, h₃⟩ := call_alone (i := 1) (c := .setTargetLevelDbfs 5) rfl rfl
    (hfree₂.free 1)
  have hrun := (h₁.append h₂).append h₃
  obtain ⟨hconfig, hmade⟩ := settled_agree hrun (by intro i; fin_cases i <;> rfl) rfl
  obtain ⟨hn, hk⟩ := hmade rfl
  have hlen := Option.some.inj hn
  refine ⟨_, _, _, hrun, by intro i; fin_cases i <;> rfl, rfl, rfl, hlen.symm, ?_⟩
  intro k hmem
  obtain ⟨hmode, hrate, -, -⟩ := hk k hmem
  exact ⟨hconfig k hmem, hmode, (Option.some.inj hrate).symm⟩

end Runs

/-! ### A lost update -/

theorem format_initializeImpl (g : GainControlImpl) (mem : ℕ → LegacyAgc) (n : ℕ) (r : Int) :
    (g.initializeImpl mem n r).num_proc_channels_ = some n ∧
      (g.initializeImpl mem n r).sample_rate_hz_ = some r := by
  unfold GainControlImpl.initializeImpl
  dsimp only
  split <;> exact ⟨rfl, rfl⟩

theorem format_limits {g g' : GainControlImpl} {mem : ℕ → LegacyAgc} {minimum maximum : Int}
    {n : ℕ} {r : Int} (hn : g.num_proc_channels_ = some n) (hr : g.sample_rate_hz_ = some r)
    (h : CallStep g (.setAnalogLevelLimits mem minimum maximum) g') :
    g'.num_proc_channels_ = some n ∧ g'.sample_rate_hz_ = some r := by
  rcases GainControlImpl.setAnalogLevelLimits_cases h with rfl | ⟨-, h⟩
  · exact ⟨hn, hr⟩
  · rw [GainControlImpl.startAgain] at h
    dsimp only at h
    rw [hn, hr] at h
    obtain rfl := Option.some.inj h
    exact format_initializeImpl _ _ _ _

section Lost

variable {ι : Type} [DecidableEq ι] {m : System ι} {i j : ι} {g : GainControlImpl}
    {mem mem' : ℕ → LegacyAgc}
  {minimum maximum : Int} {n n' : ℕ} {r r' : Int} {cs cs' : List Request}

/-- The first critical section of `set_analog_level_limits`: the limits are
stored, and what is left is an `Initialize` with the format that was read. -/
theorem limits_stored (hg : m.shared = some g) (hn : g.num_proc_channels_ = some n)
    (hr : g.sample_rate_hz_ = some r)
    (hlim : 0 ≤ minimum ∧ minimum ≤ maximum ∧ maximum ≤ 65535)
    (hi : m.threads i = ⟨[], [], .call (.setAnalogLevelLimits mem minimum maximum) :: cs⟩)
    (hfree : Free m i) :
    ∃ is g₁, (∀ j ∈ is, j = i) ∧
      Run (Locks.Step calls) m is
        (m.set (some g₁) i ⟨[], both (.initializeImpl mem n r), cs⟩) := by
  have hbody : calls.body (.call (.setAnalogLevelLimits mem minimum maximum)) =
      store (.storeLimits mem minimum maximum) := by
    simp only [calls, body]
    rw [if_neg (by omega), if_neg (by omega), if_neg (by omega)]
  have hsem : calls.sem (.storeLimits mem minimum maximum) (some g) =
      (some { g with minimum_capture_level_ := minimum, maximum_capture_level_ := maximum },
        .leave .crit_capture_ :: both (.initializeImpl mem n r)) := by
    simp only [calls, run, again, hn, hr]
  have hcall := Locks.Step.call (P := calls) hi
  rw [hbody] at hcall
  have henter := Locks.Step.enter (P := calls) (i := i) (l := .crit_capture_)
    (m.set_self m.shared i ⟨[], store (.storeLimits mem minimum maximum), cs⟩)
    fun j hj => by simp [hfree.set m.shared _ j hj]
  have hexec := Locks.Step.exec (P := calls) (i := i)
    (m.set_self m.shared i ⟨[.crit_capture_], [.exec (.storeLimits mem minimum maximum)], cs⟩)
  have hleave := Locks.Step.leave (P := calls) (i := i)
    (m.set_self (some { g with
      minimum_capture_level_ := minimum, maximum_capture_level_ := maximum }) i ⟨[.crit_capture_],
      .leave .crit_capture_ :: both (.initializeImpl mem n r), cs⟩)
  simp only [State.set_set, State.set_shared, hg, hsem, List.append_nil]
    at hcall henter hexec hleave
  obtain ⟨is, his, hrun⟩ :=
    hcall.cons (henter.cons (hexec.cons (hleave.cons ⟨[], by simp, .nil⟩)))
  exact ⟨is, _, his, hrun⟩

/-- The format of an `Initialize` can be lost. Whenever one thread is to set
limits that are accepted and another one to call `Initialize`, there is an order
of their steps in which both calls return and the format is the one from before;
but in both orders of the two calls the format is the one that `Initialize` was
given. -/
theorem format_lost (hij : j ≠ i) (hg : m.shared = some g) (hn : g.num_proc_channels_ = some n)
    (hr : g.sample_rate_hz_ = some r)
    (hlim : 0 ≤ minimum ∧ minimum ≤ maximum ∧ maximum ≤ 65535)
    (hi : m.threads i = ⟨[], [], .call (.setAnalogLevelLimits mem minimum maximum) :: cs⟩)
    (hj : m.threads j = ⟨[], [], .call (.initializeImpl mem' n' r') :: cs'⟩)
    (hfree : Unlocked m) :
    (∃ is m' g', Run (Locks.Step calls) m is m' ∧ m'.threads i = ⟨[], [], cs⟩ ∧
      m'.threads j = ⟨[], [], cs'⟩ ∧ m'.shared = some g' ∧
        g'.num_proc_channels_ = some n ∧ g'.sample_rate_hz_ = some r) ∧
    (∀ g₁ g₂, CallStep g (.setAnalogLevelLimits mem minimum maximum) g₁ →
      CallStep g₁ (.initializeImpl mem' n' r') g₂ →
        g₂.num_proc_channels_ = some n' ∧ g₂.sample_rate_hz_ = some r') ∧
    ∀ g₁ g₂, CallStep g (.initializeImpl mem' n' r') g₁ →
      CallStep g₁ (.setAnalogLevelLimits mem minimum maximum) g₂ →
        g₂.num_proc_channels_ = some n' ∧ g₂.sample_rate_hz_ = some r' := by
  refine ⟨?_, ?_, ?_⟩
  · -- the other call comes in between the two critical sections
    obtain ⟨is₁, g₁, -, h₁⟩ := limits_stored hg hn hr hlim hi (hfree.free i)
    have hfree₁ := hfree.set (some g₁) i (both (.initializeImpl mem n r)) cs
    obtain ⟨is₂, -, h₂⟩ := call_alone rfl ((m.set_ne hij _ _).trans hj) (hfree₁.free j)
    have hfree₂ := hfree₁.set ((Call.initializeImpl mem' n' r').run g₁) j [] cs'
    have hinit := @alone_initializeImpl (g₁.initializeImpl mem' n' r') mem n r [] _ .nil
    have hord := @ordered_initializeImpl [] [] (.inl rfl) .nil mem n r
    obtain ⟨is₃, -, h₃⟩ :=
      hinit.run rfl ((State.set_ne _ hij.symm _ _).trans (State.set_self ..)) hord (hfree₂.free i)
    refine ⟨_, _, _, (h₁.append h₂).append h₃, State.set_self .., ?_, rfl,
      format_initializeImpl _ _ _ _⟩
    rw [State.set_ne _ hij, State.set_self]
  · intro g₁ g₂ _ h₂
    obtain rfl := Option.some.inj h₂
    exact format_initializeImpl _ _ _ _
  · intro g₁ g₂ h₁ h₂
    obtain rfl := Option.some.inj h₁
    obtain ⟨hn₁, hr₁⟩ := format_initializeImpl g mem' n' r'
    exact format_limits hn₁ hr₁ h₂

/-- The limits are set for two channels at 16 kHz while another thread goes over
to one channel at 8 kHz. -/
theorem format_lost_two_channels :
    ∃ is m g, Run (Locks.Step calls)
        ⟨some { GainControlImpl.new with
          num_proc_channels_ := some 2, sample_rate_hz_ := some 16000 },
            ![⟨[], [], [.call (.setAnalogLevelLimits (fun _ => .cleared) 0 100)]⟩,
              ⟨[], [], [.call (.initializeImpl (fun _ => .cleared) 1 8000)]⟩]⟩ is m ∧
      (∀ k, (m.threads k).Finished) ∧ m.shared = some g ∧ g.num_proc_channels_ = some 2 ∧
      g.sample_rate_hz_ = some 16000 := by
  have hfree : Unlocked
    (⟨some { GainControlImpl.new with
      num_proc_channels_ := some 2, sample_rate_hz_ := some 16000 },
      ![⟨[], [], [.call (.setAnalogLevelLimits (fun _ => .cleared) 0 100)]⟩,
        ⟨[], [], [.call (.initializeImpl (fun _ => .cleared) 1 8000)]⟩]⟩ : System
          (Fin 2)) := by
    intro k
    fin_cases k <;> rfl
  obtain ⟨is, m, g, hrun, h0, h1, hg, hn, hr⟩ :=
    (format_lost (i := 0) (j := 1) (by decide) rfl rfl rfl (by decide) rfl rfl hfree).1
  refine ⟨is, m, g, hrun, ?_, hg, hn, hr⟩
  intro k
  fin_cases k
  · exact ⟨congrArg Thread.code h0, congrArg Thread.calls h0⟩
  · exact ⟨congrArg Thread.code h1, congrArg Thread.calls h1⟩

end Lost

end Interleaving
end MultiChannel
end AgcSpec
