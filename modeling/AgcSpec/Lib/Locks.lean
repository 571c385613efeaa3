/-
# Threads that share a state under recursive locks

A thread makes calls one after the other. The code of a call takes and gives
back locks and runs sections; a section changes the shared state at once and
can put more code in front of what is left of the call. A lock is recursive: a
thread takes a lock it has as often as it wants.

`Ordered` is the discipline: locks are given back in the reverse order, a lock
that the thread does not have is above those it has, and a section runs only
under the locks that guard it. If the code of every call keeps it, then in
every interleaving two threads never have the same lock (`Sound.disjoint`), so
no two sections with a common guard are ready at the same time (`exclusive`);
some thread can go on as long as a call is left (`progress`); and if a section
costs more than the code it puts in front, every run ends (`Step.work_lt`), so
that all calls return (`completes`).

A property of the shared state that a section breaks can be one that the code
owes: a section that restores it is still to come. What is owed holds when no
thread is in a call (`Owing.settled`). A call that no other thread interrupts
does what its code does alone (`Alone.run`).

Key definitions: `Instr`, `Calls`, `Step`, `Ordered`, `Sound`, `cost`, `work`,
`Owing`, `Alone`.
Key theorems: `sound_step`, `exclusive`, `progress`, `Step.work_lt`,
`length_le_work`, `completes`, `owing_step`, `Owing.settled`, `Alone.run`.
-/
import AgcSpec.Lib.Run
import Mathlib

namespace Locks

open Runs

variable {Λ S σ C ι : Type}

/-- An instruction: take a lock, give one back, run a section. -/
inductive Instr (Λ S : Type) where
  | enter (l : Λ)
  | leave (l : Λ)
  | exec (s : S)

/-- The code of the calls, and what a section does: the new shared state and
the code it puts in front. -/
structure Calls (Λ S σ C : Type) where
  body : C → List (Instr Λ S)
  sem : S → σ → σ × List (Instr Λ S)

/-- A thread: its locks, the newest first, what is left of the call it is in,
and the calls after it. -/
structure Thread (Λ S C : Type) where
  held : List Λ
  code : List (Instr Λ S)
  calls : List C

/-- The shared state and the threads. -/
structure State (Λ S σ C ι : Type) where
  shared : σ
  threads : ι → Thread Λ S C

/-- Nothing is left to do. -/
def Thread.Finished (t : Thread Λ S C) : Prop := t.code = [] ∧ t.calls = []

variable [DecidableEq ι]

/-- The state with the shared part `x` and another thread `i`. -/
def State.set (m : State Λ S σ C ι) (x : σ) (i : ι) (t : Thread Λ S C) : State Λ S σ C ι :=
  ⟨x, Function.update m.threads i t⟩

@[simp] theorem State.set_shared (m : State Λ S σ C ι) (x : σ) (i : ι) (t : Thread Λ S C) :
    (m.set x i t).shared = x := rfl

@[simp] theorem State.set_self (m : State Λ S σ C ι) (x : σ) (i : ι) (t : Thread Λ S C) :
    (m.set x i t).threads i = t := by
  simp [State.set]

@[simp] theorem State.set_set (m : State Λ S σ C ι) (x y : σ) (i : ι) (t u : Thread Λ S C) :
    (m.set x i t).set y i u = m.set y i u := by
  simp [State.set]

theorem State.set_ne (m : State Λ S σ C ι) {i j : ι} (h : j ≠ i) (x : σ)
    (t : Thread Λ S C) : (m.set x i t).threads j = m.threads j := by
  simp [State.set, h]

theorem State.set_same (m : State Λ S σ C ι) (i : ι) : m.set m.shared i (m.threads i) = m := by
  simp [State.set]

/-- A step of the thread `i`. A lock is taken if no other thread has it. -/
inductive Step (P : Calls Λ S σ C) (m : State Λ S σ C ι) (i : ι) : State Λ S σ C ι → Prop
  | call {h : List Λ} {c : C} {cs : List C} (ht : m.threads i = ⟨h, [], c :: cs⟩) :
      Step P m i (m.set m.shared i ⟨h, P.body c, cs⟩)
  | enter {h : List Λ} {l : Λ} {k : List (Instr Λ S)} {cs : List C}
    (ht : m.threads i = ⟨h, .enter l :: k, cs⟩)
      (hfree : ∀ j, j ≠ i → l ∉ (m.threads j).held) :
        Step P m i (m.set m.shared i ⟨l :: h, k, cs⟩)
  | leave {h : List Λ} {l : Λ} {k : List (Instr Λ S)} {cs : List C}
    (ht : m.threads i = ⟨l :: h, .leave l :: k, cs⟩) :
      Step P m i (m.set m.shared i ⟨h, k, cs⟩)
  | exec {h : List Λ} {s : S} {k : List (Instr Λ S)} {cs : List C}
    (ht : m.threads i = ⟨h, .exec s :: k, cs⟩) :
      Step P m i (m.set (P.sem s m.shared).1 i ⟨h, (P.sem s m.shared).2 ++ k, cs⟩)

/-! ### The discipline -/

section Discipline

variable [LinearOrder Λ] (P : Calls Λ S σ C) (guard : S → List Λ)

/-- The code keeps the discipline, for a thread with the locks `held`. -/
inductive Ordered : List Λ → List (Instr Λ S) → Prop
  | nil : Ordered [] []
  | enter {held : List Λ} {l : Λ} {k : List (Instr Λ S)} (hl : l ∈ held ∨
    ∀ m ∈ held, m < l)
      (h : Ordered (l :: held) k) : Ordered held (.enter l :: k)
  | leave {held : List Λ} {l : Λ} {k : List (Instr Λ S)} (h : Ordered held k) :
    Ordered (l :: held) (.leave l :: k)
  | exec {held : List Λ} {s : S} {k : List (Instr Λ S)} (hg : guard s ⊆ held)
      (h : ∀ x, Ordered held ((P.sem s x).2 ++ k)) : Ordered held (.exec s :: k)

variable {P guard}

/-- Code that is left has the locks to give back. -/
theorem Ordered.held_eq_nil {held : List Λ} (h : Ordered P guard held []) : held = [] := by
  cases h
  rfl

theorem Ordered.of_enter {held : List Λ} {l : Λ} {k : List (Instr Λ S)}
    (h : Ordered P guard held (.enter l :: k)) :
    (l ∈ held ∨ ∀ m ∈ held, m < l) ∧ Ordered P guard (l :: held) k := by
  cases h with
  | enter hl h => exact ⟨hl, h⟩

theorem Ordered.of_leave {held : List Λ} {l : Λ} {k : List (Instr Λ S)}
    (h : Ordered P guard (l :: held) (.leave l :: k)) : Ordered P guard held k := by
  cases h with
  | leave h => exact h

theorem Ordered.of_exec {held : List Λ} {s : S} {k : List (Instr Λ S)}
    (h : Ordered P guard held (.exec s :: k)) :
    guard s ⊆ held ∧ ∀ x, Ordered P guard held ((P.sem s x).2 ++ k) := by
  cases h with
  | exec hg h => exact ⟨hg, h⟩

/-- Every thread keeps the discipline, and no lock belongs to two of them. -/
structure Sound (P : Calls Λ S σ C) (guard : S → List Λ) (m : State Λ S σ C ι) : Prop where
  ordered : ∀ i, Ordered P guard (m.threads i).held (m.threads i).code
  disjoint : ∀ i j, i ≠ j → ∀ l ∈ (m.threads i).held, l ∉ (m.threads j).held

/-- A thread that goes on in the discipline, with locks that no other has. -/
theorem Sound.set {m : State Λ S σ C ι} (hm : Sound P guard m) {i : ι} {t : Thread Λ S C}
    (ht : Ordered P guard t.held t.code)
    (hfree : ∀ j, j ≠ i → ∀ l ∈ t.held, l ∉ (m.threads j).held) (x : σ) :
    Sound P guard (m.set x i t) := by
  constructor
  · intro j
    by_cases hj : j = i
    · subst hj
      simpa using ht
    · simpa [m.set_ne hj] using hm.ordered j
  · intro j j' hne l hl
    by_cases hj : j = i
    · subst hj
      simp only [State.set_self] at hl
      simpa [m.set_ne hne.symm] using hfree j' hne.symm l hl
    · simp only [m.set_ne hj] at hl
      by_cases hj' : j' = i
      · subst hj'
        simp only [State.set_self]
        exact fun hl' => hfree j hj l hl' hl
      · simpa [m.set_ne hj'] using hm.disjoint j j' hne l hl

/-- A step keeps the discipline, if the code of every call has it. -/
theorem sound_step (hP : ∀ c, Ordered P guard [] (P.body c)) {m m' : State Λ S σ C ι} {i : ι}
    (hm : Sound P guard m) (hs : Step P m i m') : Sound P guard m' := by
  have hord := hm.ordered i
  have hown : ∀ j, j ≠ i → ∀ l ∈ (m.threads i).held, l ∉ (m.threads j).held :=
    fun j hj l hl => hm.disjoint i j hj.symm l hl
  cases hs with
  | call ht =>
    rw [ht] at hord
    obtain rfl := hord.held_eq_nil
    exact hm.set (hP _) (by simp) m.shared
  | enter ht hfree =>
    rw [ht] at hord hown
    refine hm.set hord.of_enter.2 ?_ m.shared
    intro j hj l hmem
    rcases List.mem_cons.mp hmem with rfl | hmem
    · exact hfree j hj
    · exact hown j hj l hmem
  | leave ht =>
    rw [ht] at hord hown
    exact hm.set hord.of_leave (fun j hj l hl => hown j hj l (List.mem_cons_of_mem _ hl)) m.shared
  | @exec h s k cs ht =>
    rw [ht] at hord hown
    exact hm.set (t := ⟨h, (P.sem s m.shared).2 ++ k, cs⟩) (hord.of_exec.2 m.shared) hown _

/-- Two threads are never both ready to run sections with a common guard. -/
theorem exclusive {m : State Λ S σ C ι} (hm : Sound P guard m) {i j : ι} {s s' : S}
    {k k' : List (Instr Λ S)} (hi : (m.threads i).code = .exec s :: k)
    (hj : (m.threads j).code = .exec s' :: k') {l : Λ} (hl : l ∈ guard s)
    (hl' : l ∈ guard s') : i = j := by
  have h1 := hm.ordered i
  have h2 := hm.ordered j
  rw [hi] at h1
  rw [hj] at h2
  by_contra hne
  exact hm.disjoint i j hne l (h1.of_exec.1 hl) (h2.of_exec.1 hl')

/-! ### Progress

A thread that cannot go on waits for a lock of another one, above all its own.
The holder of the highest lock that is waited for does not wait itself. -/

/-- The thread `i` waits for the lock `l`. -/
def Waits (m : State Λ S σ C ι) (i : ι) (l : Λ) : Prop :=
  (∃ k, (m.threads i).code = .enter l :: k) ∧ ∃ j, j ≠ i ∧ l ∈ (m.threads j).held

/-- A thread with something to do can go on or waits. -/
theorem step_or_waits {m : State Λ S σ C ι} (hm : Sound P guard m) {i : ι}
    (hi : ¬ (m.threads i).Finished) : (∃ m', Step P m i m') ∨ ∃ l, Waits m i l := by
  have hord := hm.ordered i
  cases ht : m.threads i with
  | mk held code calls =>
    rw [ht] at hord hi
    cases hord with
    | nil =>
      cases calls with
      | nil => exact absurd ⟨rfl, rfl⟩ hi
      | cons c cs => exact .inl ⟨_, .call ht⟩
    | @enter _ l k hl h =>
      by_cases hfree : ∀ j, j ≠ i → l ∉ (m.threads j).held
      · exact .inl ⟨_, .enter ht hfree⟩
      · push Not at hfree
        exact .inr ⟨l, ⟨k, by rw [ht]⟩, hfree⟩
    | leave h => exact .inl ⟨_, .leave ht⟩
    | exec hg h => exact .inl ⟨_, .exec ht⟩

omit [DecidableEq ι] in
/-- A lock that is waited for is above those of the thread that waits. -/
theorem Waits.lt {m : State Λ S σ C ι} (hm : Sound P guard m) {i : ι} {l l' : Λ}
    (h : Waits m i l) (hl' : l' ∈ (m.threads i).held) : l' < l := by
  obtain ⟨⟨k, hk⟩, j, hj, hl⟩ := h
  have hord := hm.ordered i
  rw [hk] at hord
  rcases hord.of_enter.1 with hown | habove
  · exact absurd hl (hm.disjoint i j hj.symm l hown)
  · exact habove l' hl'

/-- No deadlock: while a thread has something to do, some thread can go on. -/
theorem progress [Finite ι] {m : State Λ S σ C ι} (hm : Sound P guard m)
    (hleft : ∃ i, ¬ (m.threads i).Finished) : ∃ i m', Step P m i m' := by
  by_contra hstuck
  push Not at hstuck
  have hwaits : ∀ i, ¬ (m.threads i).Finished → ∃ l, Waits m i l := fun i hi =>
    (step_or_waits hm hi).resolve_left fun ⟨m', hs⟩ => hstuck i m' hs
  have hfinite : {l | ∃ i, Waits m i l}.Finite := by
    have hsub : {l | ∃ i, Waits m i l} ⊆ ⋃ i,
        {l | ∃ k, (m.threads i).code = .enter l :: k} := by
      rintro l ⟨i, hk, -⟩
      exact Set.mem_iUnion.mpr ⟨i, hk⟩
    refine (Set.finite_iUnion fun i => Set.Subsingleton.finite ?_).subset hsub
    rintro l ⟨k, hk⟩ l' ⟨k', hk'⟩
    rw [hk] at hk'
    cases hk'
    rfl
  obtain ⟨i, hi⟩ := hleft
  obtain ⟨l, hl⟩ := hwaits i hi
  obtain ⟨top, ⟨i', htop⟩, hmax⟩ := hfinite.exists_maximalFor id _ ⟨l, i, hl⟩
  obtain ⟨-, j, -, hheld⟩ := htop
  -- the holder of the highest lock has code left, so it waits too, for a higher one
  have hj : ¬ (m.threads j).Finished := by
    rintro ⟨hcode, -⟩
    have hord := hm.ordered j
    rw [hcode] at hord
    rw [hord.held_eq_nil] at hheld
    cases hheld
  obtain ⟨l', hl'⟩ := hwaits j hj
  have hlt := hl'.lt hm hheld
  exact absurd (hmax ⟨j, hl'⟩ hlt.le) (not_le.mpr hlt)

end Discipline

/-! ### Every run ends -/

section Work

variable (weight : S → ℕ)

/-- What code costs: a step for a lock, and the weight of a section. -/
def cost : List (Instr Λ S) → ℕ
  | [] => 0
  | .enter _ :: k => 1 + cost k
  | .leave _ :: k => 1 + cost k
  | .exec s :: k => weight s + cost k

theorem cost_append (k k' : List (Instr Λ S)) :
    cost weight (k ++ k') = cost weight k + cost weight k' := by
  induction k with
  | nil => simp [cost]
  | cons a k ih => cases a <;> simp [cost, ih, Nat.add_assoc]

/-- What is left to do for a thread; a call is one more than its code. -/
def Thread.work (P : Calls Λ S σ C) (t : Thread Λ S C) : ℕ :=
  cost weight t.code + (t.calls.map fun c => 1 + cost weight (P.body c)).sum

/-- What is left to do. -/
def work [Fintype ι] (P : Calls Λ S σ C) (m : State Λ S σ C ι) : ℕ :=
  ∑ i, (m.threads i).work weight P

variable {weight} [Fintype ι] {P : Calls Λ S σ C}

theorem work_set_lt {m : State Λ S σ C ι} {i : ι} {t : Thread Λ S C}
    (h : t.work weight P < (m.threads i).work weight P)
    (x : σ) : work weight P (m.set x i t) < work weight P m := by
  unfold work
  refine Finset.sum_lt_sum ?_ ⟨i, Finset.mem_univ i, by simpa using h⟩
  intro j _
  by_cases hj : j = i
  · subst hj
    simpa using h.le
  · simp [m.set_ne hj]

/-- A step leaves less to do, if a section costs more than the code it puts in
front. -/
theorem Step.work_lt (hw : ∀ s x, cost weight (P.sem s x).2 < weight s)
    {m m' : State Λ S σ C ι} {i : ι}
    (hs : Step P m i m') : work weight P m' < work weight P m := by
  cases hs with
  | call ht =>
    refine work_set_lt ?_ m.shared
    rw [ht]
    simp [Thread.work, cost]
  | enter ht _ =>
    refine work_set_lt ?_ m.shared
    rw [ht]
    simp [Thread.work, cost]
  | leave ht =>
    refine work_set_lt ?_ m.shared
    rw [ht]
    simp [Thread.work, cost]
  | @exec _ s _ _ ht =>
    refine work_set_lt ?_ _
    rw [ht]
    have := hw s m.shared
    simp only [Thread.work, cost, cost_append]
    omega

/-- A run has no more steps than there was to do. -/
theorem length_le_work (hw : ∀ s x, cost weight (P.sem s x).2 < weight s)
    {m m' : State Λ S σ C ι} {is : List ι}
    (hrun : Run (Step P) m is m') : is.length + work weight P m' ≤ work weight P m := by
  induction hrun with
  | nil => simp
  | snoc _ hs ih =>
    have := hs.work_lt hw
    rw [List.length_append, List.length_singleton]
    omega

/-- Every state can be run until all calls have returned. -/
theorem completes [LinearOrder Λ] {guard : S → List Λ}
    (hP : ∀ c, Ordered P guard [] (P.body c)) (hw : ∀ s x, cost weight (P.sem s x).2 < weight s)
    {m : State Λ S σ C ι} (hm : Sound P guard m) :
    ∃ is m', Run (Step P) m is m' ∧ ∀ i, (m'.threads i).Finished := by
  induction hn : work weight P m using Nat.strong_induction_on generalizing m with
  | _ n ih =>
    by_cases hleft : ∃ i, ¬ (m.threads i).Finished
    · obtain ⟨i, m₁, hs⟩ := progress hm hleft
      obtain ⟨is, m₂, hrun, hdone⟩ := ih _ (hn ▸ hs.work_lt hw) (sound_step hP hm hs) rfl
      exact ⟨i :: is, m₂, (Run.one hs).append hrun, hdone⟩
    · push Not at hleft
      exact ⟨[], m, .nil, hleft⟩

end Work

/-! ### What the code owes -/

/-- A section with the property `R` is still to come. -/
def Pending (R : S → Prop) (k : List (Instr Λ S)) : Prop := ∃ s, Instr.exec s ∈ k ∧ R s

/-- All sections to come are valid, the shared state has the invariant `J`, and
it has the property `A` or some thread is to run a section that restores it. -/
structure Owing (V R : S → Prop) (J A : σ → Prop) (m : State Λ S σ C ι) : Prop where
  valid : ∀ i s, Instr.exec s ∈ (m.threads i).code → V s
  inv : J m.shared
  owed : A m.shared ∨ ∃ i, Pending R (m.threads i).code

section Owing

variable {P : Calls Λ S σ C} {V R : S → Prop} {J A : σ → Prop}

/-- Code of the thread `i` whose sections are valid, where nothing that was to
come is lost. -/
theorem Owing.set {m : State Λ S σ C ι} (hm : Owing V R J A m) {i : ι} {t : Thread Λ S C}
    (hv : ∀ s, Instr.exec s ∈ t.code → V s) {x : σ} (hx : J x)
    (howed : A m.shared ∨ Pending R (m.threads i).code → A x ∨ Pending R t.code) :
    Owing V R J A (m.set x i t) := by
  have hself : A x ∨ Pending R t.code → A x ∨ ∃ j,
      Pending R ((m.set x i t).threads j).code :=
    fun h => h.imp id fun hp => ⟨i, by simpa using hp⟩
  refine ⟨?_, hx, ?_⟩
  · intro j s hs
    by_cases hj : j = i
    · subst hj
      exact hv s (by simpa using hs)
    · exact hm.valid j s (by simpa [m.set_ne hj] using hs)
  · rcases hm.owed with hA | ⟨j, hp⟩
    · exact hself (howed (.inl hA))
    · by_cases hj : j = i
      · subst hj
        exact hself (howed (.inr hp))
      · exact .inr ⟨j, by simpa [m.set_ne hj] using hp⟩

/-- A step keeps what is owed, if every section keeps the property, restores it
or puts a section in front that does. -/
theorem owing_step (hbody : ∀ c s, Instr.exec s ∈ P.body c → V s)
    (hsem : ∀ s x, V s → J x → J (P.sem s x).1 ∧
      (∀ s', Instr.exec s' ∈ (P.sem s x).2 → V s') ∧
        (A x ∨ R s → A (P.sem s x).1 ∨ Pending R (P.sem s x).2))
    {m m' : State Λ S σ C ι} {i : ι} (hm : Owing V R J A m) (hs : Step P m i m') :
    Owing V R J A m' := by
  have hvalid := hm.valid i
  cases hs with
  | call ht =>
    refine hm.set (hbody _) hm.inv ?_
    rw [ht]
    rintro (hA | ⟨s, hs, -⟩)
    · exact .inl hA
    · cases hs
  | enter ht _ =>
    rw [ht] at hvalid
    refine hm.set (fun s hs => hvalid s (List.mem_cons_of_mem _ hs)) hm.inv ?_
    rw [ht]
    simp [Pending]
  | leave ht =>
    rw [ht] at hvalid
    refine hm.set (fun s hs => hvalid s (List.mem_cons_of_mem _ hs)) hm.inv ?_
    rw [ht]
    simp [Pending]
  | @exec h s k cs ht =>
    rw [ht] at hvalid
    obtain ⟨hJ, hV, hA⟩ := hsem s m.shared (hvalid s List.mem_cons_self) hm.inv
    have hfront : Pending R (P.sem s m.shared).2 → Pending R ((P.sem s m.shared).2 ++ k) :=
      fun ⟨s', hs', hR⟩ => ⟨s', List.mem_append_left _ hs', hR⟩
    refine hm.set (t := ⟨h, (P.sem s m.shared).2 ++ k, cs⟩) ?_ hJ ?_
    · intro s' hs'
      rcases List.mem_append.mp hs' with hs' | hs'
      · exact hV s' hs'
      · exact hvalid s' (List.mem_cons_of_mem _ hs')
    · rw [ht]
      rintro (hA' | ⟨s', hs', hR⟩)
      · exact (hA (.inl hA')).imp id hfront
      · -- the section that was to come is this one, or it is behind it
        rcases List.mem_cons.mp hs' with heq | hs'
        · cases heq
          exact (hA (.inr hR)).imp id hfront
        · exact .inr ⟨s', List.mem_append_right _ hs', hR⟩

omit [DecidableEq ι] in
/-- Nothing is owed when no thread is in a call. -/
theorem Owing.settled {m : State Λ S σ C ι} (hm : Owing V R J A m)
    (hidle : ∀ i, (m.threads i).code = []) : A m.shared := by
  rcases hm.owed with hA | ⟨i, s, hs, -⟩
  · exact hA
  · rw [hidle i] at hs
    cases hs

end Owing

/-! ### A call alone -/

/-- What code does to the shared state if no other thread comes between. -/
inductive Alone (P : Calls Λ S σ C) : σ → List (Instr Λ S) → σ → Prop
  | nil {x : σ} : Alone P x [] x
  | enter {x y : σ} {l : Λ} {k : List (Instr Λ S)} (h : Alone P x k y) :
    Alone P x (.enter l :: k) y
  | leave {x y : σ} {l : Λ} {k : List (Instr Λ S)} (h : Alone P x k y) :
    Alone P x (.leave l :: k) y
  | exec {x y : σ} {s : S} {k : List (Instr Λ S)}
    (h : Alone P (P.sem s x).1 ((P.sem s x).2 ++ k) y) :
      Alone P x (.exec s :: k) y

theorem Step.cons {P : Calls Λ S σ C} {m m₁ m₂ : State Λ S σ C ι} {i : ι}
    (hs : Step P m i m₁) (h : ∃ is, (∀ j ∈ is, j = i) ∧ Run (Step P) m₁ is m₂) :
    ∃ is, (∀ j ∈ is, j = i) ∧ Run (Step P) m is m₂ := by
  obtain ⟨is, his, hrun⟩ := h
  exact ⟨i :: is, by simpa using his, (Run.one hs).append hrun⟩

/-- The other threads have no locks. -/
def Free (m : State Λ S σ C ι) (i : ι) : Prop := ∀ j, j ≠ i → (m.threads j).held = []

theorem Free.set {m : State Λ S σ C ι} {i : ι} (h : Free m i) (x : σ) (t : Thread Λ S C) :
    Free (m.set x i t) i := by
  intro j hj
  rw [m.set_ne hj]
  exact h j hj

/-- No thread has a lock. -/
def Unlocked (m : State Λ S σ C ι) : Prop := ∀ j, (m.threads j).held = []

omit [DecidableEq ι] in
theorem Unlocked.free {m : State Λ S σ C ι} (h : Unlocked m) (i : ι) : Free m i :=
  fun j _ => h j

theorem Unlocked.set {m : State Λ S σ C ι} (h : Unlocked m) (x : σ) (i : ι)
    (k : List (Instr Λ S)) (cs : List C) : Unlocked (m.set x i ⟨[], k, cs⟩) := by
  intro j
  by_cases hj : j = i
  · subst hj
    simp
  · rw [m.set_ne hj]
    exact h j

/-- A thread can run its code to the end while the others have no locks. -/
theorem Alone.run [LinearOrder Λ] {P : Calls Λ S σ C} {guard : S → List Λ} {x y : σ}
    {k : List (Instr Λ S)} (h : Alone P x k y) :
    ∀ {m : State Λ S σ C ι} {i : ι} {held : List Λ} {cs : List C}, m.shared = x →
      m.threads i = ⟨held, k, cs⟩ → Ordered P guard held k → Free m i →
      ∃ is, (∀ j ∈ is, j = i) ∧ Run (Step P) m is (m.set y i ⟨[], [], cs⟩) := by
  induction h with
  | nil =>
    intro m i held cs hx ht hord hfree
    subst hx
    obtain rfl := hord.held_eq_nil
    exact ⟨[], by simp, by rw [← ht, m.set_same]; exact .nil⟩
  | @enter x y l k _ ih =>
    intro m i held cs hx ht hord hfree
    have hrest := @ih (m.set m.shared i ⟨l :: held, k, cs⟩) i (l :: held) cs hx
      (by simp) hord.of_enter.2 (hfree.set _ _)
    rw [State.set_set] at hrest
    exact (Step.enter ht fun j hj => by simp [hfree j hj]).cons hrest
  | @leave x y l k _ ih =>
    intro m i held cs hx ht hord hfree
    cases hord with
    | @leave held _ _ hord =>
      have hrest := @ih (m.set m.shared i ⟨held, k, cs⟩) i held cs hx (by simp) hord
        (hfree.set _ _)
      rw [State.set_set] at hrest
      exact (Step.leave ht).cons hrest
  | @exec x y s k _ ih =>
    intro m i held cs hx ht hord hfree
    subst hx
    have hrest := @ih (m.set (P.sem s m.shared).1 i ⟨held, (P.sem s m.shared).2 ++ k, cs⟩) i
      held cs rfl (by simp)
      (hord.of_exec.2 m.shared) (hfree.set _ _)
    rw [State.set_set] at hrest
    exact (Step.exec ht).cons hrest

end Locks
