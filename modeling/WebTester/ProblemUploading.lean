import Mathlib.Data.List.Basic
import WebTester.Transition

/-!
# The uploading of problems

The main loop creates a thread for every problem that it uploads, and hands tasks to the pool of the
testing threads. While a problem is installed testing is suspended: the thread holds `suspended`,
and it has waited until the pool was empty. A task passes `suspended` before it is handed to the
pool, not while it is. `mutex` is locked by the main loop and unlocked by the thread. The third
party is the thread that stops the server.

The steps of the parties come in any order, and none of them looks whether the pool is just being
freed, or whether the mutex is still unlocked when it is freed. What a step comes to there is not
said by the library; the results are about the orders without such a step.
-/
namespace WebTester.ProblemUploading
open Transition

/-- Who has locked `suspended`. -/
inductive Holder
  | dispatcher
  | uploader
  deriving DecidableEq, Repr

/-- `Informatics_start_testing_thread`: `suspended` is locked; it is unlocked again; `active` was
found locked. -/
inductive Dispatcher
  | idle
  | gate
  | passed
  | checked
  deriving DecidableEq, Repr

/-- `uploading_thread`: before the request; with a problem; in `Informatics_SuspendTesting`, which
waits for the pool; until `Informatics_ResumeTesting`; before the mutex is unlocked. -/
inductive Uploader
  | none
  | started
  | received
  | draining
  | installing
  | ending
  deriving DecidableEq, Repr

/-- The handlers of `CORE_StopTesting`. `Informatics_StopProblemUploading` locks the mutex twice,
the second time in `mutex_free`. -/
inductive Stopper
  | idle
  | draining
  | drained
  | waiting (again : Bool)
  | holding (again : Bool)
  | freeing
  | done
  deriving DecidableEq, Repr

/-- `mutex` is `NULL`, or it is locked or not. `testing` is `active` of the testing threads,
`active` that of the uploading. -/
structure State where
  suspended : Option Holder
  mutex : Option Bool
  dispatcher : Dispatcher
  uploader : Uploader
  stopper : Stopper
  testing : Bool
  active : Bool
  freeing : Bool
  running : List ℕ
  deriving DecidableEq, Repr

/-- After the module's initialization. -/
def State.initial : State where
  suspended := none
  mutex := none
  dispatcher := .idle
  uploader := .none
  stopper := .idle
  testing := true
  active := true
  freeing := false
  running := []

inductive Event
  | lockGate
  | unlockGate
  | check (found : Bool)
  | full
  | push (task : ℕ)
  | finish (task : ℕ)
  | tick
  | receive
  | nothing
  | suspend
  | suspended
  | resume
  | release
  | stopTesting
  | stoppedTesting
  | stopUploading
  | stopLock
  | stopUnlock
  | stopFree
  deriving DecidableEq, Repr

/-- A task is pushed, the number of threads is asked for, or the pool is freed. -/
def Event.usesPool : Event → Bool
  | .full | .push _ | .suspend | .stopTesting => true
  | _ => false

namespace State

/-- `Informatics_UploadProblem`. `usable` tells that no archive comes from SAMBA, or that SAMBA is
initialized. -/
def tick (usable : Bool) (s : State) : State :=
  if s.mutex = some true then s
  else if usable then { s with mutex := some true, uploader := .started }
  else { s with mutex := some true }

/-- One step. -/
def next (usable : Bool) (s : State) : Event → Option State
  | .lockGate =>
    if s.dispatcher = .idle ∧ s.suspended = none then
      some { s with dispatcher := .gate, suspended := some .dispatcher }
    else none
  | .unlockGate =>
    if s.dispatcher = .gate then some { s with dispatcher := .passed, suspended := none } else none
  | .check found =>
    -- another thread may have locked `active` for its own check
    if s.dispatcher = .passed ∧ (s.testing → found) then
      some { s with dispatcher := if found then .checked else .idle }
    else none
  | .full =>
    if s.dispatcher = .checked then some { s with dispatcher := .idle } else none
  | .push t =>
    if s.dispatcher = .checked then
      some { s with dispatcher := .idle, running := t :: s.running }
    else none
  | .finish t => if t ∈ s.running then some { s with running := s.running.erase t } else none
  | .tick => if s.dispatcher = .idle then some (s.tick usable) else none
  | .receive =>
    if s.uploader = .started ∧ s.active then some { s with uploader := .received } else none
  | .nothing => if s.uploader = .started then some { s with uploader := .ending } else none
  | .suspend =>
    if s.uploader = .received ∧ s.suspended = none then
      some { s with uploader := .draining, suspended := some .uploader, freeing := true }
    else none
  | .suspended =>
    if s.uploader = .draining ∧ s.running = [] then
      some { s with uploader := .installing, freeing := false }
    else none
  | .resume =>
    if s.uploader = .installing then some { s with uploader := .ending, suspended := none }
    else none
  | .release =>
    if s.uploader = .ending then some { s with uploader := .none, mutex := some false } else none
  | .stopTesting =>
    if s.stopper = .idle then
      some { s with stopper := .draining, testing := false, freeing := true }
    else none
  | .stoppedTesting =>
    if s.stopper = .draining ∧ s.running = [] then
      some { s with stopper := .drained, freeing := false }
    else none
  | .stopUploading =>
    if s.stopper = .drained then
      some { s with active := false, stopper := if s.mutex = none then .done else .waiting false }
    else none
  | .stopLock =>
    match s.stopper with
    | .waiting again =>
      if s.mutex = some false then some { s with stopper := .holding again, mutex := some true }
      else none
    | _ => none
  | .stopUnlock =>
    match s.stopper with
    | .holding again =>
      some { s with stopper := if again then .freeing else .waiting true, mutex := some false }
    | _ => none
  | .stopFree =>
    if s.stopper = .freeing then some { s with stopper := .done, mutex := none } else none

/-- The library says what the step does: the pool is not being freed where it is used, and the mutex
is not locked where it is freed. -/
def Defined (s : State) (e : Event) : Prop :=
  (e.usesPool → s.freeing = false) ∧ (e = .stopFree → s.mutex ≠ some true)

instance (s : State) (e : Event) : Decidable (s.Defined e) :=
  inferInstanceAs (Decidable ((_ → _) ∧ (_ → _)))

/-- The steps that the library speaks of. -/
def Step (usable : Bool) : State → Event → State → Prop :=
  Guarded Defined (StepOf (next usable))

end State

/-- The task that is past `suspended` and not handed over yet. -/
def Dispatcher.load : Dispatcher → ℕ
  | .idle | .gate => 0
  | .passed | .checked => 1

theorem Dispatcher.load_le (d : Dispatcher) : d.load ≤ 1 := by cases d <;> decide

/-- The tasks that are tested, or will be without a look at `suspended`. -/
def State.load (s : State) : ℕ := s.running.length + s.dispatcher.load

/-- `Informatics_StopProblemUploading` has the mutex. -/
def Stopper.Holds : Stopper → Prop
  | .holding _ => True
  | _ => False

/-- Who has locked `suspended`, and what is tested meanwhile. -/
structure Gate (s : State) : Prop where
  dispatcher : s.suspended = some .dispatcher ↔ s.dispatcher = .gate
  uploader : s.suspended = some .uploader ↔ s.uploader = .draining ∨ s.uploader = .installing
  alone : s.uploader = .installing → s.load ≤ 1

/-- Who has locked `mutex`. -/
structure Owned (usable : Bool) (s : State) : Prop where
  locked : usable → (s.mutex = some true ↔ s.uploader ≠ .none ∨ s.stopper.Holds)
  apart : s.stopper.Holds → s.uploader = .none ∧ s.mutex = some true
  unusable : usable = false → s.uploader = .none

section Steps

variable {usable : Bool} {s t : State} {e : Event}

theorem Gate.initial : Gate .initial := by
  constructor <;> simp [State.initial]

theorem Owned.initial : Owned usable .initial := by
  constructor <;> simp [State.initial, Stopper.Holds]

/-- What concerns `suspended` is left alone. -/
theorem Gate.of_eq (hs : Gate s) (hsuspended : t.suspended = s.suspended)
    (hdispatcher : t.dispatcher = s.dispatcher) (huploader : t.uploader = s.uploader)
    (hrunning : t.running = s.running) : Gate t := by
  constructor
  · rw [hsuspended, hdispatcher, hs.dispatcher]
  · rw [hsuspended, huploader, hs.uploader]
  · rw [huploader, State.load, hrunning, hdispatcher]
    exact hs.alone

/-- What concerns `mutex` is left alone. -/
theorem Owned.of_eq (hs : Owned usable s) (hmutex : t.mutex = s.mutex)
    (huploader : t.uploader = .none ↔ s.uploader = .none)
    (hstopper : t.stopper.Holds ↔ s.stopper.Holds) :
    Owned usable t := by
  constructor
  · rw [hmutex, ne_eq, huploader, hstopper]
    exact hs.locked
  · rw [hmutex, huploader, hstopper]
    exact hs.apart
  · rw [huploader]
    exact hs.unusable

theorem Gate.tick (hs : Gate s) (hu : Owned usable s) : Gate (s.tick usable) := by
  rw [State.tick]
  split
  · exact hs
  · rename_i hmutex
    split
    · rename_i husable
      have hnone : s.uploader = .none := by
        by_contra hne
        exact hmutex ((hu.locked husable).2 (.inl hne))
      have hsuspended : s.suspended ≠ some .uploader := by simp [hs.uploader, hnone]
      exact ⟨hs.dispatcher, by simp [hsuspended], by simp⟩
    · exact hs.of_eq rfl rfl rfl rfl

theorem Gate.next (hs : Gate s) (hu : Owned usable s) (h : s.next usable e = some t) : Gate t := by
  obtain ⟨hdispatcher, huploader, halone⟩ := hs
  cases e <;> simp only [State.next] at h
  case lockGate =>
    -- `suspended` is free, so no problem is installed
    split at h <;> cases h
    constructor <;> grind
  case unlockGate | check | full | push | finish =>
    split at h <;> cases h
    constructor <;> grind [State.load, Dispatcher.load]
  case tick =>
    split at h <;> cases h
    exact Gate.tick ⟨hdispatcher, huploader, halone⟩ hu
  case suspended =>
    -- the pool is empty, but a task may have passed
    split at h <;> cases h
    have hload := s.dispatcher.load_le
    constructor <;> grind [State.load]
  case receive | nothing | suspend | resume | release =>
    split at h <;> cases h
    constructor <;> grind
  case stopLock | stopUnlock =>
    split at h <;> try split at h
    all_goals cases h
    all_goals exact Gate.of_eq ⟨hdispatcher, huploader, halone⟩ rfl rfl rfl rfl
  all_goals
    split at h <;> cases h
    exact Gate.of_eq ⟨hdispatcher, huploader, halone⟩ rfl rfl rfl rfl

theorem Owned.next (hs : Owned usable s) (hdef : s.Defined e) (h : s.next usable e = some t) :
    Owned usable t := by
  cases e <;> simp only [State.next] at h
  case tick =>
    split at h <;> cases h
    obtain ⟨hlocked, hapart, hunusable⟩ := hs
    rw [State.tick]
    constructor <;> grind
  case receive | nothing | suspend | suspended | resume =>
    split at h <;> cases h
    rename_i hguard
    exact hs.of_eq rfl (by simp [hguard]) Iff.rfl
  case release =>
    split at h <;> cases h
    obtain ⟨hlocked, hapart, hunusable⟩ := hs
    constructor <;> grind
  case stopTesting | stoppedTesting | stopUploading =>
    split at h <;> cases h
    obtain ⟨hlocked, hapart, hunusable⟩ := hs
    constructor <;> grind [Stopper.Holds]
  case stopFree =>
    -- no thread has the mutex that is freed
    split at h <;> cases h
    obtain ⟨hlocked, hapart, hunusable⟩ := hs
    have hmutex : s.mutex ≠ some true := hdef.2 rfl
    constructor <;> grind [Stopper.Holds]
  case stopLock | stopUnlock =>
    obtain ⟨hlocked, hapart, hunusable⟩ := hs
    split at h <;> try split at h
    all_goals cases h
    all_goals constructor <;> grind [Stopper.Holds]
  all_goals
    split at h <;> cases h
    exact hs.of_eq rfl Iff.rfl Iff.rfl

end Steps

theorem inv_of_run {usable : Bool} {es : List Event} {s : State}
    (h : Run (State.Step usable) .initial es s) : Gate s ∧ Owned usable s :=
  h.invariant (I := fun s => Gate s ∧ Owned usable s)
    (fun _ _ _ hs ht => ⟨hs.1.next hs.2 ht.2, hs.2.next ht.1 ht.2⟩) ⟨.initial, .initial⟩

/-- Runs are computed. -/
theorem State.run_of_foldlM {usable : Bool} {es : List Event} {s t : State}
    (h : es.foldlM (restrict Defined (next usable)) s = some t) : Run (Step usable) s es t :=
  (Run.of_foldlM h).mono fun _ _ _ ht => stepOf_restrict.1 ht

/-! ## Testing is suspended -/

/-- As long as a problem is installed no task passes `suspended`. -/
theorem load_next {usable : Bool} {s t : State} {e : Event} (hs : Gate s) (hu : Owned usable s)
    (hinstalling : s.uploader = .installing) (he : e ≠ .resume) (h : s.next usable e = some t) :
    t.uploader = .installing ∧ t.load ≤ s.load := by
  have hsuspended : s.suspended = some .uploader := hs.uploader.2 (.inr hinstalling)
  have hgate : s.dispatcher ≠ .gate := by
    intro hd
    rw [hs.dispatcher.2 hd] at hsuspended
    cases hsuspended
  cases e <;> simp only [State.next] at h
  case resume => exact absurd rfl he
  case tick =>
    split at h <;> cases h
    have hlocked : usable → s.mutex = some true :=
      fun husable => (hu.locked husable).2 (.inl (by simp [hinstalling]))
    rw [State.tick]
    grind [State.load]
  case stopLock | stopUnlock =>
    split at h <;> try split at h
    all_goals cases h
    all_goals exact ⟨hinstalling, Nat.le_refl _⟩
  all_goals
    split at h <;> cases h
    grind [State.load, Dispatcher.load]

theorem load_run {usable : Bool} {s t : State} {es : List Event} (hs : Gate s ∧ Owned usable s)
    (hinstalling : s.uploader = .installing) (hr : Run (State.Step usable) s es t)
    (hresume : .resume ∉ es) : t.uploader = .installing ∧ t.load ≤ s.load := by
  have hinv : (Gate t ∧ Owned usable t) ∧ t.uploader = .installing ∧ t.load ≤ s.load := by
    induction hr with
    | nil => exact ⟨hs, hinstalling, Nat.le_refl _⟩
    | snoc _ hstep ih =>
      obtain ⟨⟨hgate, howned⟩, hu, hle⟩ := ih (by grind)
      obtain ⟨hu', hle'⟩ := load_next hgate howned hu (by grind) hstep.2
      exact ⟨⟨hgate.next howned hstep.2, howned.next hstep.1 hstep.2⟩, hu',
        Nat.le_trans hle' hle⟩
  exact hinv.2

/-- While a problem is installed there is at most one task that is tested or has passed `suspended`,
and until testing is resumed no other passes. -/
theorem testing_suspended (usable : Bool) (es : List Event) (s : State)
    (h : Run (State.Step usable) .initial es s) (hu : s.uploader = .installing) :
    s.load ≤ 1 ∧ ∀ (es' : List Event) (t : State), Run (State.Step usable) s es' t →
      .resume ∉ es' → t.uploader = .installing ∧ t.load ≤ s.load := by
  have hs := inv_of_run h
  refine ⟨hs.1.alone hu, fun es' t ht hresume => ?_⟩
  exact load_run hs hu ht hresume

/-- A task passes, a problem comes, and the task is tested while the problem is installed. -/
theorem testing_suspended_late : ∃ s t,
    [.tick, .lockGate, .unlockGate, .check true, .receive, .suspend, .suspended].foldlM
      (restrict State.Defined (State.next true)) .initial = some s ∧
    [.push 7].foldlM (restrict State.Defined (State.next true)) s = some t ∧
    t.running = [7] ∧ t.uploader = .installing ∧ t.load ≤ s.load := by
  refine ⟨_, _, rfl, rfl, rfl, rfl, ?_⟩
  exact ((testing_suspended true
    [.tick, .lockGate, .unlockGate, .check true, .receive, .suspend, .suspended] _
    (State.run_of_foldlM rfl) rfl).2 [.push 7] _ (State.run_of_foldlM rfl) (by decide)).2

/-! ## The mutex -/

/-- What holds once the main loop has locked the mutex and created no thread. -/
structure Stuck (s : State) : Prop where
  mutex : s.mutex = some true
  uploader : s.uploader = .none
  stopper : ¬s.stopper.Holds

theorem Stuck.next {s t : State} {e : Event} (hs : Stuck s) (hdef : s.Defined e)
    (h : s.next false e = some t) : Stuck t ∧ (t.stopper = .done → s.stopper = .done) := by
  obtain ⟨hmutex, huploader, hstopper⟩ := hs
  cases e <;> simp only [State.next] at h
  case tick =>
    split at h <;> cases h
    rw [State.tick, if_pos hmutex]
    exact ⟨⟨hmutex, huploader, hstopper⟩, id⟩
  case stopLock | stopUnlock =>
    split at h <;> try split at h
    all_goals grind [Stopper.Holds]
  case stopFree => exact absurd hmutex (hdef.2 rfl)
  all_goals
    split at h <;> cases h
    refine ⟨⟨?_, ?_, ?_⟩, ?_⟩ <;> grind [Stopper.Holds]

theorem Stuck.run {s t : State} {es : List Event} (hs : Stuck s)
    (hr : Run (State.Step false) s es t) :
    Stuck t ∧ (t.stopper = .done → s.stopper = .done) := by
  induction hr with
  | nil => exact ⟨hs, id⟩
  | snoc _ hstep ih =>
    have hnext := ih.1.next hstep.1 hstep.2
    exact ⟨hnext.1, fun h => ih.2 (hnext.2 h)⟩

/-- The mutex is locked as long as there is a thread, or the one that stops has it, so there is one
thread at most. Where an archive would come from SAMBA and SAMBA is not initialized, there is never
a thread; the mutex stays locked from the first attempt on, and the server is not stopped any
more. -/
theorem mutex_run (usable : Bool) (es : List Event) (s : State)
    (h : Run (State.Step usable) .initial es s) :
    (usable = true → (s.mutex = some true ↔ s.uploader ≠ .none ∨ s.stopper.Holds)) ∧
    (usable = false → s.uploader = .none ∧ (s.mutex = some true → ¬s.stopper.Holds →
      ∀ (es' : List Event) (t : State), Run (State.Step false) s es' t →
        t.mutex = some true ∧ t.uploader = .none ∧ (t.stopper = .done → s.stopper = .done))) := by
  have hs := (inv_of_run h).2
  refine ⟨hs.locked, fun husable => ⟨hs.unusable husable, fun hmutex hstopper es' t ht => ?_⟩⟩
  have hstuck : Stuck s := ⟨hmutex, hs.unusable husable, hstopper⟩
  obtain ⟨hstuck', hdone⟩ := hstuck.run ht
  exact ⟨hstuck'.mutex, hstuck'.uploader, hdone⟩

/-- After one attempt the server is not stopped. -/
theorem mutex_run_attempt : ∃ s t,
    [.tick].foldlM (restrict State.Defined (State.next false)) .initial = some s ∧
    [.stopTesting, .stoppedTesting, .stopUploading, .tick].foldlM
      (restrict State.Defined (State.next false)) s = some t ∧
    t.uploader = .none ∧ t.stopper = .waiting false ∧ t.mutex = some true := by
  refine ⟨_, _, rfl, rfl, rfl, rfl, ?_⟩
  exact (((mutex_run false [.tick] _ (State.run_of_foldlM rfl)).2 rfl).2 rfl id
    [.stopTesting, .stoppedTesting, .stopUploading, .tick] _ (State.run_of_foldlM rfl)).1

/-- A mutex that the main loop has locked is freed, and there is a thread without one. -/
example : ([.tick, .nothing, .release, .stopTesting, .stoppedTesting, .stopUploading, .stopLock,
    .stopUnlock, .stopLock, .stopUnlock, .tick, .stopFree].foldlM (State.next true) .initial).map
      (fun s => (s.mutex, s.uploader)) = some (none, .started) := rfl

end WebTester.ProblemUploading
