import Mathlib.Data.Fintype.Basic
import WebTester.TestingThreads
import WebTester.Transition

/-!
# Interrupted runs are not graded

A thread that `LOOP_CHECK_ACTIVE` sent out of the cycle by tests is to be stopped by its
last check. It is, unless another party is between its trylock and its unlock then; in
that case the points of a part of the tests are returned.
-/
namespace WebTester.Informatics
open CString Librun Transition

/-! ## Steps of one thread -/

namespace Thread

variable {th : Thread} {p : Point}

lemma leftEarly_congr {th' : Thread} (h : th'.stopped = th.stopped) :
    th'.leftEarly = th.leftEarly := by
  rw [leftEarly, leftEarly, h]

@[simp] lemma begin_stopped (th : Thread) : th.begin.stopped = th.stopped := by
  unfold begin
  split <;> rfl

/-- Going on changes the accumulators, the tests to come and the place in the code. -/
lemma proceed_frame (th : Thread) (p : Point) :
    (th.proceed p).job = th.job ∧ (th.proceed p).stopped = th.stopped := by
  cases p with
  | compiled =>
    simp only [proceed]
    split_ifs <;> exact ⟨rfl, rfl⟩
  | started =>
    simp only [proceed]
    split
    · exact ⟨rfl, rfl⟩
    · split <;> exact ⟨rfl, rfl⟩
  | executed =>
    simp only [proceed]
    split
    · exact ⟨rfl, rfl⟩
    · split <;> exact ⟨rfl, rfl⟩
  | checked =>
    simp only [proceed]
    split
    · exact ⟨rfl, rfl⟩
    · split <;> exact ⟨rfl, rfl⟩
  | loopDone => exact ⟨rfl, rfl⟩
  | final => exact ⟨rfl, rfl⟩

@[simp] lemma proceed_stopped (th : Thread) (p : Point) : (th.proceed p).stopped = th.stopped :=
  (th.proceed_frame p).2

/-- Where a thread stands that has left the cycle early. -/
def Late (pc : Pc) : Prop :=
  pc = .trylock .loopDone ∨ pc = .unlock .loopDone ∨ pc = .trylock .final ∨
    pc = .unlock .final ∨ pc = .ended .interrupted

lemma late_unlock (h : Late (.trylock p)) : Late (.unlock p) := by
  rcases h with h | h | h | h | h
  · cases h
    exact .inr (.inl rfl)
  · cases h
  · cases h
    exact .inr (.inr (.inr (.inl rfl)))
  · cases h
  · cases h

/-- A thread that has left early stays on its way out until the last check; only there
can it return its points. -/
lemma proceed_late (hpc : Late (.trylock p)) (hp : p ≠ .final) : Late (th.proceed p).pc := by
  cases p with
  | loopDone => simp [proceed, Late]
  | final => exact absurd rfl hp
  | _ => simp [Late] at hpc

lemma withdraw_late (h : (th.withdraw p).leftEarly = true)
    (hth : th.leftEarly = true → Late (.unlock p)) : Late (th.withdraw p).pc := by
  cases p with
  | compiled =>
    have hl : th.leftEarly = true := by
      cases hs : th.stopped with
      | none => simp [leftEarly, withdraw, hs, Point.inLoop] at h
      | some q => simpa [leftEarly, withdraw, hs] using h
    simpa [Late] using hth hl
  | started => simp [withdraw, toDone, Late]
  | executed => simp [withdraw, toDone, Late]
  | checked => simp [withdraw, toDone, Late]
  | loopDone => simp [withdraw, Late]
  | final => simp [withdraw, Late]

end Thread

/-! ## Who holds the mutex -/

namespace Testing

section Invariants

variable {ι : Type} {s : Testing ι}

/-- Whoever has locked `active` is between a trylock and an unlock, except the module. -/
structure Owned (s : Testing ι) : Prop where
  thread : ∀ i, s.active = some (.thread i) → (s.threads i).pc.holds = true
  starter : s.active = some .starter → s.starter = true
  stopper : s.active = some .stopper → s.stopper = .holds

/-- Threads that have left early are on their way out, and the module has released
`active` for good. -/
structure Leaving (s : Testing ι) : Prop where
  released : ∀ i, (s.threads i).leftEarly = true → s.active ≠ some .module
  late : ∀ i, (s.threads i).leftEarly = true → Thread.Late (s.threads i).pc

lemma owned_initial : Owned (initial : Testing ι) where
  thread i h := by simp [initial] at h
  starter h := by simp [initial] at h
  stopper h := by simp [initial] at h

lemma owned_of_free (h : s.active = none) : Owned s where
  thread i hi := by simp [h] at hi
  starter hi := by simp [h] at hi
  stopper hi := by simp [h] at hi

lemma leaving_initial : Leaving (initial : Testing ι) where
  released i h := by simp [initial, Thread.idle, Thread.leftEarly] at h
  late i h := by simp [initial, Thread.idle, Thread.leftEarly] at h

/-- No party but the thread is between a trylock and an unlock when a thread that has left
the cycle early makes its last check. -/
def Undisturbed (s : Testing ι) : TestingEvent ι → Prop
  | .trylock i => (s.threads i).leftEarly = true → (s.threads i).pc = .trylock .final →
      s.starter = false ∧ s.stopper ≠ .holds ∧ ∀ j, (s.threads j).pc.holds = false
  | _ => True

/-- Then `active` is free. -/
lemma active_eq_none {i : ι} (ho : Owned s) (hl : Leaving s)
    (hi : (s.threads i).leftEarly = true) (hst : s.starter = false) (hsp : s.stopper ≠ .holds)
    (hth : ∀ j, (s.threads j).pc.holds = false) : s.active = none := by
  cases ha : s.active with
  | none => rfl
  | some w =>
    exfalso
    cases w with
    | module => exact hl.released i hi ha
    | stopper => exact hsp (ho.stopper ha)
    | starter => simp [ho.starter ha] at hst
    | thread j =>
      have hh := ho.thread j ha
      simp [hth j] at hh

end Invariants

/-! ## Steps of the module -/

variable {ι : Type} [DecidableEq ι] {s t : Testing ι} {e : TestingEvent ι}

/-- What a step can do, with its guards. -/
inductive Moved (s : Testing ι) : TestingEvent ι → Testing ι → Prop
  | start {i : ι} (job : Job) (hi : (s.threads i).pc = .idle) :
      Moved s (.start i job) (s.setThread i (.push job))
  | refuse (hs : s.active = none) :
      Moved s .refuse { s with active := some .starter, starter := true }
  | refused (hs : s.starter = true) : Moved s .refused { s with active := none, starter := false }
  | stopHold (hs : s.active = none) :
      Moved s .stopTry { s with active := some .stopper, stopper := .holds }
  | stopTry (hs : s.active ≠ none) (hi : s.stopper = .idle) :
      Moved s .stopTry { s with stopper := .releases }
  | stopUnlock : Moved s .stopUnlock { s with active := none, stopper := .idle }
  | begin {i : ι} (hi : (s.threads i).pc = .begun) :
      Moved s (.begin i) (s.setThread i (s.threads i).begin)
  | lock {i : ι} {p : Point} (hi : (s.threads i).pc = .trylock p) (hs : s.active = none) :
      Moved s (.trylock i)
        { s.setThread i { s.threads i with pc := .unlock p } with active := some (.thread i) }
  | proceed {i : ι} {p : Point} (hi : (s.threads i).pc = .trylock p) (hs : s.active ≠ none) :
      Moved s (.trylock i) (s.setThread i ((s.threads i).proceed p))
  | unlock {i : ι} {p : Point} (hi : (s.threads i).pc = .unlock p) :
      Moved s (.unlock i) { s.setThread i ((s.threads i).withdraw p) with active := none }

theorem next_moved (h : s.next e = some t) : Moved s e t := by
  cases e with
  | start i job =>
    simp only [next] at h
    split_ifs at h with hc
    obtain rfl := Option.some.inj h
    exact .start job hc.2.2
  | refuse =>
    simp only [next] at h
    split_ifs at h with hc
    obtain rfl := Option.some.inj h
    exact .refuse hc.1
  | refused =>
    simp only [next] at h
    split_ifs at h with hc
    obtain rfl := Option.some.inj h
    exact .refused hc
  | stopTry =>
    simp only [next] at h
    split_ifs at h with hc hs
    · obtain rfl := Option.some.inj h
      exact .stopHold hs
    · obtain rfl := Option.some.inj h
      exact .stopTry hs (not_not.1 hc)
  | stopUnlock =>
    simp only [next] at h
    split_ifs at h with hc
    obtain rfl := Option.some.inj h
    exact .stopUnlock
  | begin i =>
    simp only [next] at h
    split_ifs at h with hc
    obtain rfl := Option.some.inj h
    exact .begin hc
  | trylock i =>
    simp only [next] at h
    split at h
    · rename_i p hp
      split_ifs at h with hs
      · obtain rfl := Option.some.inj h
        exact .lock hp hs
      · obtain rfl := Option.some.inj h
        exact .proceed hp hs
    · cases h
  | unlock i =>
    simp only [next] at h
    split at h
    · rename_i p hp
      obtain rfl := Option.some.inj h
      exact .unlock hp
    · cases h

@[simp] lemma setThread_self (s : Testing ι) (i : ι) (th : Thread) :
    (s.setThread i th).threads i = th := by simp [setThread]
lemma setThread_other (s : Testing ι) {i j : ι} (th : Thread) (h : j ≠ i) :
    (s.setThread i th).threads j = s.threads j := by simp [setThread, h]

/-- A thread that does not hold `active` may move. -/
lemma Owned.setThread {i : ι} (h : Owned s) (hi : (s.threads i).pc.holds = false) (th : Thread) :
    Owned (s.setThread i th) where
  thread j hj := by
    have hh := h.thread j hj
    have hne : j ≠ i := by
      rintro rfl
      simp [hi] at hh
    rwa [setThread_other s th hne]
  starter := h.starter
  stopper := h.stopper

theorem Owned.step (h : Owned s) (hm : Moved s e t) : Owned t := by
  cases hm with
  | start job hi => exact h.setThread (by simp [hi, Pc.holds]) _
  | begin hi => exact h.setThread (by simp [hi, Pc.holds]) _
  | proceed hi _ => exact h.setThread (by simp [hi, Pc.holds]) _
  | refuse hs => exact ⟨fun i hi => by simp at hi, fun _ => rfl, fun hi => by simp at hi⟩
  | refused hs => exact owned_of_free rfl
  | stopHold hs => exact ⟨fun i hi => by simp at hi, fun hi => by simp at hi, fun _ => rfl⟩
  | stopTry hs hi =>
    refine ⟨h.thread, h.starter, fun ha => ?_⟩
    have hh := h.stopper ha
    simp [hi] at hh
  | stopUnlock => exact owned_of_free rfl
  | lock hi hs =>
    refine ⟨fun j hj => ?_, fun ha => by simp at ha, fun ha => by simp at ha⟩
    obtain rfl := Holder.thread.inj (Option.some.inj hj)
    simp [Pc.holds]
  | unlock hi => exact owned_of_free rfl

/-- One thread moves while the mutex stays or changes hands. -/
lemma Leaving.update {i : ι} {th : Thread} {a : Option (Holder ι)} (h : Leaving s)
    (ha : a = some .module → s.active = some .module)
    (hleft : th.leftEarly = true → a ≠ some .module ∧ Thread.Late th.pc) :
    Leaving { s.setThread i th with active := a } := by
  have hsplit : ∀ j, (s.setThread i th).threads j = th ∧ j = i ∨
      (s.setThread i th).threads j = s.threads j := by
    intro j
    by_cases hj : j = i
    · subst hj
      exact .inl ⟨by simp, rfl⟩
    · exact .inr (setThread_other s th hj)
  constructor
  · intro j hj hm
    rcases hsplit j with ⟨hth, -⟩ | hth
    · exact (hleft (by simpa [hth] using hj)).1 hm
    · exact h.released j (by simpa [hth] using hj) (ha hm)
  · intro j hj
    rcases hsplit j with ⟨hth, -⟩ | hth
    · have hlate := (hleft (by simpa [hth] using hj)).2
      simpa [hth] using hlate
    · have hlate := h.late j (by simpa [hth] using hj)
      simpa [hth] using hlate

theorem Leaving.step (h : Leaving s) (ho : Owned s) (hg : Undisturbed s e) (hm : Moved s e t) :
    Leaving t := by
  cases hm with
  | @start i job hi =>
    refine h.update (a := s.active) id fun hl => ?_
    simp [Thread.leftEarly, Thread.push] at hl
  | refuse => exact ⟨fun i _ => by simp, h.late⟩
  | refused => exact ⟨fun i _ => by simp, h.late⟩
  | stopHold => exact ⟨fun i _ => by simp, h.late⟩
  | stopTry => exact ⟨h.released, h.late⟩
  | stopUnlock => exact ⟨fun i _ => by simp, h.late⟩
  | @begin i hi =>
    refine h.update (a := s.active) id fun hl => ?_
    rw [Thread.leftEarly_congr (Thread.begin_stopped _)] at hl
    have hlate := h.late i hl
    simp [hi, Thread.Late] at hlate
  | @lock i p hi hs =>
    refine h.update (by simp) fun hl => ⟨by simp, ?_⟩
    have hlate := h.late i hl
    rw [hi] at hlate
    exact Thread.late_unlock hlate
  | @proceed i p hi hs =>
    refine h.update (a := s.active) id fun hl => ?_
    rw [Thread.leftEarly_congr (Thread.proceed_stopped _ _)] at hl
    have hlate := h.late i hl
    rw [hi] at hlate
    refine ⟨h.released i hl, Thread.proceed_late hlate ?_⟩
    rintro rfl
    -- the last check fails only when somebody holds the mutex
    obtain ⟨hst, hsp, hth⟩ := hg hl hi
    exact hs (active_eq_none ho h hl hst hsp hth)
  | @unlock i p hi =>
    refine h.update (by simp) fun hl => ⟨by simp, ?_⟩
    refine Thread.withdraw_late hl fun hl' => ?_
    rw [← hi]
    exact h.late i hl'

/-- In every run whose threads make their last check undisturbed once they have left the
cycle early, such a thread does not end with `TS_FINISHED`; when it ends, it ends with
`TS_INTERRUPTED`. -/
theorem left_interrupted {es : List (TestingEvent ι)} {s : Testing ι}
    (hr : Run (Guarded Undisturbed (StepOf next)) initial es s) (i : ι)
    (hl : (s.threads i).leftEarly = true) :
    (s.threads i).pc ≠ .ended .finished ∧
      ∀ st, (s.threads i).pc = .ended st → st = .interrupted := by
  have hinv : Owned s ∧ Leaving s := by
    refine hr.invariant (I := fun s => Owned s ∧ Leaving s) ?_ ⟨owned_initial, leaving_initial⟩
    rintro s e t ⟨ho, hl⟩ ⟨hg, hn⟩
    have hm := next_moved hn
    exact ⟨ho.step hm, hl.step ho hg hm⟩
  rcases hinv.2.late i hl with h | h | h | h | h <;> rw [h] <;> simp

/-! ## Two threads -/

/-- A task with two tests that both pass. -/
def sampleJob : Job where
  prepared := true
  rc := 1
  acm := false
  bonus := 5
  tests := [sampleTest 10 0, sampleTest 20 0]

/-- Two threads, `false` and `true`, are started; testing is stopped when the first has
passed one test, and its next check makes it leave the cycle. -/
def leavingRun : List (TestingEvent (Bool)) :=
  [.start false sampleJob, .start true sampleJob, .begin false, .begin true,
    .trylock false, .trylock false, .trylock false, .trylock false, .trylock true,
    .stopTry, .stopUnlock, .trylock false, .unlock false]

/-- The second thread makes a check while the first makes its last two. -/
def disturbedRun : List (TestingEvent (Bool)) :=
  leavingRun ++ [.trylock true, .trylock false, .trylock false]

lemma disturbedRun_isSome : (disturbedRun.foldlM next initial).isSome = true := by
  decide +kernel

/-- The points of one test of two are returned with the bonus and without an error. -/
theorem disturbedRun_graded : ∃ s, Run (StepOf next) initial disturbedRun s ∧
    (s.threads false).leftEarly = true ∧ (s.threads false).pc = .ended .finished ∧
    (s.threads false).loop.points = 15 ∧ (s.threads false).loop.errors = "OK".toList :=
  ⟨_, Run.get_foldlM _ _ disturbedRun_isSome, by decide +kernel, by decide +kernel,
    by decide +kernel, by decide +kernel⟩

instance [Fintype ι] (s : Testing ι) (e : TestingEvent ι) : Decidable (Undisturbed s e) :=
  match e with
  | .trylock i => inferInstanceAs (Decidable ((s.threads i).leftEarly = true →
      (s.threads i).pc = .trylock .final →
      s.starter = false ∧ s.stopper ≠ .holds ∧ ∀ j, (s.threads j).pc.holds = false))
  | .start _ _ | .refuse | .refused | .stopTry | .stopUnlock | .begin _ | .unlock _ =>
    .isTrue trivial

/-- The second thread has unlocked before the last check of the first. -/
def undisturbedRun : List (TestingEvent (Bool)) :=
  leavingRun ++ [.trylock true, .trylock false, .unlock true, .trylock false, .unlock false]

lemma undisturbedRun_isSome :
    (undisturbedRun.foldlM (restrict Undisturbed next) initial).isSome = true := by
  decide +kernel

/-- The module after `undisturbedRun`. -/
def undisturbedState : Testing (Bool) :=
  (undisturbedRun.foldlM (restrict Undisturbed next) initial).get undisturbedRun_isSome

theorem undisturbedState_interrupted : (undisturbedState.threads false).pc = .ended .interrupted ∧
    (undisturbedState.threads false).pc ≠ .ended .finished :=
  ⟨by decide +kernel, (left_interrupted
    ((Run.get_foldlM _ _ undisturbedRun_isSome).mono fun _ _ _ h => stepOf_restrict.1 h) false
    (by decide +kernel)).1⟩

end Testing

end WebTester.Informatics
