import WebTester.Belts

/-!
# The dispatches of one task

A task is tried with its own module while it is in the queue and, once a worker has tested it,
with the modules of its chain. Between the attempts a worker may change its status and add
modules to its chain. `send_for_testing` takes `TF_KEEPINQUEUE` down before the module is asked,
`send_to_chain` does not.
-/
namespace WebTester.Belts
open Transition

/-- An attempt to hand a task to a module, with the answers it receives. -/
inductive Dispatch
  | fromQueue (replied : Bool) (r : Start)
  | toChain (r : Start)
  deriving DecidableEq, Repr

/-- The module has taken the task, the task waits for it, or the scheduler gives up: a task of
the queue is restored, a module of the chain is skipped. -/
inductive Reaction
  | sent
  | waiting
  | dropped
  deriving DecidableEq, Repr

namespace Dispatch

/-- Zero is returned to the scheduler. -/
def succeeds (t : Task) : Dispatch → Bool
  | .fromQueue replied r => (t.unpacked || replied) && r = .started
  | .toChain r => r = .started

/-- The module has set `TF_KEEPINQUEUE` during this attempt. -/
def setsFlag (t : Task) : Dispatch → Bool
  | .fromQueue replied r => (t.unpacked || replied) && r = .refused true
  | .toChain r => r = .refused true

/-- The attempt and what `belts_fill` or the chain loop makes of it. -/
def attempt (t : Task) : Dispatch → Reaction × Task
  | .fromQueue replied r =>
    let r := t.sendForTesting replied r
    if r.1 then (.sent, r.2)
    else if r.2.keepInQueue then (.waiting, r.2)
    else (.dropped, r.2)
  | .toChain r =>
    let r := t.sendToChain r
    if r.1 then (.sent, r.2)
    else if r.2.keepInQueue then
      (.waiting, { r.2 with chain := { r.2.chain with cur := r.2.chain.cur - 1 } })
    else (.dropped, r.2)

end Dispatch

inductive Stage
  | queue
  | belts
  | gone
  deriving DecidableEq, Repr

structure Life where
  task : Task
  place : Stage
  deriving DecidableEq, Repr

namespace Life

/-- A task as `webiface_get_task_list` puts it into the queue. -/
def accepted (sid lid : ℤ) : Life := ⟨Task.spawnNewTask sid lid, .queue⟩

/-- `leave` is the end of a task in the belts: it is returned, accumulated or restored. -/
inductive Event
  | dispatch (d : Dispatch)
  | chaintest (lid : ℤ)
  | status (st : Status)
  | leave
  deriving DecidableEq, Repr

def placeAfter : Dispatch → Reaction → Stage
  | .fromQueue _ _, .sent => .belts
  | .fromQueue _ _, .waiting => .queue
  | .fromQueue _ _, .dropped => .gone
  | .toChain _, _ => .belts

/-- The scheduler tries the own module of a task in the queue, and a module of the chain only
for a task that has been tested. -/
def ready (l : Life) : Dispatch → Bool
  | .fromQueue _ _ => l.place = .queue
  | .toChain _ => l.place = .belts && l.task.status = .finished && !l.task.chainEmpty

def next (l : Life) : Event → Option Life
  | .dispatch d =>
    if l.ready d then
      some ⟨(d.attempt l.task).2, placeAfter d (d.attempt l.task).1⟩
    else none
  | .chaintest lid =>
    if l.place = .belts then some { l with task := l.task.chaintest lid } else none
  | .status st => if l.place = .belts then some { l with task.status := st } else none
  | .leave => if l.place = .belts then some { l with place := .gone } else none

/-- The task is where it was, at the same position of its chain. -/
def Waits (l l' : Life) : Prop :=
  l'.place = l.place ∧ l'.task.chain.cur = l.task.chain.cur

instance (l l' : Life) : Decidable (Waits l l') := inferInstanceAs (Decidable (_ ∧ _))

end Life

/-! ## The loops of the scheduler -/

/-- An iteration of the chain loop is one attempt. -/
lemma chainLoop_succ (start : ℕ → Start) (fuel : ℕ) {t : Task} (h : t.chainEmpty = false) :
    chainLoop start (fuel + 1) t =
      match (Dispatch.toChain (start t.chain.cur)).attempt t with
      | (.sent, t') => (.sent, t')
      | (.waiting, t') => (.waiting, t')
      | (.dropped, t') => chainLoop start fuel t' := by
  rw [chainLoop, if_neg (by simp [h])]
  simp only [Dispatch.attempt]
  split_ifs <;> rfl

lemma status_attempt (t : Task) (d : Dispatch) : (d.attempt t).2.status = t.status := by
  cases d with
  | fromQueue replied r =>
    simp only [Dispatch.attempt]
    split_ifs <;> exact Task.status_sendForTesting replied r t
  | toChain r =>
    simp only [Dispatch.attempt]
    split_ifs <;> exact Task.status_sendToChain r t

/-- The chain loop is a run of attempts. -/
theorem Life.run_chainLoop (start : ℕ → Start) (fuel : ℕ) (t : Task)
    (hst : t.status = .finished) : ∃ es, Run (StepOf Life.next) ⟨t, .belts⟩ es
      ⟨(chainLoop start fuel t).2, .belts⟩ := by
  induction fuel generalizing t with
  | zero => exact ⟨[], .nil⟩
  | succ fuel ih =>
    cases hempty : t.chainEmpty with
    | true =>
      rw [chainLoop, if_pos hempty]
      exact ⟨[], .nil⟩
    | false =>
      rw [chainLoop_succ start fuel hempty]
      set d : Dispatch := .toChain (start t.chain.cur) with hd
      have hstep : StepOf Life.next ⟨t, .belts⟩ (.dispatch d) ⟨(d.attempt t).2, .belts⟩ := by
        simp [StepOf, Life.next, Life.ready, hd, hst, hempty, Life.placeAfter]
      have hst' := (status_attempt t d).trans hst
      rcases hr : d.attempt t with ⟨reaction, t'⟩
      rw [hr] at hstep hst'
      cases reaction with
      | sent => exact ⟨_, .snoc .nil hstep⟩
      | waiting => exact ⟨_, .snoc .nil hstep⟩
      | dropped =>
        obtain ⟨es, hes⟩ := ih t' hst'
        exact ⟨_, hes.cons hstep⟩

/-- What `belts_overview_status` does with a tested task is a run of attempts. -/
theorem Life.run_overviewTask (a : Answers) (s : Server) (p : ℕ)
    (hst : (s.mem p).status = .finished) : ∃ es pl, Run (StepOf Life.next) ⟨s.mem p, .belts⟩ es
      ⟨(s.overviewTask a p).mem p, pl⟩ := by
  obtain ⟨es, hes⟩ := run_chainLoop (a.start p) (s.mem p).chain.lid.length (s.mem p) hst
  have hmem : (s.overviewTask a p).mem p =
      (chainLoop (a.start p) (s.mem p).chain.lid.length (s.mem p)).2 := by
    unfold Server.overviewTask
    rw [hst]
    dsimp only
    split
    · exact Function.update_self p _ s.mem
    · exact Function.update_self p _ s.mem
    · unfold Server.returnTested
      split <;> exact Function.update_self p _ s.mem
  exact ⟨es, .belts, hmem ▸ hes⟩

/-- What `belts_fill` does with a task that is no duplicate is one attempt. -/
theorem Life.run_fillTask (a : Answers) (s : Server) (p : ℕ)
    (hnew : s.search s.belts (s.mem p).key = none) :
    ∃ pl, StepOf Life.next ⟨s.mem p, .queue⟩ (.dispatch (.fromQueue (a.replied p) (a.start p 0)))
      ⟨(s.fillTask a p).mem p, pl⟩ := by
  set d : Dispatch := .fromQueue (a.replied p) (a.start p 0) with hd
  have hmem : (s.fillTask a p).mem p = (d.attempt (s.mem p)).2 := by
    have hnew' :
        ({ s with queue := s.queue.erase p } : Server).search s.belts (s.mem p).key = none := hnew
    unfold Server.fillTask
    dsimp only
    rw [hnew']
    simp only [hd, Dispatch.attempt]
    split_ifs <;> exact Function.update_self p _ s.mem
  rw [hmem]
  exact ⟨_, by simp [StepOf, Life.next, Life.ready, hd]; rfl⟩

/-! ## What an attempt leaves behind -/

namespace Dispatch

lemma fst_sendForTesting (t : Task) (replied : Bool) (r : Start) :
    (t.sendForTesting replied r).1 = (fromQueue replied r).succeeds t := by
  cases hun : t.unpacked <;> cases replied <;> rcases r with _ | keep <;>
    simp [Task.sendForTesting, Task.webifaceGetTask, Task.moduleSendForTesting, succeeds, hun]

lemma snd_fromQueue (t : Task) (replied : Bool) (r : Start) :
    ((fromQueue replied r).attempt t).2 = (t.sendForTesting replied r).2 := by
  simp only [attempt]
  split_ifs <;> rfl

/-- Whatever the flag was, an attempt from the queue leaves it as this attempt sets it. -/
lemma keepInQueue_fromQueue (t : Task) (replied : Bool) (r : Start) :
    ((fromQueue replied r).attempt t).2.keepInQueue = (fromQueue replied r).setsFlag t := by
  rw [snd_fromQueue]
  cases hun : t.unpacked <;> cases replied <;> rcases r with _ | keep <;>
    simp [Task.sendForTesting, Task.webifaceGetTask, Task.moduleSendForTesting, setsFlag, hun]

/-- An attempt with a module of the chain adds to the flag. -/
lemma keepInQueue_toChain (t : Task) (r : Start) :
    ((toChain r).attempt t).2.keepInQueue = (t.keepInQueue || (toChain r).setsFlag t) := by
  rcases r with _ | keep
  · simp [attempt, Task.sendToChain, Task.moduleSendForTesting, setsFlag]
  · cases hkeep : t.keepInQueue <;> cases keep <;>
      simp [attempt, Task.sendToChain, Task.moduleSendForTesting, setsFlag, hkeep]

/-- The scheduler reads the flag, not the answer. -/
lemma reaction_of_failed {t : Task} {d : Dispatch} (h : d.succeeds t = false) :
    (d.attempt t).1 = if (d.attempt t).2.keepInQueue then .waiting else .dropped := by
  cases d with
  | fromQueue replied r =>
    simp only [attempt, fst_sendForTesting, h, Bool.false_eq_true, if_false]
    split_ifs <;> rfl
  | toChain r =>
    rcases r with _ | keep
    · simp [succeeds] at h
    · simp only [attempt, Task.sendToChain, Task.moduleSendForTesting, Bool.false_eq_true,
        if_false]
      split_ifs with hkeep <;> simp [hkeep]

lemma chain_fromQueue (t : Task) (replied : Bool) (r : Start) :
    ((fromQueue replied r).attempt t).2.chain = t.chain := by
  rw [snd_fromQueue]
  cases hun : t.unpacked <;> cases replied <;> rcases r with _ | keep <;>
    simp [Task.sendForTesting, Task.webifaceGetTask, Task.moduleSendForTesting, hun]

lemma cur_toChain_of_refused (t : Task) (keep : Bool) :
    ((toChain (.refused keep)).attempt t).2.chain.cur =
      t.chain.cur + if t.keepInQueue || keep then 0 else 1 := by
  cases hkeep : t.keepInQueue <;> cases keep <;>
    simp [attempt, Task.sendToChain, Task.moduleSendForTesting, hkeep]

/-- A module that has taken the task has not asked to wait. -/
lemma setsFlag_of_sent {t : Task} {d : Dispatch} (h : (d.attempt t).1 = .sent) :
    d.setsFlag t = false := by
  have hsucc : d.succeeds t = true := by
    by_contra hne
    rw [Bool.not_eq_true] at hne
    rw [reaction_of_failed hne] at h
    split_ifs at h
  cases d with
  | fromQueue replied r =>
    simp only [succeeds, Bool.and_eq_true, decide_eq_true_eq] at hsucc
    simp [setsFlag, hsucc.2]
  | toChain r =>
    simp only [succeeds, decide_eq_true_eq] at hsucc
    simp [setsFlag, hsucc]

end Dispatch

namespace Life

variable {sid lid : ℤ} {es : List Event} {l l' : Life} {d : Dispatch}

lemma next_dispatch (h : next l (.dispatch d) = some l') :
    l.ready d ∧ l' = ⟨(d.attempt l.task).2, placeAfter d (d.attempt l.task).1⟩ := by
  obtain ⟨hready, hl⟩ := Option.ite_none_right_eq_some.1 h
  exact ⟨hready, (Option.some.inj hl).symm⟩

lemma place_of_ready {r : Start} (h : l.ready (.toChain r)) : l.place = .belts := by
  simp only [ready, Bool.and_eq_true, decide_eq_true_eq] at h
  exact h.1.1

/-- A failed attempt from the queue leaves the task waiting exactly when it has set the flag. -/
lemma waits_fromQueue_iff {replied : Bool} {r : Start}
    (h : next l (.dispatch (.fromQueue replied r)) = some l')
    (hfail : (Dispatch.fromQueue replied r).succeeds l.task = false) :
    Waits l l' ↔ (Dispatch.fromQueue replied r).setsFlag l.task := by
  obtain ⟨hready, rfl⟩ := next_dispatch h
  have hplace : l.place = .queue := by simpa [ready] using hready
  rw [Waits, Dispatch.chain_fromQueue, hplace, Dispatch.reaction_of_failed hfail,
    Dispatch.keepInQueue_fromQueue]
  split_ifs with hset <;> simp [placeAfter, hset]

/-- A failed attempt with a module of the chain leaves the task waiting exactly when the flag
was up before or has been set by it. -/
lemma waits_toChain_iff {keep : Bool}
    (h : next l (.dispatch (.toChain (.refused keep))) = some l') :
    Waits l l' ↔ l.task.keepInQueue || keep := by
  obtain ⟨hready, rfl⟩ := next_dispatch h
  rw [Waits, Dispatch.cur_toChain_of_refused, place_of_ready hready]
  split_ifs with hset <;> simp [placeAfter, hset]

/-- The flag of a task in the belts is up exactly when a module of the chain has asked to wait
for it; a task in the queue has not met its chain. -/
structure Flagged (es : List Event) (l : Life) : Prop where
  queue : l.place = .queue → .dispatch (.toChain (.refused true)) ∉ es
  belts : l.place = .belts →
    (l.task.keepInQueue ↔ .dispatch (.toChain (.refused true)) ∈ es)

lemma flagged_of_run (hr : Run (StepOf next) (accepted sid lid) es l) : Flagged es l := by
  induction hr with
  | nil => exact ⟨by simp, by simp [accepted]⟩
  | @snoc l l' es e _ hstep ih =>
    cases e with
    | dispatch d =>
      obtain ⟨hready, rfl⟩ := next_dispatch hstep
      cases d with
      | fromQueue replied r =>
        have hnone : .dispatch (.toChain (.refused true)) ∉ es :=
          ih.queue (by simpa [ready] using hready)
        refine ⟨fun _ => by simpa using hnone, fun hbelts => ?_⟩
        -- Only a task that was sent comes to the belts, and its flag is down.
        have hsent : ((Dispatch.fromQueue replied r).attempt l.task).1 = .sent := by
          revert hbelts
          cases ((Dispatch.fromQueue replied r).attempt l.task).1 <;> simp [placeAfter]
        rw [Dispatch.keepInQueue_fromQueue, Dispatch.setsFlag_of_sent hsent]
        simpa using hnone
      | toChain r =>
        refine ⟨fun hqueue => by simp [placeAfter] at hqueue, fun _ => ?_⟩
        rw [Dispatch.keepInQueue_toChain, Bool.or_eq_true, ih.belts (place_of_ready hready)]
        simp [Dispatch.setsFlag, eq_comm]
    | chaintest lid =>
      obtain ⟨hplace, rfl⟩ : l.place = .belts ∧ { l with task := l.task.chaintest lid } = l' := by
        simpa [StepOf, next] using hstep
      refine ⟨fun hqueue => by simp [hplace] at hqueue, fun _ => ?_⟩
      have hkeep : (l.task.chaintest lid).keepInQueue = l.task.keepInQueue := by
        unfold Task.chaintest
        split_ifs <;> rfl
      simpa [hkeep] using ih.belts hplace
    | status st =>
      obtain ⟨hplace, rfl⟩ : l.place = .belts ∧ { l with task.status := st } = l' := by
        simpa [StepOf, next] using hstep
      exact ⟨fun hqueue => by simp [hplace] at hqueue, fun _ => by simpa using ih.belts hplace⟩
    | leave =>
      obtain ⟨hplace, rfl⟩ : l.place = .belts ∧ { l with place := .gone } = l' := by
        simpa [StepOf, next] using hstep
      exact ⟨by simp, by simp⟩

/-- In every history of a task, a failed attempt leaves it waiting exactly when that attempt has
set the flag, unless a module of the chain fails for good after one of the chain has asked to
wait. A task that does not wait is restored, or the module is skipped. -/
theorem waits_iff_setsFlag (hr : Run (StepOf next) (accepted sid lid) es l)
    (h : next l (.dispatch d) = some l') (hfail : d.succeeds l.task = false) :
    ((Waits l l' ↔ d.setsFlag l.task) ↔
      ¬(d = .toChain (.refused false) ∧ .dispatch (.toChain (.refused true)) ∈ es)) ∧
    (¬Waits l l' → l'.place = .gone ∨
      l'.place = .belts ∧ l'.task.chain.cur = l.task.chain.cur + 1) := by
  cases d with
  | fromQueue replied r =>
    have hwaits := waits_fromQueue_iff h hfail
    refine ⟨by simp [hwaits], fun hnot => .inl ?_⟩
    rw [hwaits, ← Dispatch.keepInQueue_fromQueue] at hnot
    obtain ⟨-, rfl⟩ := next_dispatch h
    rw [Dispatch.reaction_of_failed hfail, if_neg hnot]
    rfl
  | toChain r =>
    obtain ⟨keep, rfl⟩ : ∃ keep, r = .refused keep := by
      rcases r with _ | keep
      · simp [Dispatch.succeeds] at hfail
      · exact ⟨keep, rfl⟩
    have hwaits := waits_toChain_iff h
    obtain ⟨hready, rfl⟩ := next_dispatch h
    have hflag := (flagged_of_run hr).belts (place_of_ready hready)
    constructor
    · rw [hwaits, ← hflag]
      cases keep <;> simp [Dispatch.setsFlag]
    · intro hnot
      rw [hwaits] at hnot
      exact .inr ⟨rfl, by rw [Dispatch.cur_toChain_of_refused, if_neg hnot]⟩

/-- A task that a worker has tested and handed on to module 2. -/
def testedHistory : List Event :=
  [.dispatch (.fromQueue true (.refused true)), .dispatch (.fromQueue true .started),
    .chaintest 2, .status .finished]

lemma testedHistory_isSome : (testedHistory.foldlM next (accepted 7 1)).isSome := by decide

theorem testedHistory_waits :
    ∃ l l', Run (StepOf next) (accepted 7 1) testedHistory l ∧
      next l (.dispatch (.toChain (.refused true))) = some l' ∧ Waits l l' := by
  have hr := Run.get_foldlM _ _ testedHistory_isSome
  have hw := waits_iff_setsFlag (d := .toChain (.refused true)) hr rfl rfl
  exact ⟨_, _, hr, rfl, (hw.1.2 (by simp)).2 rfl⟩

/-- Module 2 is busy. -/
def waitedHistory : List Event := testedHistory ++ [.dispatch (.toChain (.refused true))]

lemma waitedHistory_isSome : (waitedHistory.foldlM next (accepted 7 1)).isSome := by decide

/-- Later there is no module 2. -/
theorem stale_flag_waits : ¬∀ (es : List Event) (l l' : Life) (d : Dispatch),
    Run (StepOf next) (accepted 7 1) es l → next l (.dispatch d) = some l' →
      d.succeeds l.task = false → (Waits l l' ↔ d.setsFlag l.task) := by
  intro h
  have hr := Run.get_foldlM _ _ waitedHistory_isSome
  have hw := h _ _ _ (.toChain (.refused false)) hr rfl rfl
  exact absurd (hw.1 (by decide)) (by decide)

end Life

end WebTester.Belts
