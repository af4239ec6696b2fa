import Mathlib.Data.List.Induction
import WebTester.Conservation

/-!
# Handing a task over between the scheduler and the workers

The status word is the only sign by which a pass over the belts learns that a
worker is done with a task. `send_to_chain` leaves it at `TS_FINISHED`, so until a
worker takes the task again a pass cannot tell it from a tested one. The calls on a
task are in order as long as no pass meets a task in that window.
-/
namespace WebTester.Belts
open Transition

/-- A module has accepted `p` for testing. -/
def Call.isDispatch (p : ℕ) : Call → Bool
  | .dispatch q _ => q == p
  | _ => false

/-- Every dispatch of `p` has been finished by its worker. -/
def Settled (p : ℕ) (calls : List Call) : Prop :=
  calls.countP (Call.isDispatch p) = calls.count (.finish p)

instance (p : ℕ) (calls : List Call) : Decidable (Settled p calls) :=
  inferInstanceAs (Decidable (_ = _))

/-- A task is returned, freed, taken off the belts or dispatched once more only
when its earlier dispatches are finished. -/
def Handover (pre : List Call) : Call → Prop
  | .put p _ => Settled p pre
  | .free p => Settled p pre
  | .leave p => Settled p pre
  | .dispatch p _ => Settled p pre
  | _ => True

/-- Calls that neither open nor close a dispatch. -/
def Call.isNeutral : Call → Bool
  | .dispatch _ _ => false
  | .finish _ => false
  | _ => true

lemma counts_append {p : ℕ} {calls cs : List Call} (hcs : ∀ c ∈ cs, c.isNeutral) :
    (calls ++ cs).countP (Call.isDispatch p) = calls.countP (Call.isDispatch p) ∧
      (calls ++ cs).count (.finish p) = calls.count (.finish p) := by
  have hd : cs.countP (Call.isDispatch p) = 0 := by
    rw [List.countP_eq_zero]
    intro c hc
    have := hcs c hc
    cases c <;> simp_all [Call.isDispatch, Call.isNeutral]
  have hf : cs.count (.finish p) = 0 := by
    rw [List.count_eq_zero]
    intro hc
    exact absurd (hcs _ hc) (by simp [Call.isNeutral])
  simp [List.countP_append, List.count_append, hd, hf]

lemma settled_append {p : ℕ} {calls cs : List Call} (hcs : ∀ c ∈ cs, c.isNeutral) :
    Settled p (calls ++ cs) ↔ Settled p calls := by
  unfold Settled
  rw [(counts_append hcs).1, (counts_append hcs).2]

lemma handover_append {calls cs : List Call} (h : Throughout Handover calls)
    (hcs : ∀ c ∈ cs, c.isNeutral ∧ Handover calls c) : Throughout Handover (calls ++ cs) := by
  induction cs using List.reverseRecOn with
  | nil => simpa using h
  | append_singleton cs c ih =>
    rw [← List.append_assoc]
    refine (ih fun c hc => hcs c (by simp [hc])).concat ?_
    have hn : ∀ c ∈ cs, c.isNeutral := fun c hc => (hcs c (by simp [hc])).1
    have hiff : Handover (calls ++ cs) c ↔ Handover calls c := by
      cases c <;> simp [Handover, settled_append hn]
    exact hiff.2 (hcs c (by simp)).2

namespace Server

/-- Dispatches of `p` that are not finished: pushed or being worked on. -/
def inFlight (s : Server) (p : ℕ) : ℕ := s.pool.count p + s.working.count p

lemma inFlight_eq_zero {s : Server} {p : ℕ} :
    s.inFlight p = 0 ↔ p ∉ s.pool ∧ p ∉ s.working := by
  simp [inFlight, List.count_eq_zero]

end Server

/-- The invariant of a run in which no pass meets a stale status. -/
structure Flight (s : Server) : Prop where
  balance : ∀ p, s.calls.countP (Call.isDispatch p) = s.calls.count (.finish p) + s.inFlight p
  atMostOne : ∀ p, s.inFlight p ≤ 1
  onBelts : ∀ p, s.inFlight p ≠ 0 → p ∈ s.belts
  waiting : ∀ p ∈ s.pool, (s.mem p).status = .pending ∨ (s.mem p).status = .finished
  running : ∀ p ∈ s.working, (s.mem p).status = .running
  queued : ∀ p ∈ s.queue, (s.mem p).status = .pending
  safe : Throughout Handover s.calls

namespace Flight

variable {s t : Server} {p : ℕ}

lemma initial : Flight initial where
  balance := by simp [Belts.initial, Server.inFlight]
  atMostOne := by simp [Belts.initial, Server.inFlight]
  onBelts := by simp [Belts.initial, Server.inFlight]
  waiting := by simp [Belts.initial]
  running := by simp [Belts.initial]
  queued := by simp [Belts.initial]
  safe := Throughout.nil

lemma settled (hs : Flight s) (hp : s.inFlight p = 0) : Settled p s.calls := by
  simpa [Settled, hp] using hs.balance p

/-- A task that is not on the belts has no unfinished dispatch. -/
lemma inFlight_of_not_mem (hs : Flight s) (hp : p ∉ s.belts) : s.inFlight p = 0 := by
  by_contra hne
  exact hp (hs.onBelts p hne)

/-- A final status that was not left over from an earlier module. -/
lemma inFlight_of_done (hs : Flight s)
    (hdone : (s.mem p).status = .interrupted ∨ ((s.mem p).status = .finished ∧ p ∉ s.pool)) :
    s.inFlight p = 0 := by
  rw [Server.inFlight_eq_zero]
  constructor
  · rcases hdone with hi | ⟨-, hp⟩
    · intro hp
      rcases hs.waiting p hp with h | h <;> simp [h] at hi
    · exact hp
  · intro hp
    have hrun := hs.running p hp
    rcases hdone with hi | ⟨hf, -⟩
    · simp [hrun] at hi
    · simp [hrun] at hf

/-- Moves that leave the pool and the working tasks alone. -/
lemma frame (hs : Flight s) (cs : List Call) (hcalls : t.calls = s.calls ++ cs)
    (hpool : t.pool = s.pool) (hworking : t.working = s.working)
    (hbelts : ∀ p, s.inFlight p ≠ 0 → p ∈ t.belts)
    (hmem : ∀ p, s.inFlight p ≠ 0 → (t.mem p).status = (s.mem p).status)
    (hqueue : ∀ p ∈ t.queue, (t.mem p).status = .pending)
    (hcs : ∀ c ∈ cs, c.isNeutral ∧ Handover s.calls c) : Flight t := by
  have hfl : ∀ p, t.inFlight p = s.inFlight p := fun p => by
    simp [Server.inFlight, hpool, hworking]
  have hpos : ∀ p, p ∈ s.pool ∨ p ∈ s.working → s.inFlight p ≠ 0 := fun p hp h0 =>
    hp.elim (Server.inFlight_eq_zero.1 h0).1 (Server.inFlight_eq_zero.1 h0).2
  refine ⟨fun p => ?_, fun p => ?_, fun p hp => ?_, fun p hp => ?_, fun p hp => ?_, hqueue, ?_⟩
  · have hn : ∀ c ∈ cs, c.isNeutral := fun c hc => (hcs c hc).1
    rw [hcalls, (counts_append hn).1, (counts_append hn).2, hfl]
    exact hs.balance p
  · rw [hfl]
    exact hs.atMostOne p
  · rw [hfl] at hp
    exact hbelts p hp
  · rw [hpool] at hp
    rw [hmem p (hpos p (.inl hp))]
    exact hs.waiting p hp
  · rw [hworking] at hp
    rw [hmem p (hpos p (.inr hp))]
    exact hs.running p hp
  · rw [hcalls]
    exact handover_append hs.safe hcs

/-- Moves with which a new dispatch of an idle task begins. -/
lemma push (hs : Flight s) (hp : s.inFlight p = 0) (lid : ℤ)
    (hcalls : t.calls = s.calls ++ [.dispatch p lid])
    (hpool : t.pool = s.pool ++ [p]) (hworking : t.working = s.working)
    (hbelts : ∀ q, q ∈ s.belts ∨ q = p → q ∈ t.belts)
    (hmem : ∀ q, (t.mem q).status = (s.mem q).status)
    (hst : (s.mem p).status = .pending ∨ (s.mem p).status = .finished)
    (hqueue : ∀ q ∈ t.queue, q ∈ s.queue) : Flight t := by
  have hfl : ∀ q, t.inFlight q = s.inFlight q + if q = p then 1 else 0 := fun q => by
    by_cases hq : q = p
    · simp [Server.inFlight, hpool, hworking, hq]
      omega
    · simp [Server.inFlight, hpool, hworking, hq, Ne.symm hq]
  refine ⟨fun q => ?_, fun q => ?_, fun q hq => ?_, fun q hq => ?_, fun q hq => ?_,
    fun q hq => ?_, ?_⟩
  · have hb := hs.balance q
    by_cases hq : q = p
    · simp [hcalls, hfl, hq, Call.isDispatch, List.countP_append] at hb ⊢
      omega
    · simpa [hcalls, hfl, hq, Ne.symm hq, Call.isDispatch, List.countP_append] using hb
  · have hone := hs.atMostOne q
    rw [hfl]
    by_cases hq : q = p
    · simp [hq, hp]
    · simpa [hq] using hone
  · by_cases hqp : q = p
    · exact hbelts q (.inr hqp)
    · rw [hfl, if_neg hqp] at hq
      exact hbelts q (.inl (hs.onBelts q hq))
  · rw [hpool, List.mem_append, List.mem_singleton] at hq
    rw [hmem]
    rcases hq with hq | rfl
    · exact hs.waiting q hq
    · exact hst
  · rw [hworking] at hq
    rw [hmem]
    exact hs.running q hq
  · rw [hmem]
    exact hs.queued q (hqueue q hq)
  · rw [hcalls]
    exact hs.safe.concat (hs.settled hp)

lemma status_setTask {x : Task} (hx : x.status = (s.mem p).status) (q : ℕ) :
    ((s.setTask p x).mem q).status = (s.mem q).status := by
  by_cases hq : q = p
  · subst hq
    simpa [Server.setTask] using hx
  · simp [Server.setTask, hq]

lemma status_setStatus (st : Status) (q : ℕ) :
    ((s.setStatus p st).mem q).status = if q = p then st else (s.mem q).status := by
  by_cases hq : q = p
  · simp [Server.setStatus, Server.setTask, hq]
  · simp [Server.setStatus, Server.setTask, hq]

/-- A task that waits for a worker waits once, and no worker has it. -/
lemma pool_once (hs : Flight s) (hp : p ∈ s.pool) :
    p ∈ s.belts ∧ p ∉ s.working ∧ p ∉ s.pool.erase p := by
  have hone := hs.atMostOne p
  have hpos : 0 < s.pool.count p := List.count_pos_iff.2 hp
  have hbelt := hs.onBelts p
  unfold Server.inFlight at hone hbelt
  rw [← List.count_eq_zero, ← List.count_eq_zero, List.count_erase_self]
  exact ⟨hbelt (by omega), by omega, by omega⟩

/-- A task that a worker has is with one worker, and waits for no other. -/
lemma working_once (hs : Flight s) (hp : p ∈ s.working) :
    p ∈ s.belts ∧ p ∉ s.pool ∧ p ∉ s.working.erase p := by
  have hone := hs.atMostOne p
  have hpos : 0 < s.working.count p := List.count_pos_iff.2 hp
  have hbelt := hs.onBelts p
  unfold Server.inFlight at hone hbelt
  rw [← List.count_eq_zero, ← List.count_eq_zero, List.count_erase_self]
  exact ⟨hbelt (by omega), by omega, by omega⟩

lemma workerTake (hc : s.Conserved) (hs : Flight s) (hp : p ∈ s.pool) :
    Flight (s.workerTake p) := by
  obtain ⟨hbelt, hnw, hnp⟩ := hs.pool_once hp
  have hfl : ∀ q, (s.workerTake p).inFlight q = s.inFlight q := fun q => by
    have he := Server.count_erase_add hp q
    by_cases hq : q = p
    · simp [Server.inFlight, Server.workerTake, Server.log, Server.setStatus, Server.setTask,
        hq] at he ⊢
      omega
    · simp [Server.inFlight, Server.workerTake, Server.log, Server.setStatus, Server.setTask,
        hq, Ne.symm hq]
  have hst : ∀ q, ((s.workerTake p).mem q).status = if q = p then .running else
      (s.mem q).status := status_setStatus .running
  refine ⟨fun q => ?_, fun q => hfl q ▸ hs.atMostOne q, fun q hq => hs.onBelts q (hfl q ▸ hq),
    fun q hq => ?_, fun q hq => ?_, fun q hq => ?_, hs.safe.concat trivial⟩
  · rw [hfl]
    simpa [Server.workerTake, Server.log, Server.setStatus, Server.setTask, Call.isDispatch]
      using hs.balance q
  · have hqp : q ≠ p := fun h => hnp (h ▸ hq)
    rw [hst, if_neg hqp]
    exact hs.waiting q (List.mem_of_mem_erase hq)
  · rcases List.mem_append.1 hq with hq | hq
    · have hqp : q ≠ p := fun h => hnw (h ▸ hq)
      rw [hst, if_neg hqp]
      exact hs.running q hq
    · rw [hst, if_pos (List.mem_singleton.1 hq)]
  · have hqp : q ≠ p := fun h => (hc.of_mem_belts hbelt).2.1 (h ▸ hq)
    rw [hst, if_neg hqp]
    exact hs.queued q hq

lemma workerFinish (hc : s.Conserved) (hs : Flight s) (hp : p ∈ s.working) (i : Bool) :
    Flight (s.workerFinish p i) := by
  obtain ⟨hbelt, hnp, hnw⟩ := hs.working_once hp
  have hfl : ∀ q, (s.workerFinish p i).inFlight q + (if q = p then 1 else 0) = s.inFlight q :=
    fun q => by
      have he := Server.count_erase_add hp q
      simp only [Server.inFlight, Server.workerFinish, Server.log, Server.setStatus,
        Server.setTask]
      omega
  have hst : ∀ q, ((s.workerFinish p i).mem q).status = if q = p then
      (if i then .interrupted else .finished) else (s.mem q).status := status_setStatus _
  refine ⟨fun q => ?_, fun q => ?_, fun q hq => hs.onBelts q ?_, fun q hq => ?_, fun q hq => ?_,
    fun q hq => ?_, hs.safe.concat trivial⟩
  · have hb := hs.balance q
    rw [← hfl q] at hb
    by_cases hq : q = p
    · simp [Server.workerFinish, Server.log, Server.setStatus, Server.setTask, Call.isDispatch,
        hq] at hb ⊢
      omega
    · simpa [Server.workerFinish, Server.log, Server.setStatus, Server.setTask, Call.isDispatch,
        hq, Ne.symm hq] using hb
  · have := hs.atMostOne q
    have := hfl q
    omega
  · have := hfl q
    omega
  · have hqp : q ≠ p := fun h => hnp (h ▸ hq)
    rw [hst, if_neg hqp]
    exact hs.waiting q hq
  · have hqp : q ≠ p := fun h => hnw (h ▸ hq)
    rw [hst, if_neg hqp]
    exact hs.running q (List.mem_of_mem_erase hq)
  · have hqp : q ≠ p := fun h => (hc.of_mem_belts hbelt).2.1 (h ▸ hq)
    rw [hst, if_neg hqp]
    exact hs.queued q hq

end Flight

/-! ## Passes that meet no stale status -/

/-- The worker threads are the only ones that write a status. -/
def Event.byScheduler : Event → Bool
  | .status _ _ => false
  | _ => true

def Event.isOverview : Event → Bool
  | .overview _ => true
  | _ => false

/-- The steps of the scheduler and of its workers. -/
abbrev ChainStep (cfg : Config) : Server → Event → Server → Prop :=
  Guarded (fun _ e => e.byScheduler) (Step cfg)

/-- When a pass begins, no task that waits for a worker has the status left
over from its previous module. -/
def NoStale (s : Server) (e : Event) : Prop :=
  e.isOverview → ∀ p ∈ s.pool, (s.mem p).status ≠ .finished

instance (s : Server) (e : Event) : Decidable (NoStale s e) :=
  inferInstanceAs (Decidable (_ → _))

/-- The same condition for one task of the pass. -/
def Ready (s : Server) : Move → Prop
  | .overview p => ¬ (p ∈ s.pool ∧ (s.mem p).status = .finished)
  | .status _ _ => False
  | _ => True

lemma Flight.fill {s t : Server} {p : ℕ} (hc : s.Conserved) (hs : Flight s) (hp : p ∈ s.queue)
    (h : s.Filled p t) : Flight t := by
  have hfree : s.inFlight p = 0 := hs.inFlight_of_not_mem (hc.of_mem_queue hp).2.1
  have hset := hs.settled hfree
  have hsub : ∀ q, q ∈ s.queue.erase p → q ∈ s.queue := fun q => List.mem_of_mem_erase
  cases h with
  | duplicate hq hk =>
    exact hs.frame _ rfl rfl rfl hs.onBelts (fun _ _ => rfl) (fun q hq => hs.queued q (hsub q hq))
      (by simp [Call.isNeutral, Handover, hset])
  | sent hnew hk hst =>
    refine hs.push hfree _ rfl rfl rfl ?_ (Flight.status_setTask hst) (.inl (hs.queued p hp)) hsub
    simp [Server.log, Server.setTask]
  | kept hk hst =>
    refine hs.frame [] (by simp [Server.setTask]) rfl rfl hs.onBelts
      (fun q _ => Flight.status_setTask hst q) (fun q hq => ?_) (by simp)
    refine (Flight.status_setTask hst q).trans (hs.queued q ?_)
    rcases List.mem_cons.1 hq with rfl | hq
    · exact hp
    · exact hsub q hq
  | restored hk hst =>
    exact hs.frame _ rfl rfl rfl hs.onBelts (fun q _ => Flight.status_setTask hst q)
      (fun q hq => (Flight.status_setTask hst q).trans (hs.queued q (hsub q hq)))
      (by simp [Call.isNeutral, Handover, hset])

lemma Flight.overview {s t : Server} {p : ℕ} (hs : Flight s)
    (hready : ¬ (p ∈ s.pool ∧ (s.mem p).status = .finished)) (hp : p ∈ s.belts)
    (h : s.Overviewed p t) : Flight t := by
  have hdone : (s.mem p).status = .finished → s.inFlight p = 0 := fun hf =>
    hs.inFlight_of_done (.inr ⟨hf, fun hpool => hready ⟨hpool, hf⟩⟩)
  have hstay : s.inFlight p = 0 → ∀ q, s.inFlight q ≠ 0 → q ∈ s.belts.erase p :=
    fun h0 q hq => (List.mem_erase_of_ne (show q ≠ p from fun h => hq (h ▸ h0))).2
      (hs.onBelts q hq)
  cases h with
  | idle hf hi => exact hs
  | chained hf hk hst =>
    refine hs.push (hdone hf) _ rfl rfl rfl ?_ (Flight.status_setTask (hst.trans hf.symm))
      (.inr hf) fun q hq => hq
    rintro q (hq | rfl)
    · exact hq
    · exact hp
  | waiting hf hk hst =>
    have hstat := Flight.status_setTask (s := s) (hst.trans hf.symm)
    exact hs.frame [] (by simp [Server.setTask]) rfl rfl hs.onBelts (fun q _ => hstat q)
      (fun q hq => (hstat q).trans (hs.queued q hq)) (by simp)
  | delivered hf hk hst =>
    have hstat := Flight.status_setTask (s := s) (hst.trans hf.symm)
    exact hs.frame _ rfl rfl rfl (hstay (hdone hf)) (fun q _ => hstat q)
      (fun q hq => (hstat q).trans (hs.queued q hq))
      (by simp [Call.isNeutral, Handover, hs.settled (hdone hf)])
  | accumulated hf hk hst =>
    have hstat := Flight.status_setTask (s := s) (hst.trans hf.symm)
    exact hs.frame _ rfl rfl rfl (hstay (hdone hf)) (fun q _ => hstat q)
      (fun q hq => (hstat q).trans (hs.queued q hq))
      (by simp [Call.isNeutral, Handover, hs.settled (hdone hf)])
  | interrupted hi =>
    have hfree := hs.inFlight_of_done (.inl hi)
    exact hs.frame _ rfl rfl rfl (hstay hfree) (fun q _ => rfl) hs.queued
      (by simp [Call.isNeutral, Handover, hs.settled hfree])

lemma Flight.move {cfg : Config} {s t : Server} {m : Move} (hc : s.Conserved) (hs : Flight s)
    (hready : Ready s m) (h : Moves cfg s m t) : Flight t := by
  cases h with
  | @accept k hroom hq hb =>
    have hfresh : ∀ q, q < s.spawned → ((s.acceptTask k).mem q).status = (s.mem q).status :=
      fun q hq => by simp [Server.acceptTask, hq.ne]
    refine hs.frame _ rfl rfl rfl hs.onBelts
      (fun q hq => hfresh q (hc.of_mem_belts (hs.onBelts q hq)).1) (fun q hq => ?_)
      (by simp [Call.isNeutral, Handover])
    rcases List.mem_append.1 hq with hq | hq
    · rw [hfresh q (hc.of_mem_queue hq).1]
      exact hs.queued q hq
    · obtain rfl := List.mem_singleton.1 hq
      simp [Server.acceptTask, Task.spawnNewTask]
  | fill hp hroom hf => exact hs.fill hc hp hf
  | overview hp ho => exact hs.overview hready hp ho
  | resent hacc hp =>
    have hset := hs.settled (hs.inFlight_of_not_mem
      (hc.not_mem_belts_of_mem_held (by simpa [Server.held, hacc] using hp)))
    exact hs.frame _ rfl rfl rfl hs.onBelts (fun _ _ => rfl) hs.queued
      (by simp [Call.isNeutral, Handover, hset])
  | unsent hacc hp =>
    have hset := hs.settled (hs.inFlight_of_not_mem
      (hc.not_mem_belts_of_mem_held (by simpa [Server.held, hacc] using hp)))
    exact hs.frame _ rfl rfl rfl hs.onBelts (fun _ _ => rfl) hs.queued
      (by simp [Call.isNeutral, Handover, hset])
  | destroy hacc =>
    exact hs.frame [] (by simp) rfl rfl hs.onBelts (fun _ _ => rfl) hs.queued (by simp)
  | take hp => exact hs.workerTake hc hp
  | @chaintest p lid hp =>
    have hstat := Flight.status_setTask (s := s) (Task.status_chaintest (s.mem p) lid)
    exact hs.frame [] (by simp [Server.setTask]) rfl rfl hs.onBelts (fun q _ => hstat q)
      (fun q hq => (hstat q).trans (hs.queued q hq)) (by simp)
  | finish hp => exact hs.workerFinish hc hp _
  | status => exact hready.elim

/-- A pass changes only the task it looks at, so every task is still ready when
its turn comes. -/
lemma Server.Overviewed.ready {s t : Server} {p q : ℕ} (h : s.Overviewed p t) (hqp : q ≠ p)
    (hq : Ready s (.overview q)) : Ready t (.overview q) := by
  cases h <;> simpa [Ready, Server.log, Server.setTask, hqp] using hq

lemma beltsOverviewStatus_ready_run (cfg : Config) (a : Answers) (s : Server)
    (hnodup : s.belts.Nodup) (hready : ∀ p ∈ s.pool, (s.mem p).status ≠ .finished) :
    ∃ ms, Run (Guarded Ready (Moves cfg)) s ms (s.beltsOverviewStatus a) := by
  refine exists_run_foldl (I := fun cur s => cur.Sublist s.belts ∧ cur.Nodup ∧
    ∀ p ∈ cur, Ready s (.overview p)) ?_ s.belts s
    ⟨List.Sublist.refl _, hnodup, fun p _ h => hready p h.1 h.2⟩
  rintro p cur s ⟨hcur, hnd, hr⟩
  have h := Server.overviewTask_cases a s p
  obtain ⟨hpcur, hnd'⟩ := List.nodup_cons.1 hnd
  exact ⟨⟨.overview p, hr p (by simp), .overview (hcur.subset (by simp)) h⟩, h.sublist hcur, hnd',
    fun q hq => h.ready (fun hqp => hpcur (hqp ▸ hq)) (hr q (by simp [hq]))⟩

lemma ready_of_makes {s : Server} {e : Event} {m : Move} (he : e.byScheduler)
    (hne : ∀ a, e ≠ .overview a) (hm : e.makes m) : Ready s m := by
  cases e <;> cases m <;> simp_all [Event.makes, Ready, Event.byScheduler]

lemma guarded_run {cfg : Config} {s t : Server} {e : Event} (hc : s.Conserved)
    (h : Guarded NoStale (ChainStep cfg) s e t) :
    ∃ ms, Run (Guarded Ready (Moves cfg)) s ms t := by
  obtain ⟨hstale, hby, hstep⟩ := h
  by_cases hov : ∃ a, e = .overview a
  · obtain ⟨a, rfl⟩ := hov
    obtain rfl := Option.some.inj hstep
    exact beltsOverviewStatus_ready_run cfg a s hc.nodup_belts (hstale rfl)
  · obtain ⟨ms, hr⟩ := next_run hstep
    exact ⟨ms, hr.mono fun u m v hm =>
      ⟨ready_of_makes hby (fun a ha => hov ⟨a, ha⟩) hm.1, hm.2⟩⟩

/-- In every run in which no pass begins while a dispatched task still shows the
status of its previous module, every task is handed over only when its dispatches
are finished. -/
theorem handover_of_noStale (cfg : Config) (es : List Event) (s : Server)
    (hr : Run (Guarded NoStale (ChainStep cfg)) initial es s) : Throughout Handover s.calls := by
  have hinv : s.Conserved ∧ Flight s := by
    refine hr.invariant (I := fun s => s.Conserved ∧ Flight s) (fun s e t hs h => ?_)
      ⟨conserved_initial, Flight.initial⟩
    obtain ⟨ms, hm⟩ := guarded_run hs.1 h
    exact hm.invariant (I := fun s => s.Conserved ∧ Flight s)
      (fun u m v hu hstep => ⟨hu.1.move hstep.2, hu.2.move hu.1 hstep.1 hstep.2⟩) hs
  exact hinv.2.safe

/-- One task, sent to a second module and taken by it before the next pass. -/
def chainedRun : List Event :=
  [.getTaskList (some "7@1\n".toList), .fill allGranted, .take 0, .chaintest 0 2, .finish 0 false,
    .overview allGranted, .take 0, .finish 0 false, .overview allGranted]

/-- The step function of `Guarded NoStale (ChainStep cfg)`. -/
def nextNoStale (cfg : Config) : Server → Event → Option Server :=
  restrict NoStale (restrict (fun _ e => e.byScheduler) (next cfg))

lemma run_nextNoStale {cfg : Config} {es : List Event} {s t : Server}
    (hr : Run (StepOf (nextNoStale cfg)) s es t) : Run (Guarded NoStale (ChainStep cfg)) s es t :=
  hr.mono fun _ _ _ h =>
    ⟨(stepOf_restrict.1 h).1, stepOf_restrict.1 (stepOf_restrict.1 h).2⟩

lemma chainedRun_isSome :
    (chainedRun.foldlM (nextNoStale (readConfig 1 4)) initial).isSome = true := by
  decide +kernel

/-- The state reached by `chainedRun`. -/
def chainedState : Server :=
  (chainedRun.foldlM (nextNoStale (readConfig 1 4)) initial).get chainedRun_isSome

theorem chainedState_handover :
    Call.put 0 true ∈ chainedState.calls ∧ Throughout Handover chainedState.calls :=
  ⟨by decide +kernel, handover_of_noStale (readConfig 1 4) chainedRun chainedState
    (run_nextNoStale (Run.get_foldlM _ _ chainedRun_isSome))⟩

/-- The same task, with a pass between its second dispatch and the worker. -/
def staleRun : List Event :=
  [.getTaskList (some "7@1\n".toList), .fill allGranted, .take 0, .chaintest 0 2, .finish 0 false,
    .overview allGranted, .overview allGranted]

lemma staleRun_isSome : (staleRun.foldlM (restrict (fun _ e => e.byScheduler)
    (next (readConfig 1 4))) initial).isSome = true := by
  decide +kernel

/-- The second pass returns and frees the task while it waits in the pool. -/
theorem staleRun_not_handover :
    ∃ s, Run (ChainStep (readConfig 1 4)) initial staleRun s ∧ 0 ∈ s.pool ∧
      .free 0 ∈ s.calls ∧ ¬ Throughout Handover s.calls := by
  refine ⟨_, (Run.get_foldlM _ _ staleRun_isSome).mono fun _ _ _ h => stepOf_restrict.1 h,
    by decide +kernel, by decide +kernel, fun h => ?_⟩
  have hput := h [.accept 0, .dispatch 0 1, .take 0, .finish 0, .dispatch 0 2] (.put 0 true)
    [.leave 0, .free 0] (by decide +kernel)
  exact absurd hput (show ¬ Settled 0 _ by decide)

end WebTester.Belts
