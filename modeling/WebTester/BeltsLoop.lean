import WebTester.Belts
import Mathlib.Data.List.Nodup

/-!
# The belts loop

`wt_belts_update` looks through the belts only when `global_state_changed` is up or when there
is room for a task of the queue. The flag is taken down before the belts are looked through.
The workers go on in the meantime, so that a call is modelled by its single iterations.
-/
namespace WebTester

/-- `TS_FINISHED` or `TS_INTERRUPTED`. -/
def Status.ended : Status → Bool
  | .finished => true
  | .interrupted => true
  | _ => false

namespace Belts
open CString Transition

/-- Where the main thread is: outside of `wt_belts_update`, or at the rest of the nodes that
one of its two loops goes over. -/
inductive Phase
  | idle
  | overview (cur : List ℕ)
  | fill (cur : List ℕ)

/-- The nodes that `belts_overview_status` has not come to. -/
def Phase.cursor : Phase → List ℕ
  | .overview cur => cur
  | _ => []

structure Mainloop where
  server : Server
  active : Bool
  globalStateChanged : Bool
  phase : Phase

namespace Mainloop

/-- The main thread, then the worker threads. `statusChanged` is a message of a worker about
its task, which calls `wt_belts_status_changed` as well. -/
inductive Event
  | start
  | stop
  | update
  | overview (a : Answers)
  | fill (a : Answers)
  | getTaskList (reply : Option CStr)
  | accumulatorOverview (a : Answers)
  | take (p : ℕ)
  | chaintest (p : ℕ) (lid : ℤ)
  | statusChanged
  | finish (p : ℕ) (interrupted : Bool)

def initial : Mainloop := ⟨Belts.initial, false, false, .idle⟩

/-- The condition of the early return. -/
def waits (cfg : Config) (m : Mainloop) : Bool :=
  !m.globalStateChanged && (m.server.queue.isEmpty || m.server.beltsFull cfg)

/-- `wt_belts_update` up to the loops. -/
def beltsUpdate (cfg : Config) (m : Mainloop) : Mainloop :=
  if !m.active then m
  else if m.waits cfg then m
  else if !m.server.belts.isEmpty || (!m.server.queue.isEmpty && !m.server.beltsFull cfg) then
    { m with globalStateChanged := false, phase := .overview m.server.belts }
  else { m with globalStateChanged := false }

/-- An iteration of `belts_overview_status`, or the end of its loop. -/
def overviewNext (a : Answers) (m : Mainloop) : List ℕ → Mainloop
  | [] => { m with phase := .fill m.server.queue }
  | p :: cur => { m with server := m.server.overviewTask a p, phase := .overview cur }

/-- An iteration of `belts_fill`, or the end of its loop. -/
def fillNext (cfg : Config) (a : Answers) (m : Mainloop) : List ℕ → Mainloop
  | [] => { m with phase := .idle }
  | p :: cur =>
    if m.server.beltsFull cfg then { m with phase := .idle }
    else { m with server := m.server.fillTask a p, phase := .fill cur }

/-- `TASK_SET_STATUS` raises the flag for every status but `TS_RUNNING`. -/
def next (cfg : Config) (m : Mainloop) : Event → Option Mainloop
  | .start => some { m with active := true }
  | .stop => some { m with active := false }
  | .update =>
    match m.phase with
    | .idle => some (m.beltsUpdate cfg)
    | _ => none
  | .overview a =>
    match m.phase with
    | .overview cur => some (m.overviewNext a cur)
    | _ => none
  | .fill a =>
    match m.phase with
    | .fill cur => some (m.fillNext cfg a cur)
    | _ => none
  | .getTaskList reply =>
    match m.phase with
    | .idle => some { m with
        server := m.server.webifaceGetTaskList (toInt cfg.queueSize) reply }
    | _ => none
  | .accumulatorOverview a => some { m with server := m.server.accumulatorOverviewProc a }
  | .take p =>
    if p ∈ m.server.pool then some { m with server := m.server.workerTake p } else none
  | .chaintest p lid =>
    if p ∈ m.server.working then
      some { m with server := m.server.setTask p ((m.server.mem p).chaintest lid) }
    else none
  | .statusChanged => some { m with globalStateChanged := true }
  | .finish p interrupted =>
    if p ∈ m.server.working then
      some { m with server := m.server.workerFinish p interrupted, globalStateChanged := true }
    else none

/-- No task that waits for a worker has the status of its last testing when an update begins,
and no chain module asks to wait for a task that has been tested. -/
def Prompt (m : Mainloop) : Event → Prop
  | .update => ∀ p ∈ m.server.pool, ¬(m.server.mem p).status.ended
  | .overview a => ∀ p ∈ m.phase.cursor.head?, (m.server.mem p).status = .finished →
      ∀ i < (m.server.mem p).chain.lid.length, (m.server.mem p).chain.cur ≤ i →
        a.start p i ≠ .refused true
  | _ => True

instance (m : Mainloop) : ∀ e, Decidable (Prompt m e)
  | .update => inferInstanceAs (Decidable (∀ p ∈ _, ¬_))
  | .overview _ => inferInstanceAs (Decidable (∀ p ∈ _, _ → ∀ i < _, _ → _))
  | .start | .stop | .fill _ | .getTaskList _ | .accumulatorOverview _ | .take _ | .chaintest _ _
  | .statusChanged | .finish _ _ => inferInstanceAs (Decidable True)

/-! ### Updates without interruption -/

variable {cfg : Config} {m : Mainloop}

lemma run_overview (a : Answers) {cur : List ℕ} (h : m.phase = .overview cur) :
    ∃ es, Run (StepOf (next cfg)) m es { m with
      server := cur.foldl (Server.overviewTask a) m.server
      phase := .fill (cur.foldl (Server.overviewTask a) m.server).queue } := by
  induction cur generalizing m with
  | nil => exact ⟨[.overview a], .snoc .nil (by simp [StepOf, next, h, overviewNext])⟩
  | cons p cur ih =>
    have hstep : StepOf (next cfg) m (.overview a) { m with
        server := m.server.overviewTask a p, phase := .overview cur } := by
      simp [StepOf, next, h, overviewNext]
    obtain ⟨es, hes⟩ := ih (m := { m with
      server := m.server.overviewTask a p, phase := .overview cur }) rfl
    exact ⟨.overview a :: es, hes.cons hstep⟩

lemma run_fill (a : Answers) {cur : List ℕ} (h : m.phase = .fill cur) :
    ∃ es, Run (StepOf (next cfg)) m es { m with
      server := Server.fillLoop cfg a cur m.server, phase := .idle } := by
  induction cur generalizing m with
  | nil => exact ⟨[.fill a], .snoc .nil (by simp [StepOf, next, h, fillNext, Server.fillLoop])⟩
  | cons p cur ih =>
    rw [Server.fillLoop]
    by_cases hfull : m.server.beltsFull cfg
    · rw [if_pos hfull]
      exact ⟨[.fill a], .snoc .nil (by simp [StepOf, next, h, fillNext, hfull])⟩
    · rw [if_neg hfull]
      have hstep : StepOf (next cfg) m (.fill a) { m with
          server := m.server.fillTask a p, phase := .fill cur } := by
        simp [StepOf, next, h, fillNext, hfull]
      obtain ⟨es, hes⟩ := ih (m := { m with
        server := m.server.fillTask a p, phase := .fill cur }) rfl
      exact ⟨.fill a :: es, hes.cons hstep⟩

/-- The iterations of an update that is not interrupted are those of `belts_overview_status`
and then of `belts_fill`. -/
theorem run_update (a : Answers) (h : m.phase = .overview m.server.belts) :
    ∃ es, Run (StepOf (next cfg)) m es { m with
      server := (m.server.beltsOverviewStatus a).beltsFill cfg a, phase := .idle } := by
  obtain ⟨es, hes⟩ := run_overview a h
  let m' : Mainloop := { m with
    server := m.server.beltsOverviewStatus a
    phase := .fill (m.server.beltsOverviewStatus a).queue }
  obtain ⟨fs, hfs⟩ : ∃ fs, Run (StepOf (next cfg)) m' fs _ := run_fill a rfl
  exact ⟨es ++ fs, hes.append hfs⟩

end Mainloop

/-! ## Single iterations -/

/-- A chain without a request to wait ends with the task handed on or fully tested. -/
lemma chainLoop_not_waiting (start : ℕ → Start) (fuel : ℕ) (t : Task)
    (hkeep : t.keepInQueue = false)
    (h : ∀ i < t.chain.lid.length, t.chain.cur ≤ i → start i ≠ .refused true) :
    (chainLoop start fuel t).1 ≠ .waiting ∧ (chainLoop start fuel t).2.keepInQueue = false := by
  induction fuel generalizing t with
  | zero => exact ⟨by simp [chainLoop], hkeep⟩
  | succ fuel ih =>
    rw [chainLoop]
    by_cases hempty : t.chainEmpty
    · rw [if_pos hempty]
      exact ⟨by simp, hkeep⟩
    have hcur : t.chain.cur < t.chain.lid.length := by
      simpa [Task.chainEmpty] using hempty
    rw [if_neg hempty]
    cases hstart : start t.chain.cur with
    | started => simp [Task.sendToChain, Task.moduleSendForTesting, hkeep]
    | refused keep =>
      obtain rfl : keep = false := by
        by_contra hne
        rw [Bool.not_eq_false] at hne
        subst hne
        exact h _ hcur le_rfl hstart
      simp only [Task.sendToChain, Task.moduleSendForTesting, hkeep, Bool.false_eq_true,
        if_false, Bool.or_false]
      refine ih _ rfl fun i hi hle => ?_
      exact h i hi (Nat.le_of_succ_le hle)

namespace Server

lemma mem_setTask_self (s : Server) (p : ℕ) (t : Task) : (s.setTask p t).mem p = t := by
  unfold setTask
  exact Function.update_self p t s.mem

lemma mem_setTask_of_ne (s : Server) {p q : ℕ} (t : Task) (h : q ≠ p) :
    (s.setTask p t).mem q = s.mem q := by
  unfold setTask
  exact Function.update_of_ne h t s.mem

/-- What an iteration of `belts_overview_status` leaves of the task it has come to. -/
structure Reviewed (s : Server) (p : ℕ) (s' : Server) : Prop where
  mem : ∀ q ≠ p, s'.mem q = s.mem q
  status : (s'.mem p).status = (s.mem p).status
  keep : (s'.mem p).keepInQueue = false
  pool : ∀ q ∈ s.pool, q ∈ s'.pool
  belts : s'.belts = s.belts ∨ s'.belts = s.belts.erase p
  settled : (s.mem p).status.ended → p ∈ s'.pool ∨ s'.belts = s.belts.erase p

/-- The record of the task is replaced, and the task is handed on or leaves the belts. -/
lemma Reviewed.of_setTask {s s' : Server} {p : ℕ} {t : Task}
    (hmem : s'.mem = (s.setTask p t).mem) (hstatus : t.status = (s.mem p).status)
    (hkeep : t.keepInQueue = false) (hpool : ∀ q ∈ s.pool, q ∈ s'.pool)
    (hsettled : s'.belts = s.belts ∧ p ∈ s'.pool ∨ s'.belts = s.belts.erase p) :
    Reviewed s p s' where
  mem q hq := by rw [hmem, mem_setTask_of_ne s t hq]
  status := by rw [hmem, mem_setTask_self, hstatus]
  keep := by rw [hmem, mem_setTask_self, hkeep]
  pool := hpool
  belts := hsettled.imp_left And.left
  settled _ := hsettled.imp_left And.right

lemma overviewTask_reviewed (a : Answers) (s : Server) (p : ℕ)
    (hkeep : (s.mem p).keepInQueue = false)
    (h : (s.mem p).status = .finished → ∀ i < (s.mem p).chain.lid.length,
      (s.mem p).chain.cur ≤ i → a.start p i ≠ .refused true) :
    Reviewed s p (s.overviewTask a p) := by
  unfold overviewTask
  cases hst : (s.mem p).status with
  | pending | running =>
    exact ⟨fun _ _ => rfl, rfl, hkeep, fun _ => id, .inl rfl, by simp [hst, Status.ended]⟩
  | interrupted =>
    exact ⟨fun _ _ => rfl, rfl, hkeep, fun _ => id, .inr rfl, fun _ => .inr rfl⟩
  | finished =>
    obtain ⟨-, hstatus⟩ := chainLoop_frame (a.start p) (s.mem p).chain.lid.length (s.mem p)
    obtain ⟨hwait, hkeep'⟩ :=
      chainLoop_not_waiting (a.start p) (s.mem p).chain.lid.length (s.mem p) hkeep (h hst)
    generalize chainLoop (a.start p) (s.mem p).chain.lid.length (s.mem p) = r at *
    obtain ⟨outcome, t⟩ := r
    cases outcome with
    | waiting => exact absurd rfl hwait
    | sent =>
      have hpool : p ∈ s.pool ++ [p] := List.mem_append_right s.pool (List.mem_singleton_self p)
      exact .of_setTask rfl hstatus hkeep' (fun q hq => List.mem_append_left [p] hq)
        (.inl ⟨rfl, hpool⟩)
    | exhausted =>
      dsimp only
      unfold returnTested
      split
      · exact .of_setTask rfl hstatus hkeep' (fun _ => id) (.inr rfl)
      · exact .of_setTask rfl hstatus hkeep' (fun _ => id) (.inr rfl)

/-- What an iteration of `belts_fill` does to the belts. -/
structure Loaded (s : Server) (p : ℕ) (s' : Server) : Prop where
  mem : ∀ q ∈ s.belts, s'.mem q = s.mem q
  pool : ∀ q ∈ s.pool, q ∈ s'.pool
  belts : s'.belts = s.belts ∨ s'.belts = s.belts ++ [p] ∧ p ∉ s.belts ∧ p ∈ s'.pool ∧
    (s'.mem p).keepInQueue = false

lemma keepInQueue_webifaceGetTask (g : Bool) (t : Task) :
    (t.webifaceGetTask g).2.keepInQueue = t.keepInQueue := by
  unfold Task.webifaceGetTask
  split_ifs <;> rfl

/-- A task that is sent for testing is not marked to be kept. -/
lemma keepInQueue_sendForTesting {g : Bool} {r : Start} {t : Task}
    (h : (t.sendForTesting g r).1) : (t.sendForTesting g r).2.keepInQueue = false := by
  have hkeep := keepInQueue_webifaceGetTask g { t with keepInQueue := false }
  simp only [Task.sendForTesting] at h ⊢
  generalize Task.webifaceGetTask g { t with keepInQueue := false } = got at *
  cases r with
  | started => split <;> exact hkeep
  | refused keep =>
    exfalso
    split at h
    · simp [Task.moduleSendForTesting] at h
    · next hgot => exact hgot h

lemma fillTask_loaded (a : Answers) (s : Server) (p : ℕ) : Loaded s p (s.fillTask a p) := by
  unfold fillTask
  dsimp only
  split
  · exact ⟨fun _ _ => rfl, fun _ => id, .inl rfl⟩
  next hnone =>
    have hp : p ∉ s.belts := by
      intro hmem
      have hne : ∀ q ∈ s.belts, (s.mem q).key ≠ (s.mem p).key := by simpa [search] using hnone
      exact hne p hmem rfl
    have hmem : ∀ (t : Task) (q : ℕ), q ∈ s.belts → Function.update s.mem p t q = s.mem q := by
      intro t q hq
      have hne : q ≠ p := fun heq => hp (heq ▸ hq)
      exact Function.update_of_ne hne t s.mem
    split
    · next hsent =>
      refine ⟨hmem _, fun q hq => List.mem_append_left [p] hq, .inr ⟨rfl, hp, ?_, ?_⟩⟩
      · exact List.mem_append_right s.pool (List.mem_singleton_self p)
      · refine (congrArg Task.keepInQueue (s.mem_setTask_self p _)).trans ?_
        exact keepInQueue_sendForTesting hsent
    · split
      · exact ⟨hmem _, fun _ => id, .inl rfl⟩
      · exact ⟨hmem _, fun _ => id, .inl rfl⟩

/-- Tasks in memory stay as they are when new ones are received. -/
lemma takeTasks_frame (need : ℤ) (ks : List (ℤ × ℤ)) (taked : ℤ) (s : Server) :
    (takeTasks need ks taked s).belts = s.belts ∧ (takeTasks need ks taked s).pool = s.pool ∧
      ∀ q, (takeTasks need ks taked s).mem q = s.mem q ∨
        ∃ k : ℤ × ℤ, (takeTasks need ks taked s).mem q = Task.spawnNewTask k.1 k.2 := by
  induction ks generalizing taked s with
  | nil => exact ⟨rfl, rfl, fun _ => .inl rfl⟩
  | cons k ks ih =>
    rw [takeTasks]
    split_ifs
    · exact ⟨rfl, rfl, fun _ => .inl rfl⟩
    · exact ih taked s
    · exact ih taked s
    · obtain ⟨hbelts, hpool, hmem⟩ := ih (taked + 1) (s.acceptTask k)
      refine ⟨hbelts, hpool, fun q => ?_⟩
      rcases hmem q with hq | hq
      · rw [hq]
        by_cases hne : q = s.spawned
        · subst hne
          exact .inr ⟨k, by simp [acceptTask]⟩
        · exact .inl (by simp [acceptTask, hne])
      · exact .inr hq

end Server

/-! ## Tested tasks are not forgotten -/

/-- A tested task in the belts has the flag up, waits for a worker of the next module or is
still to be looked at; and no task in the belts is marked to be kept. -/
structure Attended (changed : Bool) (cur : List ℕ) (s : Server) : Prop where
  nodup : s.belts.Nodup
  ahead : cur.Sublist s.belts
  keep : ∀ p ∈ s.belts, (s.mem p).keepInQueue = false
  noticed : ∀ p ∈ s.belts, (s.mem p).status.ended → changed ∨ p ∈ s.pool ∨ p ∈ cur

namespace Attended

variable {changed : Bool} {cur : List ℕ} {s s' : Server} {p : ℕ}

/-- The flag may go up. -/
theorem raise (h : Attended changed cur s) : Attended true cur s :=
  ⟨h.nodup, h.ahead, h.keep, fun _ _ _ => .inl rfl⟩

/-- The flag goes down when all of the belts are going to be looked at. -/
theorem lower (h : Attended changed cur s) : Attended false s.belts s :=
  ⟨h.nodup, .refl _, h.keep, fun _ hp _ => .inr (.inr hp)⟩

/-- Belts and pool stay, and the tasks of the belts keep what is read of them. -/
theorem frame (h : Attended changed cur s) (hbelts : s'.belts = s.belts)
    (hpool : ∀ q ∈ s.pool, q ∈ s'.pool)
    (hmem : ∀ q ∈ s.belts, (s'.mem q).keepInQueue = false ∧
      ((s'.mem q).status.ended → (s.mem q).status.ended)) : Attended changed cur s' := by
  refine ⟨hbelts ▸ h.nodup, hbelts ▸ h.ahead, fun q hq => ?_, fun q hq hend => ?_⟩
  · rw [hbelts] at hq
    exact (hmem q hq).1
  · rw [hbelts] at hq
    exact (h.noticed q hq ((hmem q hq).2 hend)).imp_right fun hq => hq.imp_left (hpool q)

/-- The task the overview has come to is settled. -/
theorem reviewed (h : Attended changed (p :: cur) s) (hr : Server.Reviewed s p s') :
    Attended changed cur s' := by
  have hsub : ∀ q ∈ s'.belts, q ∈ s.belts := by
    intro q hq
    rcases hr.belts with heq | heq
    · rwa [heq] at hq
    · rw [heq] at hq
      exact List.mem_of_mem_erase hq
  refine ⟨?_, ?_, fun q hq => ?_, fun q hq hend => ?_⟩
  · rcases hr.belts with heq | heq
    · exact heq ▸ h.nodup
    · exact heq ▸ h.nodup.erase p
  · rcases hr.belts with heq | heq
    · rw [heq]
      exact (List.sublist_cons_self p cur).trans h.ahead
    · rw [heq]
      simpa using h.ahead.erase p
  · by_cases hne : q = p
    · rw [hne]
      exact hr.keep
    · rw [hr.mem q hne]
      exact h.keep q (hsub q hq)
  · by_cases hne : q = p
    · subst hne
      rw [hr.status] at hend
      rcases hr.settled hend with hpool | heq
      · exact .inr (.inl hpool)
      · rw [heq] at hq
        exact absurd hq h.nodup.not_mem_erase
    · rw [hr.mem q hne] at hend
      rcases h.noticed q (hsub q hq) hend with hch | hpool | hcur
      · exact .inl hch
      · exact .inr (.inl (hr.pool q hpool))
      · exact .inr (.inr (List.mem_of_ne_of_mem hne hcur))

theorem loaded (h : Attended changed cur s) (hl : Server.Loaded s p s') :
    Attended changed cur s' := by
  rcases hl.belts with heq | ⟨heq, hp, hpool, hkeep⟩
  · refine h.frame heq hl.pool fun q hq => ?_
    rw [hl.mem q hq]
    exact ⟨h.keep q hq, id⟩
  · have hold : ∀ q ∈ s.belts, (s'.mem q).keepInQueue = false ∧
        ((s'.mem q).status.ended → changed ∨ q ∈ s'.pool ∨ q ∈ cur) := by
      intro q hq
      rw [hl.mem q hq]
      exact ⟨h.keep q hq, fun hend =>
        (h.noticed q hq hend).imp_right fun hq => hq.imp_left (hl.pool q)⟩
    have hmem : ∀ q ∈ s'.belts, q ∈ s.belts ∨ q = p := by simp [heq]
    refine ⟨?_, ?_, fun q hq => ?_, fun q hq hend => ?_⟩
    · rw [heq, ← List.concat_eq_append]
      exact List.Nodup.concat hp h.nodup
    · rw [heq]
      exact h.ahead.trans (List.sublist_append_left s.belts [p])
    · rcases hmem q hq with hq | rfl
      · exact (hold q hq).1
      · exact hkeep
    · rcases hmem q hq with hq | rfl
      · exact (hold q hq).2 hend
      · exact .inr (.inl hpool)

/-- A worker that takes a task sets its status. -/
theorem taken (h : Attended changed cur s) : Attended changed cur (s.workerTake p) := by
  have hstatus : (s.setStatus p .running).mem p = { s.mem p with status := .running } :=
    s.mem_setTask_self p _
  have hmem : ∀ q ≠ p, (s.setStatus p .running).mem q = s.mem q :=
    fun q => s.mem_setTask_of_ne _
  refine ⟨h.nodup, h.ahead, fun q hq => ?_, fun q hq hend => ?_⟩
  · by_cases hne : q = p
    · subst hne
      exact (congrArg Task.keepInQueue hstatus).trans (h.keep q hq)
    · exact (congrArg Task.keepInQueue (hmem q hne)).trans (h.keep q hq)
  · by_cases hne : q = p
    · subst hne
      have hrun : ((s.workerTake q).mem q).status = .running := congrArg Task.status hstatus
      simp [hrun, Status.ended] at hend
    · have hsame : ((s.workerTake p).mem q).status = (s.mem q).status :=
        congrArg Task.status (hmem q hne)
      rw [hsame] at hend
      refine (h.noticed q hq hend).imp_right fun hq => hq.imp_left fun hpool => ?_
      exact (List.mem_erase_of_ne hne).2 hpool

/-- A worker that is done raises the flag. -/
theorem finished (h : Attended changed cur s) (interrupted : Bool) :
    Attended true cur (s.workerFinish p interrupted) := by
  refine ⟨h.nodup, h.ahead, fun q hq => ?_, fun _ _ _ => .inl rfl⟩
  by_cases hne : q = p
  · subst hne
    exact (congrArg Task.keepInQueue (s.mem_setTask_self q _)).trans (h.keep q hq)
  · exact (congrArg Task.keepInQueue (s.mem_setTask_of_ne _ hne)).trans (h.keep q hq)

end Attended

namespace Server

lemma webifaceGetTaskList_frame (queueSize : ℤ) (reply : Option CStr) (s : Server) :
    (s.webifaceGetTaskList queueSize reply).belts = s.belts ∧
      (s.webifaceGetTaskList queueSize reply).pool = s.pool ∧
      ∀ q, (s.webifaceGetTaskList queueSize reply).mem q = s.mem q ∨
        ∃ k : ℤ × ℤ, (s.webifaceGetTaskList queueSize reply).mem q =
          Task.spawnNewTask k.1 k.2 := by
  unfold webifaceGetTaskList
  split
  · exact ⟨rfl, rfl, fun _ => .inl rfl⟩
  · split
    · exact ⟨rfl, rfl, fun _ => .inl rfl⟩
    · exact takeTasks_frame _ _ _ _

lemma accumulatorOverviewProc_frame (a : Answers) (s : Server) :
    (s.accumulatorOverviewProc a).belts = s.belts ∧
      (s.accumulatorOverviewProc a).pool = s.pool ∧
      (s.accumulatorOverviewProc a).mem = s.mem := by
  have hresend : ∀ (acc : List ℕ) (s : Server), (acc.foldl (resend a) s).belts = s.belts ∧
      (acc.foldl (resend a) s).pool = s.pool ∧ (acc.foldl (resend a) s).mem = s.mem := by
    intro acc
    induction acc with
    | nil => exact fun _ => ⟨rfl, rfl, rfl⟩
    | cons p acc ih =>
      intro s
      obtain ⟨hbelts, hpool, hmem⟩ := ih (s.resend a p)
      rw [List.foldl_cons, hbelts, hpool, hmem]
      unfold resend
      split <;> exact ⟨rfl, rfl, rfl⟩
  unfold accumulatorOverviewProc
  split
  · exact ⟨rfl, rfl, rfl⟩
  · dsimp only
    split
    · exact hresend _ s
    · exact hresend _ s

end Server

namespace Mainloop

def Inv (m : Mainloop) : Prop := Attended m.globalStateChanged m.phase.cursor m.server

lemma inv_initial : Inv initial := by
  refine ⟨.nil, .slnil, ?_, ?_⟩ <;> simp [initial, Belts.initial]

variable {cfg : Config}

variable {m : Mainloop}

lemma inv_beltsUpdate (hm : Inv m) : Inv (m.beltsUpdate cfg) := by
  unfold beltsUpdate
  split_ifs with hactive hwaits hlook
  · exact hm
  · exact hm
  · exact Attended.lower hm
  · -- The belts are empty.
    have hbelts : m.server.belts = [] := by
      rw [Bool.or_eq_true, not_or] at hlook
      simpa using hlook.1
    have hnone : ∀ p, p ∉ m.server.belts := by simp [hbelts]
    exact ⟨hm.nodup, hm.ahead, hm.keep, fun p hp => absurd hp (hnone p)⟩

lemma inv_overviewNext {a : Answers} {cur : List ℕ} (hphase : m.phase = .overview cur)
    (hprompt : Prompt m (.overview a)) (hm : Inv m) : Inv (m.overviewNext a cur) := by
  rw [Inv, hphase] at hm
  cases cur with
  | nil => exact hm
  | cons p cur =>
    rw [Prompt, hphase] at hprompt
    have hkeep := hm.keep p (hm.ahead.subset List.mem_cons_self)
    exact hm.reviewed (m.server.overviewTask_reviewed a p hkeep (hprompt p rfl))

lemma inv_fillNext {a : Answers} {cur : List ℕ} (hphase : m.phase = .fill cur) (hm : Inv m) :
    Inv (m.fillNext cfg a cur) := by
  rw [Inv, hphase] at hm
  cases cur with
  | nil => exact hm
  | cons p cur =>
    rw [fillNext]
    split_ifs
    · exact hm
    · exact hm.loaded (m.server.fillTask_loaded a p)

lemma inv_getTaskList {reply : Option CStr} (hm : Inv m) : Inv { m with
    server := m.server.webifaceGetTaskList (toInt cfg.queueSize) reply } := by
  obtain ⟨hbelts, hpool, hmem⟩ :=
    m.server.webifaceGetTaskList_frame (toInt cfg.queueSize) reply
  refine hm.frame hbelts (fun q hq => hpool ▸ hq) fun q hq => ?_
  rcases hmem q with heq | ⟨k, heq⟩
  · rw [heq]
    exact ⟨hm.keep q hq, id⟩
  · rw [heq]
    exact ⟨rfl, fun hend => absurd hend Bool.false_ne_true⟩

lemma inv_chaintest {p : ℕ} {lid : ℤ} (hm : Inv m) : Inv { m with
    server := m.server.setTask p ((m.server.mem p).chaintest lid) } := by
  refine hm.frame rfl (fun _ => id) fun q hq => ?_
  by_cases hne : q = p
  · subst hne
    dsimp only
    rw [Server.mem_setTask_self, Task.status_chaintest]
    refine ⟨?_, id⟩
    unfold Task.chaintest
    split_ifs
    · exact hm.keep q hq
    · exact hm.keep q hq
  · dsimp only
    rw [Server.mem_setTask_of_ne _ _ hne]
    exact ⟨hm.keep q hq, id⟩

lemma inv_next (m : Mainloop) (e : Event) (m' : Mainloop) (hm : Inv m)
    (h : Guarded Prompt (StepOf (next cfg)) m e m') : Inv m' := by
  obtain ⟨hprompt, hnext⟩ := h
  unfold StepOf next at hnext
  cases e with
  | start =>
    obtain rfl := Option.some.inj hnext
    exact hm
  | stop =>
    obtain rfl := Option.some.inj hnext
    exact hm
  | update =>
    dsimp only at hnext
    split at hnext
    · obtain rfl := Option.some.inj hnext
      exact inv_beltsUpdate hm
    · cases hnext
  | overview a =>
    dsimp only at hnext
    split at hnext
    · next cur hphase =>
      obtain rfl := Option.some.inj hnext
      exact inv_overviewNext hphase hprompt hm
    · cases hnext
  | fill a =>
    dsimp only at hnext
    split at hnext
    · next cur hphase =>
      obtain rfl := Option.some.inj hnext
      exact inv_fillNext hphase hm
    · cases hnext
  | getTaskList reply =>
    dsimp only at hnext
    split at hnext
    · obtain rfl := Option.some.inj hnext
      exact inv_getTaskList hm
    · cases hnext
  | accumulatorOverview a =>
    obtain rfl := Option.some.inj hnext
    obtain ⟨hbelts, hpool, hmem⟩ := m.server.accumulatorOverviewProc_frame a
    refine hm.frame hbelts (fun q hq => hpool ▸ hq) fun q hq => ?_
    rw [hmem]
    exact ⟨hm.keep q hq, id⟩
  | take p =>
    obtain ⟨-, ⟨rfl⟩⟩ := Option.ite_none_right_eq_some.1 hnext
    exact hm.taken
  | chaintest p lid =>
    obtain ⟨-, ⟨rfl⟩⟩ := Option.ite_none_right_eq_some.1 hnext
    exact inv_chaintest hm
  | statusChanged =>
    obtain rfl := Option.some.inj hnext
    exact hm.raise
  | finish p interrupted =>
    obtain ⟨-, ⟨rfl⟩⟩ := Option.ite_none_right_eq_some.1 hnext
    exact hm.finished interrupted

/-- In every run in which no chain module asks to wait, an update with a tested task in the
belts looks through all of them, unless the task is in the pool of its next module. -/
theorem update_examines_tested {es : List Event} {p : ℕ}
    (hr : Run (Guarded Prompt (StepOf (next cfg))) initial es m) (hprompt : Prompt m .update)
    (hphase : m.phase = .idle) (hactive : m.active) (hp : p ∈ m.server.belts)
    (hend : (m.server.mem p).status.ended) :
    m.waits cfg = false ∧ next cfg m .update =
      some { m with globalStateChanged := false, phase := .overview m.server.belts } := by
  have hm : Inv m := hr.invariant inv_next inv_initial
  rw [Inv, hphase] at hm
  have hchanged : m.globalStateChanged := by
    rcases hm.noticed p hp hend with hch | hpool | hcur
    · exact hch
    · exact absurd hend (hprompt p hpool)
    · simp [Phase.cursor] at hcur
  have hwaits : m.waits cfg = false := by simp [waits, hchanged]
  have hbelts : m.server.belts.isEmpty = false := by
    rw [List.isEmpty_eq_false_iff]
    exact List.ne_nil_of_mem hp
  refine ⟨hwaits, ?_⟩
  simp [next, hphase, beltsUpdate, hactive, hwaits, hbelts]

/-- Every module asks to wait. -/
def waitAnswers : Answers := ⟨fun _ => true, fun _ _ => .refused true, fun _ => true⟩

def startAnswers : Answers := ⟨fun _ => true, fun _ _ => .started, fun _ => true⟩

/-- One task is put on the belts and tested, and asks for a second module. -/
def testedRun : List Event :=
  [.start, .getTaskList (some "7@1\n".toList), .update, .overview startAnswers, .fill startAnswers,
    .fill startAnswers, .take 0, .chaintest 0 2, .finish 0 false]

lemma testedRun_isSome :
    (testedRun.foldlM (restrict Prompt (next (readConfig 4 4))) initial).isSome := by
  decide +kernel

theorem update_examines_testedRun :
    ((testedRun.foldlM (restrict Prompt (next (readConfig 4 4))) initial).get
      testedRun_isSome).waits (readConfig 4 4) = false := by
  have hr := (Run.get_foldlM _ _ testedRun_isSome).mono fun _ _ _ h => stepOf_restrict.1 h
  refine (update_examines_tested (p := 0) hr ?_ rfl ?_ ?_ ?_).1
  · decide +kernel
  · decide +kernel
  · decide +kernel
  · decide +kernel

/-- The second module asks to wait while the queue is empty. -/
def waitingRun : List Event :=
  testedRun ++ [.update, .overview waitAnswers, .overview waitAnswers, .fill waitAnswers]

lemma waitingRun_isSome :
    (waitingRun.foldlM (next (readConfig 4 4)) initial).isSome := by
  decide +kernel

theorem update_forgets_waiting : ¬∀ (es : List Event) (m : Mainloop) (p : ℕ),
    Run (StepOf (next (readConfig 4 4))) initial es m → m.phase = .idle → m.active →
      p ∈ m.server.belts → (m.server.mem p).status.ended → m.waits (readConfig 4 4) = false := by
  intro h
  have hwaits := h _ _ 0 (Run.get_foldlM _ _ waitingRun_isSome) rfl (by decide +kernel)
    (by decide +kernel) (by decide +kernel)
  exact absurd hwaits (by decide +kernel)

end Mainloop

end Belts

end WebTester
