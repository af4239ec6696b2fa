import Mathlib.Logic.Function.Basic
import Mathlib.Data.List.Basic
import WebTester.TaskList
import WebTester.Transition

/-!
# Queue, belts and accumulator

A task is named by the number of tasks accepted before it; this name stands for
its address. `mem` holds the records behind the addresses, which the scheduler
and the worker threads share, and the lists hold addresses. The answers of the
web interface and of the testing modules are inputs of a step. `calls` records
what is done with each task, in order; nothing in the program reads it.

A loop sees the nodes that were in its list when it started: the cursor of
`belts_overview_status` is moved on before its node is deleted. `belts_fill` reads the
link of a node that it has just deleted; the link is taken to be what it was.
-/
namespace WebTester.Belts
open CString

/-- `RESET_LEZ`. -/
def resetLez (x default : ℤ) : ℤ := if x ≤ 0 then default else x

/-- Sizes as the two `read_config` functions leave them. -/
structure Config where
  beltsSize : ℤ
  queueSize : ℤ
  beltsSize_pos : 0 < beltsSize
  queueSize_pos : 0 < queueSize

/-- `BELTS_SIZE` and `QUEUE_SIZE` replace values that are not positive. -/
def readConfig (beltsSize queueSize : ℤ) : Config where
  beltsSize := resetLez beltsSize 4
  queueSize := resetLez queueSize 4
  beltsSize_pos := by unfold resetLez; split <;> omega
  queueSize_pos := by unfold resetLez; split <;> omega

/-- One thing done with a task. `discard` also names the task of the belts that
made it a duplicate; `leave` is the deletion of its node from the belts. -/
inductive Call
  | accept (p : ℕ)
  | dispatch (p : ℕ) (lid : ℤ)
  | take (p : ℕ)
  | finish (p : ℕ)
  | put (p : ℕ) (sent : Bool)
  | restore (p : ℕ)
  | discard (p dup : ℕ)
  | free (p : ℕ)
  | leave (p : ℕ)
  deriving DecidableEq, Repr

/-- `pool` holds the tasks pushed to a module and not yet taken by one of its
threads, `working` those taken and not yet finished. -/
structure Server where
  mem : ℕ → Task
  spawned : ℕ
  queue : List ℕ
  belts : List ℕ
  accumulator : Option (List ℕ)
  pool : List ℕ
  working : List ℕ
  calls : List Call

/-- The server before the first task. -/
def initial : Server where
  mem := fun _ => Task.spawnNewTask 0 0
  spawned := 0
  queue := []
  belts := []
  accumulator := none
  pool := []
  working := []
  calls := []

/-- Answers during one pass: of the web interface to `get_task` and to
`put_solution`, and of a module to a task at a position of its chain. -/
structure Answers where
  replied : ℕ → Bool
  start : ℕ → ℕ → Start
  sent : ℕ → Bool

namespace Server

def setTask (s : Server) (p : ℕ) (t : Task) : Server :=
  { s with mem := Function.update s.mem p t }

def log (s : Server) (cs : List Call) : Server := { s with calls := s.calls ++ cs }

/-- `dyna_search` in a list of tasks. -/
def search (s : Server) (tasks : List ℕ) (k : ℤ × ℤ) : Option ℕ :=
  tasks.find? fun q => (s.mem q).key = k

/-- `wt_belts_full`. -/
def beltsFull (cfg : Config) (s : Server) : Bool := cfg.beltsSize ≤ s.belts.length

/-! ## Receiving tasks -/

/-- A new task at the back of the queue. -/
def acceptTask (s : Server) (k : ℤ × ℤ) : Server :=
  { s with
    mem := Function.update s.mem s.spawned (Task.spawnNewTask k.1 k.2)
    spawned := s.spawned + 1
    queue := s.queue ++ [s.spawned]
    calls := s.calls ++ [.accept s.spawned] }

/-- The parsing loop over the received pairs; `taked` counts accepted tasks. -/
def takeTasks (need : ℤ) : List (ℤ × ℤ) → ℤ → Server → Server
  | [], _, s => s
  | k :: ks, taked, s =>
    if need ≤ taked then s
    else if (s.search s.queue k).isSome then takeTasks need ks taked s
    else if (s.search s.belts k).isSome then takeTasks need ks taked s
    else takeTasks need ks (taked + 1) (s.acceptTask k)

/-- `webiface_get_task_list`; no text means that the request failed. -/
def webifaceGetTaskList (queueSize : ℤ) (reply : Option CStr) (s : Server) : Server :=
  if queueSize ≤ s.queue.length then s
  else match reply with
    | none => s
    | some text => takeTasks (queueSize - s.queue.length) (TaskList.received text) 0 s

/-! ## Filling the belts -/

/-- One iteration of `belts_fill`, after the node of `p` is deleted. -/
def fillTask (a : Answers) (s : Server) (p : ℕ) : Server :=
  let s := { s with queue := s.queue.erase p }
  match s.search s.belts (s.mem p).key with
  | some q => s.log [.discard p q, .free p]
  | none =>
    let r := (s.mem p).sendForTesting (a.replied p) (a.start p 0)
    let s := s.setTask p r.2
    if r.1 then
      { s with belts := s.belts ++ [p], pool := s.pool ++ [p] }.log [.dispatch p r.2.curLid]
    else if r.2.keepInQueue then { s with queue := p :: s.queue }
    else s.log [.restore p, .free p]

/-- What one iteration of `belts_fill` can do. Only the record of `p` changes,
and neither its identity nor its status does. -/
inductive Filled (s : Server) (p : ℕ) : Server → Prop
  | duplicate {q : ℕ} (hq : q ∈ s.belts) (hk : (s.mem q).key = (s.mem p).key) :
      Filled s p ({ s with queue := s.queue.erase p }.log [.discard p q, .free p])
  | sent {t : Task} (hnew : ∀ q ∈ s.belts, (s.mem q).key ≠ (s.mem p).key)
      (hk : t.key = (s.mem p).key) (hs : t.status = (s.mem p).status) :
      Filled s p ({ s.setTask p t with
        queue := s.queue.erase p
        belts := s.belts ++ [p]
        pool := s.pool ++ [p] }.log [.dispatch p t.curLid])
  | kept {t : Task} (hk : t.key = (s.mem p).key) (hs : t.status = (s.mem p).status) :
      Filled s p { s.setTask p t with queue := p :: s.queue.erase p }
  | restored {t : Task} (hk : t.key = (s.mem p).key) (hs : t.status = (s.mem p).status) :
      Filled s p ({ s.setTask p t with queue := s.queue.erase p }.log [.restore p, .free p])

theorem fillTask_cases (a : Answers) (s : Server) (p : ℕ) : Filled s p (s.fillTask a p) := by
  simp only [fillTask]
  split
  · rename_i q hq
    have hk := List.find?_some hq
    exact .duplicate (List.mem_of_find?_eq_some hq) (by simpa using hk)
  · rename_i hnone
    have hnew : ∀ q ∈ s.belts, (s.mem q).key ≠ (s.mem p).key := by
      simpa [search] using hnone
    split
    · exact .sent hnew (by simp) (by simp)
    · split
      · exact .kept (by simp) (by simp)
      · exact .restored (by simp) (by simp)

/-- The loop of `belts_fill` over the nodes from the cursor on. -/
def fillLoop (cfg : Config) (a : Answers) : List ℕ → Server → Server
  | [], s => s
  | p :: cur, s => if s.beltsFull cfg then s else fillLoop cfg a cur (s.fillTask a p)

def beltsFill (cfg : Config) (a : Answers) (s : Server) : Server :=
  fillLoop cfg a s.queue s

/-! ## Reviewing the belts -/

end Server

/-- How the chain loop of `belts_overview_status` ends: no module is left, a
module has taken the task, or a module has asked to wait for it. -/
inductive ChainEnd
  | exhausted
  | sent
  | waiting
  deriving DecidableEq, Repr

/-- `while (work && !TASK_CHAINEMPTY (task))`. A refusal moves the cursor past
the module unless the task is marked to be kept. -/
def chainLoop (start : ℕ → Start) : ℕ → Task → ChainEnd × Task
  | 0, t => (.exhausted, t)
  | fuel + 1, t =>
    if t.chainEmpty then (.exhausted, t)
    else
      let r := t.sendToChain (start t.chain.cur)
      if r.1 then (.sent, r.2)
      else if r.2.keepInQueue then
        (.waiting, { r.2 with chain := { r.2.chain with cur := r.2.chain.cur - 1 } })
      else chainLoop start fuel r.2

lemma chainLoop_frame (start : ℕ → Start) (fuel : ℕ) (t : Task) :
    (chainLoop start fuel t).2.key = t.key ∧ (chainLoop start fuel t).2.status = t.status := by
  induction fuel generalizing t with
  | zero => exact ⟨rfl, rfl⟩
  | succ fuel ih =>
    simp only [chainLoop]
    split
    · exact ⟨rfl, rfl⟩
    · split
      · exact ⟨by simp, by simp⟩
      · split
        · exact ⟨Task.key_sendToChain _ t, Task.status_sendToChain _ t⟩
        · obtain ⟨hk, hs⟩ := ih (t.sendToChain (start t.chain.cur)).2
          exact ⟨by rw [hk, Task.key_sendToChain], by rw [hs, Task.status_sendToChain]⟩

/-- The fuel given by the length of the chain is enough: a task counts as fully
tested only when its cursor has passed every module. -/
theorem chainLoop_exhausted (start : ℕ → Start) (fuel : ℕ) (t : Task)
    (hf : t.chain.lid.length ≤ fuel + t.chain.cur)
    (h : (chainLoop start fuel t).1 = .exhausted) :
    (chainLoop start fuel t).2.chainEmpty = true := by
  induction fuel generalizing t with
  | zero => exact decide_eq_true (by simpa [chainLoop] using hf)
  | succ fuel ih =>
    simp only [chainLoop] at h ⊢
    split
    · assumption
    · rename_i hne
      rw [if_neg hne] at h
      split
      · rename_i hs
        simp [hs] at h
      · rename_i hs
        rw [if_neg hs] at h
        split
        · rename_i hk
          simp [hk] at h
        · rename_i hk
          rw [if_neg hk] at h
          refine ih _ ?_ h
          cases hr : start t.chain.cur <;>
            simp only [Task.sendToChain, Task.moduleSendForTesting] <;> omega

namespace Server

/-- `return_tested` and the deletion that follows it; an unsent task moves to
the accumulator (`accumulate_solution`) and keeps its memory. -/
def returnTested (a : Answers) (s : Server) (p : ℕ) : Server :=
  if a.sent p then
    { s with belts := s.belts.erase p }.log [.put p true, .leave p, .free p]
  else
    { s with
      belts := s.belts.erase p
      accumulator := some (s.accumulator.getD [] ++ [p]) }.log [.put p false, .leave p]

/-- One iteration of `belts_overview_status`. -/
def overviewTask (a : Answers) (s : Server) (p : ℕ) : Server :=
  match (s.mem p).status with
  | .finished =>
    let r := chainLoop (a.start p) (s.mem p).chain.lid.length (s.mem p)
    let s := s.setTask p r.2
    match r.1 with
    | .sent => { s with pool := s.pool ++ [p] }.log [.dispatch p r.2.curLid]
    | .waiting => s
    | .exhausted => s.returnTested a p
  | .interrupted => { s with belts := s.belts.erase p }.log [.leave p, .restore p, .free p]
  | _ => s

/-- What one iteration of `belts_overview_status` can do. A task is returned when its cursor has
passed every module. -/
inductive Overviewed (s : Server) (p : ℕ) : Server → Prop
  | idle (hf : (s.mem p).status ≠ .finished) (hi : (s.mem p).status ≠ .interrupted) :
      Overviewed s p s
  | chained {t : Task} (hf : (s.mem p).status = .finished) (hk : t.key = (s.mem p).key)
      (hs : t.status = .finished) :
      Overviewed s p ({ s.setTask p t with pool := s.pool ++ [p] }.log [.dispatch p t.curLid])
  | waiting {t : Task} (hf : (s.mem p).status = .finished) (hk : t.key = (s.mem p).key)
      (hs : t.status = .finished) : Overviewed s p (s.setTask p t)
  | delivered {t : Task} (hf : (s.mem p).status = .finished) (hk : t.key = (s.mem p).key)
      (hs : t.status = .finished) (hend : t.chainEmpty = true) :
      Overviewed s p ({ s.setTask p t with belts := s.belts.erase p }.log
        [.put p true, .leave p, .free p])
  | accumulated {t : Task} (hf : (s.mem p).status = .finished) (hk : t.key = (s.mem p).key)
      (hs : t.status = .finished) (hend : t.chainEmpty = true) :
      Overviewed s p ({ s.setTask p t with
        belts := s.belts.erase p
        accumulator := some (s.accumulator.getD [] ++ [p]) }.log [.put p false, .leave p])
  | interrupted (hi : (s.mem p).status = .interrupted) :
      Overviewed s p ({ s with belts := s.belts.erase p }.log [.leave p, .restore p, .free p])

theorem overviewTask_cases (a : Answers) (s : Server) (p : ℕ) :
    Overviewed s p (s.overviewTask a p) := by
  unfold overviewTask
  split
  · rename_i hf
    obtain ⟨hk, hs⟩ := chainLoop_frame (a.start p) (s.mem p).chain.lid.length (s.mem p)
    rw [hf] at hs
    dsimp only
    split
    · exact .chained hf hk hs
    · exact .waiting hf hk hs
    · rename_i hexhausted
      have hend := chainLoop_exhausted (a.start p) (s.mem p).chain.lid.length (s.mem p)
        (Nat.le_add_right _ _) hexhausted
      unfold returnTested
      split
      · exact .delivered hf hk hs hend
      · exact .accumulated hf hk hs hend
  · rename_i hi
    exact .interrupted hi
  · rename_i hf hi
    exact .idle hf hi

def beltsOverviewStatus (a : Answers) (s : Server) : Server :=
  s.belts.foldl (overviewTask a) s

/-! ## Delivering accumulated solutions -/

/-- One iteration of `accumulator_overview_proc`. -/
def resend (a : Answers) (s : Server) (p : ℕ) : Server :=
  if a.sent p then
    { s with accumulator := s.accumulator.map fun acc => List.erase acc p }.log
      [.put p true, .free p]
  else s.log [.put p false]

/-- `accumulator_overview_proc` destroys an emptied accumulator. -/
def accumulatorOverviewProc (a : Answers) (s : Server) : Server :=
  match s.accumulator with
  | none => s
  | some acc =>
    let s := acc.foldl (resend a) s
    if s.accumulator = some [] then { s with accumulator := none } else s

/-! ## Worker threads -/

def setStatus (s : Server) (p : ℕ) (st : Status) : Server :=
  s.setTask p { s.mem p with status := st }

/-- The start of `testing_thread`. -/
def workerTake (s : Server) (p : ℕ) : Server :=
  { s.setStatus p .running with
    pool := s.pool.erase p, working := s.working ++ [p] }.log [.take p]

/-- The end of `testing_thread`. -/
def workerFinish (s : Server) (p : ℕ) (interrupted : Bool) : Server :=
  { s.setStatus p (if interrupted then .interrupted else .finished) with
    working := s.working.erase p }.log [.finish p]

end Server

/-! ## The system -/

/-- Steps of the main thread and of the workers. `status` is a status written
by a module in any other way. -/
inductive Event
  | getTaskList (reply : Option CStr)
  | fill (a : Answers)
  | overview (a : Answers)
  | accumulatorOverview (a : Answers)
  | take (p : ℕ)
  | chaintest (p : ℕ) (lid : ℤ)
  | finish (p : ℕ) (interrupted : Bool)
  | status (p : ℕ) (st : Status)

/-- A worker acts only on a task it was given. `wt_queue_update` passes the
queue size as an `int`. -/
def next (cfg : Config) (s : Server) : Event → Option Server
  | .getTaskList reply => some (s.webifaceGetTaskList (toInt cfg.queueSize) reply)
  | .fill a => some (s.beltsFill cfg a)
  | .overview a => some (s.beltsOverviewStatus a)
  | .accumulatorOverview a => some (s.accumulatorOverviewProc a)
  | .take p => if p ∈ s.pool then some (s.workerTake p) else none
  | .chaintest p lid =>
    if p ∈ s.working then some (s.setTask p ((s.mem p).chaintest lid)) else none
  | .finish p interrupted => if p ∈ s.working then some (s.workerFinish p interrupted) else none
  | .status p st => some (s.setStatus p st)

abbrev Step (cfg : Config) : Server → Event → Server → Prop := Transition.StepOf (next cfg)

end WebTester.Belts
