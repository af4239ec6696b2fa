import WebTester.CString

/-!
# Tasks

The fields of `wt_task_t` that the scheduler reads. A task is one submitted
solution for one testing module; `chain` lists the further modules that have to
test it. The message buffers and the parameter arrays are not scheduling data.
-/
namespace WebTester

/-- `TS_PENDING`, `TS_RUNNING`, `TS_FINISHED` and `TS_INTERRUPTED`. -/
inductive Status
  | pending
  | running
  | finished
  | interrupted
  deriving DecidableEq, Repr

/-- `chain_testing`: the cells `lid[0..last)`, the cursor and the module the
cursor was last moved over. -/
structure Chain where
  lid : List ℤ
  cur : ℕ
  curLid : ℤ
  started : Bool
  deriving DecidableEq, Repr

/-- `TF_UNPACKED` and `TF_KEEPINQUEUE` are the two bits of `flags`. -/
structure Task where
  sid : ℤ
  lid : ℤ
  unpacked : Bool
  keepInQueue : Bool
  status : Status
  chain : Chain
  deriving DecidableEq, Repr

namespace Task

/-- `wt_spawn_new_task`. -/
def spawnNewTask (sid lid : ℤ) : Task where
  sid := sid
  lid := lid
  unpacked := false
  keepInQueue := false
  status := .pending
  chain := { lid := [], cur := 0, curLid := 0, started := false }

/-- What `wt_task_search_comparator` compares. -/
def key (t : Task) : ℤ × ℤ := (t.sid, t.lid)

/-- `TASK_CHAINEMPTY`. -/
def chainEmpty (t : Task) : Bool := t.chain.lid.length ≤ t.chain.cur

/-- `TASK_CURLID`: the module that tests the task now. -/
def curLid (t : Task) : ℤ := if t.chain.started then t.chain.curLid else t.lid

/-- `wt_task_chaintest`: a module that is already in the chain, or that tests
the task first, is not added again. -/
def chaintest (t : Task) (lid : ℤ) : Task :=
  if lid ∈ t.chain.lid ∨ t.lid = lid then t
  else { t with chain := { t.chain with lid := t.chain.lid ++ [lid] } }

/-- `webiface_get_task`: nothing is asked for an unpacked task; otherwise the
reply of the web interface decides. -/
def webifaceGetTask (replied : Bool) (t : Task) : Bool × Task :=
  if t.unpacked then (true, t)
  else if replied then (true, { t with unpacked := true })
  else (false, t)

@[simp] theorem key_chaintest (t : Task) (lid : ℤ) : (t.chaintest lid).key = t.key := by
  unfold chaintest
  split <;> rfl

@[simp] theorem status_chaintest (t : Task) (lid : ℤ) : (t.chaintest lid).status = t.status := by
  unfold chaintest
  split <;> rfl

@[simp] theorem key_webifaceGetTask (r : Bool) (t : Task) :
    (t.webifaceGetTask r).2.key = t.key := by
  unfold webifaceGetTask
  split
  · rfl
  · split <;> rfl

@[simp] theorem status_webifaceGetTask (r : Bool) (t : Task) :
    (t.webifaceGetTask r).2.status = t.status := by
  unfold webifaceGetTask
  split
  · rfl
  · split <;> rfl

end Task

/-- The answer of a testing module: it has pushed the task to its pool, or it
has refused it and possibly asked for it to be kept (`TF_KEEPINQUEUE`). -/
inductive Start
  | started
  | refused (keep : Bool)
  deriving DecidableEq, Repr

namespace Task

/-- `wt_module_send_for_testing`; a missing module is a refusal without the
flag. The first component says whether zero is returned. -/
def moduleSendForTesting (r : Start) (t : Task) : Bool × Task :=
  match r with
  | .started => (true, t)
  | .refused keep => (false, { t with keepInQueue := t.keepInQueue || keep })

/-- `send_for_testing`: the first dispatch of a task taken from the queue. -/
def sendForTesting (replied : Bool) (r : Start) (t : Task) : Bool × Task :=
  let g := webifaceGetTask replied { t with keepInQueue := false }
  if g.1 then g.2.moduleSendForTesting r else g

/-- `send_to_chain`: the cursor is moved before the module is asked. -/
def sendToChain (r : Start) (t : Task) : Bool × Task :=
  moduleSendForTesting r { t with chain := { t.chain with
    curLid := t.chain.lid.getD t.chain.cur 0, started := true, cur := t.chain.cur + 1 } }

@[simp] theorem key_moduleSendForTesting (r : Start) (t : Task) :
    (t.moduleSendForTesting r).2.key = t.key := by
  cases r <;> rfl

@[simp] theorem status_moduleSendForTesting (r : Start) (t : Task) :
    (t.moduleSendForTesting r).2.status = t.status := by
  cases r <;> rfl

@[simp] theorem key_sendForTesting (g : Bool) (r : Start) (t : Task) :
    (t.sendForTesting g r).2.key = t.key := by
  simp only [sendForTesting]
  split
  · rw [key_moduleSendForTesting, key_webifaceGetTask]; rfl
  · rw [key_webifaceGetTask]; rfl

@[simp] theorem status_sendForTesting (g : Bool) (r : Start) (t : Task) :
    (t.sendForTesting g r).2.status = t.status := by
  simp only [sendForTesting]
  split
  · rw [status_moduleSendForTesting, status_webifaceGetTask]
  · rw [status_webifaceGetTask]

@[simp] theorem key_sendToChain (r : Start) (t : Task) : (t.sendToChain r).2.key = t.key := by
  simp only [sendToChain, key_moduleSendForTesting]; rfl

@[simp] theorem status_sendToChain (r : Start) (t : Task) :
    (t.sendToChain r).2.status = t.status := by
  simp only [sendToChain, status_moduleSendForTesting]

end Task

end WebTester
