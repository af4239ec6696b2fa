import WebTester.Task
import WebTester.TestingLoop

/-!
# Testing threads and the mutex `active`

The module holds `active` from its initialization until `Informatics_stop_testing`
releases it. Whether testing is active is asked by trying to lock it: a thread that
succeeds unlocks it again in a step of its own, so for a moment it looks to the others
as if testing were active. Any number of threads execute `testing_thread`, one task each.
-/
namespace WebTester.Informatics
open CString

/-! ## One thread -/

/-- The checks of `active`, in the order of the code: `TESTING_CHECK_ACTIVE` after the
compilation, the three of an iteration, `LOOP_DONE_CHECK_ACTIVE`, and
`TESTING_CHECK_ACTIVE` after `testing_main_loop`. -/
inductive Point
  | compiled
  | started
  | executed
  | checked
  | loopDone
  | final
  deriving DecidableEq, Repr

/-- The checks called `LOOP_CHECK_ACTIVE`. -/
def Point.inLoop : Point → Bool
  | .started | .executed | .checked => true
  | .compiled | .loopDone | .final => false

/-- Where a thread stands: before a trylock, or between a trylock that succeeded and its
unlock. -/
inductive Pc
  | idle
  | begun
  | trylock (p : Point)
  | unlock (p : Point)
  | ended (status : Status)
  deriving DecidableEq, Repr

def Pc.holds : Pc → Bool
  | .unlock _ => true
  | _ => false

/-- A task, with everything its thread meets. The thread is prepared when the required
parameters are there and the source is saved; `rc` is the result of `compile_solution`. -/
structure Job where
  prepared : Bool
  rc : ℤ
  acm : Bool
  bonus : ℤ
  tests : List Test

/-- A thread in `testing_thread`. The tests not yet done begin with the current one.
`stopped` records the first check that found testing stopped. -/
structure Thread where
  job : Job
  pc : Pc
  loop : Loop
  rest : List Test
  stopped : Option Point

namespace Thread

/-- A thread that has not been pushed to the pool. -/
def idle : Thread where
  job := ⟨false, 0, false, 0, []⟩
  pc := .idle
  loop := .initial
  rest := []
  stopped := none

/-- `g_thread_pool_push`. -/
def push (job : Job) : Thread where
  job := job
  pc := .begun
  loop := .initial
  rest := job.tests
  stopped := none

/-- The label `__done_` of `testing_main_loop`. -/
def toDone (th : Thread) (l : Loop) : Thread := { th with loop := l, pc := .trylock .loopDone }

/-- The head of the cycle by tests. -/
def toTest (th : Thread) (l : Loop) (rest : List Test) : Thread :=
  { th with loop := l, rest := rest, pc := .trylock (if rest = [] then .loopDone else .started) }

/-- The label `__done_` of `testing_thread`: the points and errors are returned. -/
def finish (th : Thread) (l : Loop) : Thread := { th with loop := l, pc := .ended .finished }

/-- Up to the first check. -/
def begin (th : Thread) : Thread :=
  if th.job.prepared then { th with pc := .trylock .compiled }
  else th.finish { th.loop with errors := "CR".toList }

/-- After a check that found testing active. -/
def proceed (th : Thread) : Point → Thread
  | .compiled =>
    if th.job.rc < 0 then th.finish { th.loop with points := 0, errors := "CR".toList }
    else if th.job.rc = 0 then th.finish { th.loop with points := 0, errors := "CE".toList }
    else th.toTest th.loop th.rest
  | .started =>
    match th.rest with
    | [] => th.toDone th.loop
    | t :: _ =>
      match th.loop.copyTest t with
      | .ok l => { th with loop := l, pc := .trylock .executed }
      | .error l => th.toDone l
  | .executed =>
    match th.rest with
    | [] => th.toDone th.loop
    | t :: rest =>
      match th.loop.overviewSolution th.job.acm t with
      | .ok (l, true) => { th with loop := l, pc := .trylock .checked }
      | .ok (l, false) => th.toTest l rest
      | .error l => th.toDone l
  | .checked =>
    match th.rest with
    | [] => th.toDone th.loop
    | t :: rest =>
      match th.loop.overviewChecker th.job.acm t with
      | .ok l => th.toTest l rest
      | .error l => th.toDone l
  | .loopDone => { th with loop := th.loop.done th.job.bonus true, pc := .trylock .final }
  | .final => th.finish th.loop

/-- After the unlock of a check that found testing stopped. -/
def withdraw (th : Thread) (p : Point) : Thread :=
  let th := { th with stopped := th.stopped.or (some p) }
  match p with
  | .compiled => { th with pc := .ended .interrupted }
  | .started | .executed | .checked => th.toDone th.loop
  | .loopDone => { th with loop := th.loop.done th.job.bonus false, pc := .trylock .final }
  | .final => { th with pc := .ended .interrupted }

/-- Some `LOOP_CHECK_ACTIVE` has left the cycle by tests. -/
def leftEarly (th : Thread) : Bool := th.stopped.any Point.inLoop

end Thread

/-! ## The module -/

/-- Who has locked `active`. -/
inductive Holder (ι : Type)
  | module
  | stopper
  | starter
  | thread (i : ι)
  deriving DecidableEq, Repr

/-- `Informatics_stop_testing`: its trylock succeeds when testing is stopped already;
otherwise it unlocks what it has not locked. -/
inductive Stopper
  | idle
  | holds
  | releases
  deriving DecidableEq, Repr

/-- `starter` tells that `Informatics_start_testing_thread` is between its trylock and its
unlock. -/
structure Testing (ι : Type) where
  active : Option (Holder ι)
  threads : ι → Thread
  starter : Bool
  stopper : Stopper

/-- Steps of the threads, of `Informatics_start_testing_thread` (which pushes a task, or
locks and unlocks) and of `Informatics_stop_testing`. -/
inductive TestingEvent (ι : Type)
  | start (i : ι) (job : Job)
  | refuse
  | refused
  | stopTry
  | stopUnlock
  | begin (i : ι)
  | trylock (i : ι)
  | unlock (i : ι)

namespace Testing

variable {ι : Type} [DecidableEq ι]

/-- After `Informatics_init_testing`. -/
def initial : Testing ι where
  active := some .module
  threads _ := .idle
  starter := false
  stopper := .idle

def setThread (s : Testing ι) (i : ι) (th : Thread) : Testing ι :=
  { s with threads := Function.update s.threads i th }

def next (s : Testing ι) : TestingEvent ι → Option (Testing ι)
  | .start i job =>
    if s.active ≠ none ∧ s.starter = false ∧ (s.threads i).pc = .idle then
      some (s.setThread i (.push job))
    else none
  | .refuse =>
    if s.active = none ∧ s.starter = false then
      some { s with active := some .starter, starter := true }
    else none
  | .refused => if s.starter then some { s with active := none, starter := false } else none
  | .stopTry =>
    if s.stopper ≠ .idle then none
    else if s.active = none then some { s with active := some .stopper, stopper := .holds }
    else some { s with stopper := .releases }
  | .stopUnlock =>
    if s.stopper = .idle then none else some { s with active := none, stopper := .idle }
  | .begin i =>
    if (s.threads i).pc = .begun then some (s.setThread i (s.threads i).begin) else none
  | .trylock i =>
    match (s.threads i).pc with
    | .trylock p =>
      if s.active = none then
        some { s.setThread i { s.threads i with pc := .unlock p } with active := some (.thread i) }
      else some (s.setThread i ((s.threads i).proceed p))
    | _ => none
  | .unlock i =>
    match (s.threads i).pc with
    | .unlock p => some { s.setThread i ((s.threads i).withdraw p) with active := none }
    | _ => none

end Testing

end WebTester.Informatics
