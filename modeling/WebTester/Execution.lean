import WebTester.Process
import WebTester.Transition

/-!
# One execution of a process

Between `run_execute_process` and `run_pwait` the record is changed by messages of
its LRVM, by overviews of the hypervisor and by the executing thread, in any order.
The loss of the connection changes nothing. The verdict of a test is read off the
record after the thread has ended.
-/
namespace WebTester.Librun
open CString Bits Transition

/-- What is heard of the process: that it has come to its end, or that it goes on. -/
inductive Note
  | ended
  | alive
  deriving DecidableEq, Repr

/-- `reported` is the exit code that LRVM reported last, `heard` what was heard last. -/
structure Execution where
  proc : Process
  reported : Option ℤ
  heard : Option Note
  ended : Bool

inductive Event
  | message (m : Message) (acc : Accounting)
  | overview (acc : Accounting) (now : TimeVal)
  | lrvmPid (pid : BitVec 32)
  | disconnect
  | closePipe
  | leave

/-- The code that a message reports. -/
def Message.reports : Message → Option ℤ
  | .exitCode arg => some (atoi arg)
  | _ => none

/-- Signals are passed over while the process is locked, `finalize` while it is killed. -/
def Message.note (p : Process) : Message → Option Note
  | .finalize => if p.killing then none else some .ended
  | .execError _ => some .ended
  | .termsig _ => if p.locked then none else some .ended
  | .stopsig _ | .cont => if p.locked then none else some .alive
  | .taskpid _ | .exitCode _ | .base => none

namespace Process

/-- The time in zombie state that `belts_check_proc_zombie` compares is over. -/
def zombieTimedOut (cfg : Profile) (now : TimeVal) (p : Process) : Bool :=
  tvUsecCmp (timedist (if p.zombied then p.zombieTimestamp else now) now) cfg.zombieTimeout != .lt

/-- An overview kills a process whose LRVM does not answer, that is a zombie for too
long, or that exceeds a limit. -/
def overviewKills (cfg : Profile) (acc : Accounting) (now : TimeVal) (p : Process) : Bool :=
  !p.locked && (p.answerTimedOut cfg now ||
    (p.lrvmPid != 0 && p.taskPid != 0 && p.executing &&
      match acc.live p.taskPid with
      | none => p.zombieTimedOut cfg now
      | some st =>
        if st.isZombie then p.zombieTimedOut cfg now
        else !p.killing && (p.fillFromStats cfg st).checkLimits cfg 0 != 0))

end Process

def next (cfg : Profile) (x : Execution) (e : Event) : Option Execution :=
  if x.ended then none
  else match e with
    | .message m acc => some { x with
        proc := m.apply cfg acc x.proc
        reported := m.reports.or x.reported
        heard := (m.note x.proc).or x.heard }
    | .overview acc now => some { x with
        proc := x.proc.overview cfg acc now
        heard := if x.proc.overviewKills cfg acc now then some .ended else x.heard }
    | .lrvmPid pid => some { x with proc := { x.proc with lrvmPid := pid } }
    | .disconnect => some x
    | .closePipe => some { x with proc := x.proc.closePipe }
    | .leave => some { x with proc := x.proc.leaveThread, ended := true }

abbrev Step (cfg : Profile) : Execution → Event → Execution → Prop := StepOf (next cfg)

/-- A process that was spawned and started at a time. -/
def started (unique : ℤ) (key : CStr) (rssLimit timeLimit : BitVec 64) (now : TimeVal) :
    Execution where
  proc := (Process.spawnNewProcess unique key rssLimit timeLimit).execute .started now
  reported := none
  heard := none
  ended := false

/-! ## What an operation can do to the state word -/

namespace Process

variable {cfg : Profile} {acc : Accounting} {now : TimeVal} {p : Process}

lemma kill_cases (p : Process) (st : State) :
    (p.killing = true ∧ p.kill st = p) ∨
      (p.kill st).state = psKilled ||| (if p.execError then st ||| psExecerror else st) := by
  unfold kill
  split
  · exact .inl ⟨by assumption, rfl⟩
  · exact .inr rfl

@[simp] lemma kill_errDesc (p : Process) (st : State) : (p.kill st).errDesc = p.errDesc := by
  unfold kill
  split <;> rfl

@[simp] lemma kill_exitCode (p : Process) (st : State) : (p.kill st).exitCode = p.exitCode := by
  unfold kill
  split <;> rfl

/-- Killing a process in error leaves it in error. -/
lemma kill_setExecError (p : Process) (desc : CStr) :
    ((p.setExecError desc).kill 0).execError = true ∧
      ((p.setExecError desc).kill 0).finished = false ∧
      ((p.setExecError desc).kill 0).executing = false := by
  have herr : (p.setExecError desc).execError = true := by
    change test psExecerror psExecerror = true
    decide
  rcases (p.setExecError desc).kill_cases 0 with ⟨-, h⟩ | h
  · have hst : (p.setExecError desc).state = psExecerror := rfl
    rw [h]
    simp only [execError, finished, executing, hst]
    decide
  · rw [if_pos herr] at h
    simp only [execError, finished, executing, h]
    decide

/-- What an overview can do: nothing that the verdict reads, an error with a
description, or a limit recorded in an executing process. -/
inductive Overviewed (p q : Process) : Prop
  | same (hs : q.state = p.state) (hd : q.errDesc = p.errDesc)
  | failed (he : q.execError = true) (hf : q.finished = false) (hd : q.errDesc ≠ [])
  | killed (hx : p.executing = true) (hl : q.memorylimit = true ∨ q.timelimit = true)
      (hf : q.finished = false) (hd : q.errDesc = p.errDesc)
      (he : p.execError = true → q.execError = true)

lemma checkLrvmAnsTimeout_failed (h : p.answerTimedOut cfg now = true) :
    p.Overviewed (p.checkLrvmAnsTimeout cfg now) ∧
      (p.checkLrvmAnsTimeout cfg now).executing = false := by
  obtain ⟨he, hf, hx⟩ := kill_setExecError { p with locked := true }
    "Timelimit to answer from LRVM exceeded.".toList
  unfold checkLrvmAnsTimeout
  rw [if_pos h]
  exact ⟨.failed he hf (by simp [setExecError]), hx⟩

lemma checkProcZombie_overviewed (p : Process) : p.Overviewed (p.checkProcZombie cfg now) := by
  unfold checkProcZombie
  dsimp only
  split_ifs
  · obtain ⟨he, hf, -⟩ := kill_setExecError { p with locked := true } "Suspesion in zombie".toList
    exact .failed he hf (by simp [setExecError])
  · exact .same rfl rfl
  · obtain ⟨he, hf, -⟩ := kill_setExecError
      { p with zombieTimestamp := now, zombied := true, locked := true }
      "Suspesion in zombie".toList
    exact .failed he hf (by simp [setExecError])
  · exact .same rfl rfl

/-- The flags that `CHECK_LIMITS` adds. -/
lemma test_checkLimits (p : Process) (st f : State) :
    test (p.checkLimits cfg st) f = (test st f || (p.overMemory cfg && test psMemorylimit f) ||
      (p.overTime cfg && test psTimelimit f)) := by
  unfold checkLimits
  cases p.overMemory cfg <;> cases p.overTime cfg <;> simp

lemma checkLimits_ne_zero {p : Process} (h : p.checkLimits cfg 0 ≠ 0) :
    p.overMemory cfg = true ∨ p.overTime cfg = true := by
  by_contra hno
  push Not at hno
  simp only [Bool.not_eq_true] at hno
  apply h
  simp [checkLimits, hno.1, hno.2]

/-- A kill does not hide an earlier error. -/
lemma kill_execError {st : State} (h : p.execError = true) : (p.kill st).execError = true := by
  have hmark : test psExecerror psExecerror = true := by decide
  rcases p.kill_cases st with ⟨-, hk⟩ | hk
  · rw [hk]
    exact h
  · rw [if_pos h] at hk
    simp [execError, hk, hmark]

/-- A kill for a limit records it. -/
lemma kill_limits {st : State} (hst : test st psMemorylimit = true ∨ test st psTimelimit = true)
    (hf : test st psFinished = false) (hk : p.killing = false) :
    ((p.kill st).memorylimit = true ∨ (p.kill st).timelimit = true) ∧
      (p.kill st).finished = false := by
  rcases p.kill_cases st with ⟨hk', -⟩ | h
  · simp [hk] at hk'
  · have hfin : test psKilled psFinished = false ∧ test psExecerror psFinished = false := by decide
    simp only [memorylimit, timelimit, finished, h]
    split
    · simp only [test_or, hf, hfin.1, hfin.2]
      rcases hst with h | h <;> simp [h]
    · simp only [test_or, hf, hfin.1]
      rcases hst with h | h <;> simp [h]

/-- A process over a limit is killed for it, unless it is being killed already. -/
lemma killOverLimits_limits {st : Stats} (hk : p.killing = false)
    (hne : (p.fillFromStats cfg st).checkLimits cfg 0 ≠ 0) :
    ((p.killOverLimits cfg st).memorylimit = true ∨ (p.killOverLimits cfg st).timelimit = true) ∧
      (p.killOverLimits cfg st).finished = false := by
  have hlim : test ((p.fillFromStats cfg st).checkLimits cfg 0) psMemorylimit = true ∨
      test ((p.fillFromStats cfg st).checkLimits cfg 0) psTimelimit = true := by
    have hm : test psMemorylimit psMemorylimit = true ∧ test psTimelimit psTimelimit = true := by
      decide
    simp only [test_checkLimits]
    rcases checkLimits_ne_zero hne with h | h
    · exact .inl (by simp [h, hm.1])
    · exact .inr (by simp [h, hm.2])
  have hfin : test ((p.fillFromStats cfg st).checkLimits cfg 0) psFinished = false := by
    have hc : test psMemorylimit psFinished = false ∧ test psTimelimit psFinished = false := by
      decide
    simp [test_checkLimits, hc]
  have hkill := kill_limits (p := { p.fillFromStats cfg st with locked := true }) hlim hfin hk
  unfold killOverLimits
  dsimp only
  rw [if_pos hne]
  exact hkill

lemma killOverLimits_overviewed (hx : p.executing = true) (st : Stats) :
    p.Overviewed (p.killOverLimits cfg st) := by
  have hlimits := @killOverLimits_limits cfg p st
  unfold killOverLimits at hlimits ⊢
  dsimp only at hlimits ⊢
  split
  · rename_i hne
    rw [if_pos hne] at hlimits
    cases hk : p.killing with
    | true =>
      have hsame : ({ p.fillFromStats cfg st with locked := true } : Process).kill
          ((p.fillFromStats cfg st).checkLimits cfg 0) =
          { p.fillFromStats cfg st with locked := true } := by
        unfold kill
        exact if_pos hk
      rw [hsame]
      exact .same rfl rfl
    | false =>
      obtain ⟨hl, hf⟩ := hlimits hk hne
      refine .killed hx hl hf ?_ fun he => ?_
      · simp [fillFromStats]
      · exact kill_execError (p := { p.fillFromStats cfg st with locked := true }) he
  · exact .same rfl rfl

theorem overview_overviewed (cfg : Profile) (acc : Accounting) (now : TimeVal) (p : Process) :
    p.Overviewed (p.overview cfg acc now) := by
  unfold overview
  split
  · exact .same rfl rfl
  · cases ht : p.answerTimedOut cfg now with
    | true =>
      obtain ⟨ho, hx⟩ := checkLrvmAnsTimeout_failed ht
      simpa [hx] using ho
    | false =>
      have hsame : p.checkLrvmAnsTimeout cfg now = p := by simp [checkLrvmAnsTimeout, ht]
      simp only [hsame]
      split
      · rename_i hc
        split
        · exact p.checkProcZombie_overviewed
        · split
          · exact p.checkProcZombie_overviewed
          · rename_i st hlive hz
            have hx : ({ p with zombied := false } : Process).executing = true := hc.2.2
            have ho : Overviewed _ (killOverLimits cfg { p with zombied := false } st) :=
              killOverLimits_overviewed hx st
            cases ho with
            | same hs hd => exact .same hs hd
            | failed he hf hd => exact .failed he hf hd
            | killed hx hl hf hd he => exact .killed hx hl hf hd he
      · exact .same rfl rfl

lemma checkProcZombie_execError (h : p.zombieTimedOut cfg now = true) :
    (p.checkProcZombie cfg now).execError = true := by
  unfold zombieTimedOut at h
  unfold checkProcZombie
  cases hz : p.zombied with
  | true =>
    simp only [hz, if_true] at h ⊢
    rw [if_pos h]
    exact (kill_setExecError _ _).1
  | false =>
    simp only [hz, Bool.false_eq_true, if_false] at h ⊢
    rw [if_pos h]
    exact (kill_setExecError _ _).1

/-- A kill by the overview shows in the state word. -/
theorem overviewKills_ends (h : p.overviewKills cfg acc now = true) :
    (p.overview cfg acc now).execError = true ∨ (p.overview cfg acc now).memorylimit = true ∨
      (p.overview cfg acc now).timelimit = true := by
  unfold overviewKills at h
  obtain ⟨hlocked, h⟩ := Bool.and_eq_true_iff.1 h
  unfold overview
  rw [if_neg (by simpa using hlocked)]
  cases ht : p.answerTimedOut cfg now with
  | true =>
    have hx : (p.checkLrvmAnsTimeout cfg now).executing = false := (checkLrvmAnsTimeout_failed ht).2
    have he : (p.checkLrvmAnsTimeout cfg now).execError = true := by
      unfold checkLrvmAnsTimeout
      rw [if_pos ht]
      exact (kill_setExecError _ _).1
    dsimp only
    rw [if_neg (by simp [hx])]
    exact .inl he
  | false =>
    have hsame : p.checkLrvmAnsTimeout cfg now = p := by simp [checkLrvmAnsTimeout, ht]
    rw [ht, Bool.false_or] at h
    simp only [Bool.and_eq_true, bne_iff_ne] at h
    obtain ⟨⟨⟨hlrvm, htask⟩, hexec⟩, hkills⟩ := h
    dsimp only
    rw [hsame, if_pos ⟨hlrvm, htask, hexec⟩]
    cases hlive : acc.live p.taskPid with
    | none =>
      rw [hlive] at hkills
      exact .inl (checkProcZombie_execError hkills)
    | some st =>
      rw [hlive] at hkills
      dsimp only at hkills ⊢
      split
      · rename_i hz
        rw [if_pos hz] at hkills
        exact .inl (checkProcZombie_execError hkills)
      · rename_i hz
        rw [if_neg hz] at hkills
        obtain ⟨hk, hne⟩ : p.killing = false ∧ (p.fillFromStats cfg st).checkLimits cfg 0 ≠ 0 := by
          simpa using hkills
        exact .inr (killOverLimits_limits (p := { p with zombied := false }) hk hne).1

@[simp] lemma checkLrvmAnsTimeout_exitCode (p : Process) :
    (p.checkLrvmAnsTimeout cfg now).exitCode = p.exitCode := by
  unfold checkLrvmAnsTimeout
  split <;> simp [setExecError]

@[simp] lemma checkProcZombie_exitCode (p : Process) :
    (p.checkProcZombie cfg now).exitCode = p.exitCode := by
  unfold checkProcZombie
  dsimp only
  split_ifs <;> simp [setExecError]

@[simp] lemma killOverLimits_exitCode (p : Process) (st : Stats) :
    (p.killOverLimits cfg st).exitCode = p.exitCode := by
  unfold killOverLimits
  dsimp only
  split <;> simp [fillFromStats]

@[simp] lemma overview_exitCode (p : Process) :
    (p.overview cfg acc now).exitCode = p.exitCode := by
  unfold overview
  split
  · rfl
  · dsimp only
    split
    · split
      · simp
      · split <;> simp
    · simp

/-- `RUN_PROC_GETSIGNAL` keeps no error. -/
lemma test_getSignal_execerror (p : Process) : test p.getSignal psExecerror = false := by
  have hz : psTerminated &&& psExecerror = 0#64 ∧ psKilled &&& psExecerror = 0#64 ∧
      psStopped &&& psExecerror = 0#64 ∧ psContinued &&& psExecerror = 0#64 := by decide
  simp only [getSignal, test_or, test_and, hz]
  simp [test]

/-- What `finalize` can do. -/
inductive Finalized (cfg : Profile) (acc : Accounting) (p q : Process) : Prop
  | busy (hk : p.killing = true) (h : q = p)
  | failed (hs : q.state = psExecerror) (hd : q.errDesc ≠ []) (he : q.exitCode = p.exitCode)
      (hacc : acc.pool p.taskPid = none)
  | done {st : Stats} (hacc : acc.pool p.taskPid = some st)
      (hs : q.state = (p.fillFromStats cfg st).checkLimits cfg p.getSignal ||| psFinished)
      (hd : q.errDesc = p.errDesc) (he : q.exitCode = p.exitCode)

lemma noAccounting_ne_nil (p : Process) : p.noAccounting ≠ [] := by
  unfold noAccounting
  intro h
  exact absurd (List.append_eq_nil_iff.1 h).2 (List.cons_ne_nil _ _)

theorem finalize_finalized (cfg : Profile) (acc : Accounting) (p : Process) :
    Finalized cfg acc p (p.finalize cfg acc) := by
  unfold finalize
  split
  · exact .busy (by assumption) rfl
  · split
    · rename_i hacc
      exact .failed rfl (noAccounting_ne_nil p) rfl hacc
    · rename_i st hacc
      exact .done hacc rfl rfl rfl

end Process

/-! ## The verdict on a test -/

/-- What `testing_main_loop` does after the solution has been run: it stops, it
notes one of three errors, or it goes on to the answer and the checker. -/
inductive Branch
  | crash
  | ml
  | tl
  | re
  | answer
  deriving DecidableEq, Repr

namespace Process

/-- `PROCESS_RUNTIME_ERROR`. -/
def runtimeError (p : Process) : Bool := p.terminated || (p.finished && p.exitStatus ≠ 0)

def solutionBranch (p : Process) : Branch :=
  if p.execError then .crash
  else if p.memorylimit then .ml
  else if p.timelimit then .tl
  else if p.runtimeError then .re
  else .answer

lemma solutionBranch_eq_answer {p : Process} (h : p.solutionBranch = .answer) :
    p.execError = false ∧ p.memorylimit = false ∧ p.timelimit = false ∧
      p.terminated = false ∧ (p.finished = true → p.exitStatus = 0) := by
  unfold solutionBranch at h
  split_ifs at h with h1 h2 h3 h4
  simp only [runtimeError, Bool.not_eq_true, Bool.or_eq_false_iff] at h1 h2 h3 h4
  refine ⟨h1, h2, h3, h4.1, fun hf => ?_⟩
  simpa [hf] using h4.2

/-- A zero exit status comes from a zero exit code. -/
lemma exitCode_of_exitStatus {p : Process} (h : p.exitStatus = 0) : p.exitCode = 0 := by
  unfold exitStatus at h
  split_ifs at h with h1 h2
  · exact absurd h h1
  · exact absurd h h2
  · exact h

end Process

end WebTester.Librun
