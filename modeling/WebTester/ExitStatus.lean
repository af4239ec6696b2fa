import WebTester.Execution

/-!
# The exit code of a process that was stopped

LRVM reports every stop and continuation of the process, its exit code and its end. The three
fields from which `RUN_PROC_EXITCODE` chooses are written by different messages, and none of them
is reset: after a stop, the code of the process is the number of the last stop signal.
-/
namespace WebTester.Librun
open CString Bits

/-- Messages of LRVM, one after the other. -/
def Process.receive (cfg : Profile) (acc : Accounting) (p : Process) (ms : List Message) :
    Process :=
  ms.foldl (fun p m => m.apply cfg acc p) p

/-- The process is stopped and continued by each of these signals. -/
def stops (sigs : List CStr) : List Message := sigs.flatMap fun sig => [.stopsig sig, .cont]

/-- It is stopped and continued, and then it ends. -/
def stopsAndExit (sigs : List CStr) (code : CStr) : List Message :=
  stops sigs ++ [.exitCode code, .finalize]

/-- The code of the process is what LRVM has reported, and an error exactly when it is not zero. -/
def Process.Reports (p : Process) (code : ℤ) : Prop :=
  p.exitStatus = code ∧ (p.runtimeError = true ↔ code ≠ 0)

/-- The number of the last stop signal. -/
def lastStop (sigs : List CStr) (p : Process) : ℤ := (sigs.getLast?.map atoi).getD p.stopSig

/-- The signal that takes the place of the exit code, or zero. -/
def lastSignal (sigs : List CStr) (p : Process) : ℤ :=
  if lastStop sigs p ≠ 0 then lastStop sigs p else p.termSig

variable {cfg : Profile} {acc : Accounting} {p : Process} {sigs : List CStr} {code : CStr}

lemma lastStop_cons (sig : CStr) (sigs : List CStr) (p : Process) :
    lastStop (sig :: sigs) p =
      lastStop sigs { p with state := psContinued, stopSig := atoi sig } := by
  cases sigs with
  | nil => rfl
  | cons sig' sigs =>
    have hlast := List.getLast?_eq_some_getLast (List.cons_ne_nil sig' sigs)
    rw [lastStop, lastStop, List.getLast?_cons_cons, hlast]
    rfl

/-- After each pair the process is continued and has kept the number of the signal. -/
lemma receive_stops (hlocked : p.locked = false) (sigs : List CStr) :
    p.receive cfg acc (stops sigs) =
      { p with
        state := if sigs = [] then p.state else psContinued
        stopSig := lastStop sigs p } := by
  induction sigs generalizing p with
  | nil => rfl
  | cons sig sigs ih =>
    have hpair : p.receive cfg acc (stops (sig :: sigs)) =
        { p with state := psContinued, stopSig := atoi sig }.receive cfg acc (stops sigs) := by
      simp [Process.receive, stops, Message.apply, Process.setStopped, Process.setContinued,
        hlocked]
    have hrest := ih (p := { p with state := psContinued, stopSig := atoi sig }) hlocked
    rw [hpair, hrest, lastStop_cons]
    simp

/-- The fields from which the code is chosen, before and after the end. -/
lemma finalize_exitStatus (p : Process) : (p.finalize cfg acc).exitStatus = p.exitStatus := by
  unfold Process.finalize
  split
  · rfl
  · split <;> rfl

/-- A process that ends is finished, and terminated if it was before. -/
lemma finalize_flags {st : Stats} (hkilling : p.killing = false)
    (hacc : acc.pool p.taskPid = some st) :
    (p.finalize cfg acc).finished = true ∧ (p.finalize cfg acc).terminated = p.terminated := by
  have hstate : (p.finalize cfg acc).state =
      (p.fillFromStats cfg st).checkLimits cfg p.getSignal ||| psFinished := by
    simp [Process.finalize, hkilling, hacc]
  have hsignal : test p.getSignal psTerminated = test p.state psTerminated := by
    have hmasks : psTerminated &&& psTerminated = psTerminated ∧
        psKilled &&& psTerminated = 0#64 ∧ psStopped &&& psTerminated = 0#64 ∧
        psContinued &&& psTerminated = 0#64 := by decide
    simp only [Process.getSignal, test_or, test_and, hmasks]
    simp [test]
  have hlimits : test psMemorylimit psTerminated = false ∧
      test psTimelimit psTerminated = false ∧ test psFinished psTerminated = false ∧
      test psFinished psFinished = true := by decide
  constructor
  · rw [Process.finished, hstate, test_or, hlimits.2.2.2, Bool.or_true]
  · rw [Process.terminated, hstate, test_or, Process.test_checkLimits, hsignal, hlimits.1,
      hlimits.2.1, hlimits.2.2.1]
    simp [Process.terminated]

/-- The record before the end. -/
def beforeExit (sigs : List CStr) (code : CStr) (p : Process) : Process :=
  { p with
    state := if sigs = [] then p.state else psContinued
    stopSig := lastStop sigs p
    exitCode := atoi code }

lemma receive_stopsAndExit (hlocked : p.locked = false) (sigs : List CStr) (code : CStr) :
    p.receive cfg acc (stopsAndExit sigs code) = (beforeExit sigs code p).finalize cfg acc := by
  have hstops := @receive_stops cfg acc p hlocked sigs
  unfold Process.receive at hstops ⊢
  rw [stopsAndExit, List.foldl_append, hstops]
  rfl

lemma exitStatus_beforeExit (sigs : List CStr) (code : CStr) (p : Process) :
    (beforeExit sigs code p).exitStatus =
      if lastSignal sigs p ≠ 0 then lastSignal sigs p else atoi code := by
  unfold beforeExit Process.exitStatus lastSignal
  dsimp only
  by_cases hstop : lastStop sigs p = 0 <;> by_cases hterm : p.termSig = 0 <;> simp [hstop, hterm]

lemma lastSignal_pos (hsigs : ∀ sig ∈ sigs, 1 ≤ atoi sig) (hne : sigs ≠ []) :
    1 ≤ lastSignal sigs p := by
  have hlast : lastStop sigs p = atoi (sigs.getLast hne) := by
    simp [lastStop, List.getLast?_eq_some_getLast hne]
  have hpos := hsigs _ (List.getLast_mem hne)
  rw [lastSignal, hlast, if_pos (by omega)]
  exact hpos

/-- The exit code that LRVM reports is the code of the process exactly when no signal of another
number has been recorded for it; a termination that was recorded makes an error of the code 0, and
a process that is being killed is not finished by the message. -/
theorem exitCode_reported_iff {st : Stats} (hlocked : p.locked = false)
    (hacc : acc.pool p.taskPid = some st) (hsigs : ∀ sig ∈ sigs, 1 ≤ atoi sig) :
    (p.receive cfg acc (stopsAndExit sigs code)).Reports (atoi code) ↔
      (lastSignal sigs p = 0 ∨ lastSignal sigs p = atoi code) ∧
      (atoi code = 0 → p.terminated = false) ∧
      (p.killing = true → atoi code ≠ 0 →
        sigs = [] ∧ (p.terminated = true ∨ p.finished = true)) := by
  rw [receive_stopsAndExit hlocked, Process.Reports, finalize_exitStatus, exitStatus_beforeExit]
  have hcode : (if lastSignal sigs p ≠ 0 then lastSignal sigs p else atoi code) = atoi code ↔
      lastSignal sigs p = 0 ∨ lastSignal sigs p = atoi code := by
    by_cases hzero : lastSignal sigs p = 0 <;> simp [hzero]
  rw [hcode, and_congr_right_iff]
  intro hsignal
  have hexit : (beforeExit sigs code p).exitStatus = atoi code := by
    rw [exitStatus_beforeExit]
    exact hcode.2 hsignal
  -- with code 0 there was no stop, because the number of a signal is not 0
  have hnone : atoi code = 0 → sigs = [] := by
    intro hzero
    by_contra hne
    have hpos := lastSignal_pos (p := p) hsigs hne
    omega
  rw [Process.runtimeError, finalize_exitStatus, hexit]
  cases hkilling : p.killing with
  | false =>
    obtain ⟨hfinished, hterminated⟩ :=
      @finalize_flags cfg acc (beforeExit sigs code p) st hkilling hacc
    rw [hfinished, hterminated]
    by_cases hzero : atoi code = 0
    · simp [hzero, hnone hzero, beforeExit, Process.terminated]
    · simp [hzero]
  | true =>
    have hbusy : (beforeExit sigs code p).finalize cfg acc = beforeExit sigs code p :=
      if_pos hkilling
    rw [hbusy]
    by_cases hzero : atoi code = 0
    · simp [hzero, hnone hzero, beforeExit, Process.terminated]
    · have hflags : test psContinued psTerminated = false ∧
          test psContinued psFinished = false := by
        decide
      by_cases hne : sigs = []
      · simp [hzero, hne, beforeExit, Process.terminated, Process.finished]
      · simp [hzero, hne, beforeExit, Process.terminated, Process.finished, hflags]

/-- A running process with a record of its usage. -/
def runningProcess : Process := (Process.spawnNewProcess 0 [] 0 0).execute .started ⟨1, 0⟩

theorem exitCode_reported_running :
    (runningProcess.receive sampleProfile (sampleAccounting 1 1)
      (stopsAndExit [] "3".toList)).Reports (atoi "3".toList) :=
  (@exitCode_reported_iff _ _ _ [] _ ⟨1, 0, 1, 0, 0⟩ rfl rfl (by simp)).2 (by decide)

/-- A process that was stopped by signal 19 and has ended with code 0 has the code 19. -/
theorem exitCode_of_stopped :
    ¬(runningProcess.receive sampleProfile (sampleAccounting 1 1)
      (stopsAndExit ["19".toList] "0".toList)).Reports (atoi "0".toList) := by
  rintro ⟨hstatus, -⟩
  exact absurd hstatus (by decide)

end WebTester.Librun
