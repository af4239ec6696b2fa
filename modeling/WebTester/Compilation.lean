import WebTester.TestingLoop

/-!
# Compiling a solution

`run_compiler`, `post_compiling_check` and `compile_solution` return a `BOOL`, which is an `int`:
true, false, or -1 for a failure that is not the contestant's. `testing_thread` reports a crash
(CR) for a negative result and a compilation error (CE) for zero. The final record of the compiler
process, what it has written and whether the executable file exists are given from outside.
-/
namespace WebTester.Informatics
open CString Librun Bits

/-- The parameters for the web interface that are set here. -/
structure Params where
  compilerCommand : Option CStr
  compilerMessages : Option CStr
  report : Option CStr
  deriving DecidableEq, Repr

/-- `REPORT`. -/
def Params.addReport (params : Params) (text : CStr) : Params :=
  { params with report := some (params.report.getD [] ++ text) }

/-- `MAX_COMPILER_MSG_LEN`. -/
def maxCompilerMsgLen : ℕ := 4096

def cutMessages (pchar : CStr) : CStr :=
  if maxCompilerMsgLen < pchar.length then pchar.take (maxCompilerMsgLen - 4) ++ "...".toList
  else pchar

/-- `run_compiler`, when the process has ended. -/
def runCompiler (proc : Process) (pipeBuf : Option CStr) (params : Params) : ℤ × Params :=
  if proc.execError then
    (-1, params.addReport ("Error executing compiler: ".toList ++ proc.errDesc ++ ".".toList))
  else
    let params := match pipeBuf with
      | none => params
      | some pchar => { params with compilerMessages := some (cutMessages pchar) }
    (if proc.runtimeError then 0 else 1, params)

/-- `post_compiling_check`. -/
def postCompilingCheck (fexists : Bool) : ℤ := if fexists then 1 else 0

/-- `compile_solution` with the command that `build_compiler_command` gives. -/
def compileSolution (cmd : CStr) (proc : Process) (pipeBuf : Option CStr) (fexists : Bool)
    (params : Params) : ℤ × Params :=
  let params := { params with compilerCommand := some cmd }
  if cmd = [] then (-1, params.addReport "Compiler command is undefined.".toList)
  else
    let r := runCompiler proc pipeBuf params
    if r.1 = 0 then (0, r.2) else (postCompilingCheck fexists, r.2)

/-- The errors that `testing_thread` reports after step 1, unless it goes on with the tests. -/
def compilingErrors (rc : ℤ) : Option CStr :=
  if rc < 0 then some "CR".toList else if rc = 0 then some "CE".toList else none

/-! ## The verdict -/

/-- The compiler has finished by itself with exit code 0. -/
def Succeeded (proc : Process) : Prop :=
  proc.finished = true ∧ proc.exitStatus = 0 ∧ proc.terminated = false ∧
    test proc.state psKilled = false ∧ proc.memorylimit = false ∧ proc.timelimit = false

instance (proc : Process) : Decidable (Succeeded proc) := inferInstanceAs (Decidable (_ ∧ _))

/-- The result that is meant: negative for failures of the server, true for a compiled solution,
false for all others. -/
def Attributed (cmd : CStr) (proc : Process) (fexists : Bool) (rc : ℤ) : Prop :=
  if cmd = [] ∨ proc.execError then rc < 0 ∧ compilingErrors rc = some "CR".toList
  else if Succeeded proc ∧ fexists then rc = 1 ∧ compilingErrors rc = none
  else rc = 0 ∧ compilingErrors rc = some "CE".toList

variable {cmd : CStr} {proc : Process} {pipeBuf : Option CStr} {fexists : Bool} {params : Params}

lemma compileSolution_undefined : (compileSolution [] proc pipeBuf fexists params).1 = -1 := rfl

/-- The result of an executed compiler: -1 counts as true. -/
lemma compileSolution_defined (hcmd : cmd ≠ []) :
    (compileSolution cmd proc pipeBuf fexists params).1 =
      if fexists = true ∧ (proc.execError = true ∨ proc.runtimeError = false) then 1 else 0 := by
  simp only [compileSolution, if_neg hcmd, runCompiler, postCompilingCheck]
  cases proc.execError <;> cases proc.runtimeError <;> cases fexists <;> rfl

/-- Without a runtime error, a finished process has exit code 0. -/
lemma succeeded_iff (hruntime : proc.runtimeError = false) :
    Succeeded proc ↔ proc.finished = true ∧ test proc.state psKilled = false ∧
      proc.memorylimit = false ∧ proc.timelimit = false := by
  simp only [Process.runtimeError, Bool.or_eq_false_iff, Bool.and_eq_false_iff] at hruntime
  obtain ⟨hterminated, hexit⟩ := hruntime
  unfold Succeeded
  constructor
  · rintro ⟨hfinished, -, -, hkilled, hmemory, htime⟩
    exact ⟨hfinished, hkilled, hmemory, htime⟩
  · rintro ⟨hfinished, hkilled, hmemory, htime⟩
    have hstatus : proc.exitStatus = 0 := by simpa [hfinished] using hexit
    exact ⟨hfinished, hstatus, hterminated, hkilled, hmemory, htime⟩

lemma not_succeeded_of_runtimeError (hruntime : proc.runtimeError = true) : ¬Succeeded proc := by
  rintro ⟨-, hexit, hterminated, -⟩
  simp [Process.runtimeError, hterminated, hexit] at hruntime

/-- The verdict is right exactly when the command is undefined, or the compiler was executed and,
where it has left an executable file and no runtime error, it has finished without having been
killed and within its limits. -/
theorem compileSolution_attributed_iff (cmd : CStr) (proc : Process) (pipeBuf : Option CStr)
    (fexists : Bool) (params : Params) :
    Attributed cmd proc fexists (compileSolution cmd proc pipeBuf fexists params).1 ↔
      cmd = [] ∨ proc.execError = false ∧
        (fexists = true → proc.runtimeError = false → proc.finished = true ∧
          test proc.state psKilled = false ∧ proc.memorylimit = false ∧
          proc.timelimit = false) := by
  by_cases hcmd : cmd = []
  · subst hcmd
    simp only [Attributed, true_or, if_true, compileSolution_undefined, compilingErrors]
    simp
  rw [compileSolution_defined hcmd]
  cases herror : proc.execError with
  | true =>
    simp only [Attributed, hcmd, herror, or_true, if_true, true_or, and_true, false_or]
    split_ifs <;> simp
  | false =>
    cases hruntime : proc.runtimeError with
    | true =>
      have hnot := not_succeeded_of_runtimeError hruntime
      simp [Attributed, hcmd, herror, hnot, compilingErrors]
    | false =>
      rw [← succeeded_iff hruntime]
      by_cases hsucceeded : Succeeded proc <;> cases fexists <;>
        simp [Attributed, hcmd, herror, hsucceeded, compilingErrors]

/-- A compiler that could not be executed, and one that was killed at its time limit. -/
def notExecuted : Process :=
  (Process.spawnNewProcess 0 [] 0 0).setExecError "Unable find file to execute".toList

def killedCompiler : Process :=
  { Process.spawnNewProcess 0 [] 0 0 with state := psKilled ||| psTimelimit }

/-- The first is taken for a compilation error, the second for a success. -/
theorem compileSolution_misattributed :
    ¬Attributed "cc".toList notExecuted false
        (compileSolution "cc".toList notExecuted none false ⟨none, none, none⟩).1 ∧
      ¬Attributed "cc".toList killedCompiler true
        (compileSolution "cc".toList killedCompiler none true ⟨none, none, none⟩).1 := by
  constructor
  · rintro ⟨hneg, -⟩
    exact absurd hneg (by decide)
  · rintro ⟨hzero, -⟩
    exact absurd hzero (by decide)

end WebTester.Informatics
