import Mathlib.Logic.Function.Basic
import WebTester.Execution

/-!
# The cycle by tests

`testing_main_loop` executes the solution on one test after another and collects
points, error flags and the string of results. What it meets on a test (the copy of the
input file, the final records of the solution and of the checker, the output file) and
the answers of its activity checks are given from outside. Leaving the cycle through
`goto __done_` is an error of the `Except` monad.
-/
namespace WebTester.Informatics
open CString Librun

/-! ## Accumulators -/

/-- The flags `RE`, `ML`, `TL`, `WA` and `PE` of `testing_main_loop`. -/
inductive Kind
  | re
  | ml
  | tl
  | wa
  | pe
  deriving DecidableEq, Repr

/-- The text of an error in results. -/
def Kind.code : Kind → CStr
  | .re => "RE".toList
  | .ml => "ML".toList
  | .tl => "TL".toList
  | .wa => "WA".toList
  | .pe => "PE".toList

/-- The order in which the flags are reported. -/
def kinds : List Kind := [.re, .ml, .tl, .wa, .pe]

/-- `push_string`. -/
def pushString (item delimeter buf : CStr) : CStr :=
  (if buf ≠ [] then buf ++ delimeter else buf) ++ item

/-- The variables that outlive an iteration. Whether the sum of the points is still an `int` is not
asked here. -/
structure Loop where
  points : ℤ
  errors : CStr
  testsRes : CStr
  flag : Kind → Bool
  cr : Bool

namespace Loop

/-- The assignments of `LOOPCRASH`. -/
def crash (l : Loop) : Loop := { l with points := 0, errors := "CR".toList, cr := true }

/-- The assignments of `ERR`. -/
def note (k : Kind) (l : Loop) : Loop :=
  { l with
    flag := Function.update l.flag k true
    testsRes := pushString k.code " ".toList l.testsRes }

/-- `ERR`: under ACM rules the next tests are not run. -/
def err (acm : Bool) (k : Kind) (l : Loop) : Except Loop Loop :=
  if acm then throw (l.note k) else pure (l.note k)

/-- `LOOP_CHECK_ACTIVE`. -/
def checkActive (active : Bool) (l : Loop) : Except Loop Loop :=
  if active then pure l else throw l

/-- The branch of a checker that accepts. -/
def accept (points : ℤ) (l : Loop) : Loop :=
  { l with
    points := l.points + points
    testsRes := pushString "OK".toList " ".toList l.testsRes }

end Loop

/-! ## One test -/

/-- The points of a test and what the cycle meets on it. -/
structure Test where
  points : ℤ
  copied : Bool
  solution : Process
  output : Bool
  checker : Process
  deriving DecidableEq

/-- Answers of the three activity checks of an iteration: at its start, after the
solution and after the checker. -/
structure Checks where
  started : Bool
  executed : Bool
  checked : Bool
  deriving DecidableEq

namespace Loop

variable (acm : Bool) (t : Test)

def copyTest (l : Loop) : Except Loop Loop := if t.copied then pure l else throw l.crash

/-- The overview of the solution's status. The second component tells whether the
checker is to be run. -/
def overviewSolution (l : Loop) : Except Loop (Loop × Bool) :=
  match t.solution.solutionBranch with
  | .crash => throw l.crash
  | .ml => (·, false) <$> l.err acm .ml
  | .tl => (·, false) <$> l.err acm .tl
  | .re => (·, false) <$> l.err acm .re
  | .answer => if t.output then pure (l, true) else (·, false) <$> l.err acm .pe

/-- The overview of the checker; `_OK`, `_WA` and `_PE` are 0, 1 and 2. -/
def overviewChecker (l : Loop) : Except Loop Loop :=
  if t.checker.execError then throw l.crash
  else if t.checker.terminated then throw l.crash
  else if t.checker.memorylimit || t.checker.timelimit then throw l.crash
  else if t.checker.exitStatus = 0 then pure (l.accept t.points)
  else if t.checker.exitStatus = 1 then l.err acm .wa
  else if t.checker.exitStatus = 2 then l.err acm .pe
  else throw l.crash

/-- The body of the cycle. -/
def iteration (c : Checks) (l : Loop) : Except Loop Loop := do
  let l ← l.checkActive c.started
  let l ← l.copyTest t
  let l ← l.checkActive c.executed
  let (l, answered) ← l.overviewSolution acm t
  if answered then
    let l ← l.checkActive c.checked
    l.overviewChecker acm t
  else
    pure l

/-- The cycle by tests, up to the label `__done_`. -/
def cycle : List (Test × Checks) → Loop → Loop
  | [], l => l
  | (t, c) :: ts, l =>
    match l.iteration acm t c with
    | .ok l => cycle ts l
    | .error l => l

/-- The errors that are reported at the end. -/
def pushErrors (l : Loop) : CStr :=
  kinds.foldl (fun errs k => if l.flag k then pushString k.code " ".toList errs else errs) l.errors

/-- From the label `__done_` on; `active` is the answer of `LOOP_DONE_CHECK_ACTIVE`. -/
def done (bonus : ℤ) (active : Bool) (l : Loop) : Loop :=
  if active = false ∨ l.cr then l
  else if l.pushErrors = [] then
    { l with points := l.points + bonus, errors := "OK".toList }
  else { l with errors := l.pushErrors }

/-- The accumulators when the cycle is entered. -/
def initial : Loop where
  points := 0
  errors := []
  testsRes := []
  flag _ := false
  cr := false

end Loop

/-- Every check of an iteration finds testing active. -/
def Checks.active : Checks := ⟨true, true, true⟩

/-- A test on which the solution finishes and the checker answers with a code. -/
def sampleTest (points code : ℤ) : Test :=
  let p := { Process.spawnNewProcess 1 [] 0 0 with state := psFinished }
  ⟨points, true, p, true, { p with exitCode := code }⟩

end WebTester.Informatics
