import WebTester.Execution

/-!
# Clean exits

A test goes on to the checker when the state word shows none of the errors. That is
not the same as a clean exit: the word of a process whose virtual machine has gone
away still says that it runs.
-/
namespace WebTester.Librun
open CString Bits Transition Process

/-- A process that has come to its end carries one of these flags. -/
def psEnds : State := psFinished ||| psTerminated ||| psExecerror ||| psMemorylimit ||| psTimelimit

def Event.isLeave : Event → Bool
  | .leave => true
  | _ => false

def Event.isFinalize : Event → Bool
  | .message .finalize _ => true
  | _ => false

/-- The thread ends when the last thing heard of the process is its end, or with an error
description noted, and LRVM finalizes only what it has reported an exit code for. -/
def Concluded (x : Execution) (e : Event) : Prop :=
  (e.isLeave → x.heard = some .ended ∨ x.proc.errDesc ≠ []) ∧
    (e.isFinalize → x.reported ≠ none)

instance (x : Execution) (e : Event) : Decidable (Concluded x e) :=
  inferInstanceAs (Decidable ((_ → _) ∧ (_ → _)))

/-- The end of a process shows in its state word, `exitCode` is the reported code, and a
finalized process has one. -/
structure Marked (x : Execution) : Prop where
  ended : x.heard = some .ended → test x.proc.state psEnds = true
  code : x.proc.exitCode = x.reported.getD 0
  reported : x.proc.finished = true → x.reported ≠ none

lemma test_psEnds (p : Process) : test p.state psEnds =
    (p.finished || p.terminated || p.execError || p.memorylimit || p.timelimit) := by
  simp only [psEnds, test_or_right, finished, terminated, execError, memorylimit, timelimit]

/-- A new state word that is not final leaves the report as it is. -/
lemma Marked.of_state {x : Execution} (hx : Marked x) {q : Process} {n : Option Note}
    (hended : n = some .ended → test q.state psEnds = true) (hcode : q.exitCode = x.proc.exitCode)
    (hfin : q.finished = true → x.proc.finished = true) :
    Marked { x with proc := q, heard := n } where
  ended := hended
  code := hcode.trans hx.code
  reported h := hx.reported (hfin h)

/-- What the overview notes, it has entered in the state word. -/
lemma Marked.overview {cfg : Profile} {acc : Accounting} {now : TimeVal} {x : Execution}
    (hx : Marked x) : Marked { x with
      proc := x.proc.overview cfg acc now
      heard := if x.proc.overviewKills cfg acc now then some .ended else x.heard } := by
  have hcode : (x.proc.overview cfg acc now).exitCode = x.proc.exitCode := overview_exitCode _
  cases overview_overviewed cfg acc now x.proc with
  | same hs hd =>
    refine hx.of_state (fun hn => ?_) hcode (by simp [finished, hs])
    cases hk : x.proc.overviewKills cfg acc now with
    | true =>
      rw [test_psEnds]
      rcases overviewKills_ends hk with h | h | h <;> simp [h]
    | false => exact hs ▸ hx.ended (by simpa [hk] using hn)
  | failed he hf hd => exact hx.of_state (fun _ => by simp [test_psEnds, he]) hcode (by simp [hf])
  | killed _ hl hf hd he =>
    refine hx.of_state (fun _ => ?_) hcode (by simp [hf])
    rw [test_psEnds]
    rcases hl with h | h <;> simp [h]

/-- Messages that change neither the state word nor the exit code. -/
lemma Marked.of_eq {x : Execution} (hx : Marked x) {q : Process}
    (hs : q.state = x.proc.state) (hcode : q.exitCode = x.proc.exitCode) :
    Marked { x with proc := q } :=
  hx.of_state (fun h => hs ▸ hx.ended h) hcode (by simp [finished, hs])

/-- Messages that write one of the flags of an end. -/
lemma Marked.of_flag {x : Execution} (hx : Marked x) {q : Process} (f : State)
    (hs : q.state = f) (hf : test f psEnds = true ∧ test f psFinished = false)
    (hcode : q.exitCode = x.proc.exitCode) (n : Option Note) :
    Marked { x with proc := q, heard := n } :=
  hx.of_state (fun _ => hs ▸ hf.1) hcode (by simp [finished, hs, hf.2])

/-- Signals that show a process that goes on. -/
lemma Marked.of_alive {x : Execution} (hx : Marked x) {q : Process} (f : State)
    (hs : q.state = f) (hf : test f psFinished = false) (hcode : q.exitCode = x.proc.exitCode) :
    Marked { x with proc := q, heard := some .alive } :=
  hx.of_state (fun h => by cases h) hcode (by simp [finished, hs, hf])

lemma Marked.finalize {cfg : Profile} {acc : Accounting} {x : Execution} (hx : Marked x)
    (hr : x.reported ≠ none) : Marked { x with
      proc := x.proc.finalize cfg acc
      heard := (Message.finalize.note x.proc).or x.heard } := by
  cases finalize_finalized cfg acc x.proc with
  | busy hk h =>
    have hnote : Message.finalize.note x.proc = none := if_pos hk
    rw [h, hnote]
    exact hx
  | failed hs hd he hacc => exact hx.of_flag _ hs (by decide) he _
  | done hacc hs hd he =>
    refine ⟨fun _ => ?_, he.trans hx.code, fun _ => hr⟩
    have hfin : test psFinished psEnds = true := by decide
    simp [hs, hfin]

lemma Marked.message {cfg : Profile} {acc : Accounting} {x : Execution} (hx : Marked x)
    (m : Message) (hm : m = .finalize → x.reported ≠ none) :
    Marked { x with
      proc := m.apply cfg acc x.proc
      reported := m.reports.or x.reported
      heard := (m.note x.proc).or x.heard } := by
  cases m with
  | taskpid arg => exact hx.of_eq rfl rfl
  | finalize => exact hx.finalize (hm rfl)
  | exitCode arg => exact ⟨hx.ended, rfl, fun _ => Option.some_ne_none _⟩
  | termsig arg =>
    simp only [Message.apply, Message.note, setTerminated]
    split
    · exact hx.of_eq rfl rfl
    · refine hx.of_flag psTerminated ?_ (by decide) ?_ _
      all_goals rfl
  | stopsig arg =>
    simp only [Message.apply, Message.note, setStopped]
    split
    · exact hx.of_eq rfl rfl
    · exact hx.of_alive psStopped rfl (by decide) rfl
  | cont =>
    simp only [Message.apply, Message.note, setContinued]
    split
    · exact hx.of_eq rfl rfl
    · exact hx.of_alive psContinued rfl (by decide) rfl
  | base =>
    simp only [Message.apply, setBase]
    split <;> exact hx.of_eq rfl rfl
  | execError desc =>
    cases desc with
    | none =>
      refine hx.of_flag psExecerror ?_ (by decide) ?_ _
      all_goals rfl
    | some desc =>
      refine hx.of_flag psExecerror ?_ (by decide) ?_ _
      all_goals rfl

/-- A finished process whose branch is the answer has exited with a reported zero. -/
def CleanExit (x : Execution) : Prop := x.proc.finished = true ∧ x.reported = some 0

/-- What is known of a run so far; `clean` is about its end. -/
structure Judged (x : Execution) : Prop extends Marked x where
  clean : x.ended = true → x.proc.solutionBranch = .answer → CleanExit x

/-- A process that has come to its end and goes on to its answer was finalized. -/
lemma Marked.cleanExit {x : Execution} (hx : Marked x) (hb : x.proc.solutionBranch = .answer)
    (hended : x.heard = some .ended) : CleanExit x := by
  obtain ⟨he, hm, ht, hs, hcode⟩ := solutionBranch_eq_answer hb
  have hfin : x.proc.finished = true := by
    have hends := hx.ended hended
    rw [test_psEnds] at hends
    simpa only [he, hm, ht, hs, Bool.or_false] using hends
  refine ⟨hfin, ?_⟩
  have hzero : x.reported.getD 0 = 0 := hx.code ▸ exitCode_of_exitStatus (hcode hfin)
  obtain ⟨c, hc⟩ := Option.ne_none_iff_exists'.1 (hx.reported hfin)
  rw [hc] at hzero ⊢
  exact congrArg some hzero

lemma Marked.leave {x : Execution} (hx : Marked x) :
    Marked { x with proc := x.proc.leaveThread, ended := true } := by
  refine ⟨fun hended => ?_, hx.code, fun h => hx.reported ?_⟩
  · have := hx.ended hended
    simp only [leaveThread]
    split
    · simp [this]
    · exact this
  · have hno : test psExecerror psFinished = false := by decide
    simp only [leaveThread, finished] at h
    split at h
    · simpa [hno, finished] using h
    · exact h

/-- A process that ends with a description never goes on to its answer. -/
lemma errDesc_of_answer {p : Process} (h : p.leaveThread.solutionBranch = .answer) :
    p.errDesc = [] := by
  by_contra hd
  have hmark : test psExecerror psExecerror = true := by decide
  have he : p.leaveThread.execError = true := by simp [execError, leaveThread, hd, hmark]
  rw [(solutionBranch_eq_answer h).1] at he
  cases he

lemma Judged.step {cfg : Profile} {x y : Execution} {e : Event} (hx : Judged x)
    (h : Guarded Concluded (Step cfg) x e y) : Judged y := by
  obtain ⟨hg, hstep⟩ := h
  simp only [StepOf, next] at hstep
  split at hstep
  · cases hstep
  · rename_i hend
    cases e with
    | message m acc =>
      obtain rfl := Option.some.inj hstep
      have hm : m = .finalize → x.reported ≠ none := by
        rintro rfl
        exact hg.2 rfl
      exact ⟨hx.toMarked.message m hm, fun he => absurd he hend⟩
    | overview acc now =>
      obtain rfl := Option.some.inj hstep
      exact ⟨hx.toMarked.overview, fun he => absurd he hend⟩
    | lrvmPid pid =>
      obtain rfl := Option.some.inj hstep
      exact ⟨hx.toMarked.of_eq rfl rfl, fun he => absurd he hend⟩
    | disconnect =>
      obtain rfl := Option.some.inj hstep
      exact hx
    | closePipe =>
      obtain rfl := Option.some.inj hstep
      exact ⟨hx.toMarked.of_eq rfl rfl, fun he => absurd he hend⟩
    | leave =>
      obtain rfl := Option.some.inj hstep
      refine ⟨hx.toMarked.leave, fun _ hb => hx.toMarked.leave.cleanExit hb ?_⟩
      exact (hg.1 rfl).resolve_right fun hd => hd (errDesc_of_answer hb)

lemma judged_started (unique : ℤ) (key : CStr) (rssLimit timeLimit : BitVec 64) (now : TimeVal) :
    Judged (started unique key rssLimit timeLimit now) where
  ended h := by cases h
  code := rfl
  reported h := by
    have hno : test psRunning psFinished = false := by decide
    exact absurd (hno.symm.trans h) (by simp)
  clean h := by cases h

/-- A process with a limit of one second, started at second ten. -/
def sampleStart : Execution := started 7 "key".toList 1024 1000000 ⟨10, 0⟩

/-- The process exits with code zero and is finalized. -/
def exitRun : List Event :=
  [.lrvmPid 100, .message (.taskpid "101".toList) (sampleAccounting 10 20),
    .message (.exitCode "0".toList) (sampleAccounting 10 20),
    .message .finalize (sampleAccounting 10 20), .closePipe, .leave]

lemma exitRun_isSome :
    (exitRun.foldlM (restrict Concluded (next sampleProfile)) sampleStart).isSome = true := by
  decide +kernel

/-- The execution after `exitRun`. -/
def exitState : Execution :=
  (exitRun.foldlM (restrict Concluded (next sampleProfile)) sampleStart).get exitRun_isSome

/-- LRVM is lost after its start; its process number is all that was received. -/
def lostRun : List Event := [.lrvmPid 100, .disconnect, .closePipe, .leave]

lemma lostRun_isSome : (lostRun.foldlM (next sampleProfile) sampleStart).isSome = true := by
  decide +kernel

end WebTester.Librun
