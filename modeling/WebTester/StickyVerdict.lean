import WebTester.Verdict

/-!
# Verdicts that stay

A state word that shows a limit or an error need not keep it: `run_kill_process`
ends by unlocking the process and clears both process numbers, so later messages
overwrite the word and later overviews take the killed machine for a silent one.
-/
namespace WebTester.Librun
open CString Bits Transition Process

def Message.isSignal : Message → Bool
  | .termsig _ => true
  | .stopsig _ => true
  | .cont => true
  | _ => false

def Message.isExecError : Message → Bool
  | .execError _ => true
  | _ => false

/-- The record of the finished process still exceeds the limit. -/
def stillOver (cfg : Profile) (acc : Accounting) (f : State) (p : Process) : Bool :=
  match acc.pool p.taskPid with
  | none => false
  | some st => test ((p.fillFromStats cfg st).checkLimits cfg 0) f

/-- Steps that leave a recorded limit alone: signals are refused, no error is
reported, a finalization measures the excess again, and no overview finds the
answer of the killed LRVM overdue. -/
def KeepsLimit (cfg : Profile) (f : State) (x : Execution) : Event → Prop
  | .message m acc => (m.isSignal → x.proc.locked) ∧ m.isExecError = false ∧
      (m = .finalize → stillOver cfg acc f x.proc)
  | .overview _ now => x.proc.locked ∨ x.proc.answerTimedOut cfg now = false
  | _ => True

/-- Steps that leave a reported error alone: without a description it is lost to an
accepted signal and to a finalization that finds its record. -/
def KeepsError (x : Execution) : Event → Prop
  | .message m acc => x.proc.errDesc ≠ [] ∨ ((m.isSignal → x.proc.locked) ∧
      (m = .finalize → acc.pool x.proc.taskPid = none))
  | _ => True

/-- A limit was recorded when the process was killed. -/
structure Limited (f : State) (p : Process) : Prop where
  flag : test p.state f = true
  idle : p.executing = false

/-- Nothing that would count as an error of execution. -/
structure Faultless (p : Process) : Prop where
  state : p.execError = false
  desc : p.errDesc = []

lemma overview_of_idle {cfg : Profile} {acc : Accounting} {now : TimeVal} {p : Process}
    (hx : p.executing = false) (ht : p.locked = true ∨ p.answerTimedOut cfg now = false) :
    p.overview cfg acc now = p := by
  unfold overview
  split
  · rfl
  · rename_i hl
    have hn : p.answerTimedOut cfg now = false := ht.resolve_left hl
    have hsame : p.checkLrvmAnsTimeout cfg now = p := by simp [checkLrvmAnsTimeout, hn]
    simp [hsame, hx]

/-- A signal is ignored while the process is locked. -/
lemma apply_of_locked {cfg : Profile} {acc : Accounting} {p : Process} {m : Message}
    (hm : m.isSignal = true) (hl : p.locked = true) : m.apply cfg acc p = p := by
  cases m <;> simp_all [Message.isSignal, Message.apply, setTerminated, setStopped, setContinued]

/-- A signal never touches the description. -/
lemma apply_errDesc_of_signal (cfg : Profile) (acc : Accounting) (p : Process) {m : Message}
    (hm : m.isSignal = true) : (m.apply cfg acc p).errDesc = p.errDesc := by
  cases m with
  | termsig arg =>
    simp only [Message.apply, setTerminated]
    split <;> rfl
  | stopsig arg =>
    simp only [Message.apply, setStopped]
    split <;> rfl
  | cont =>
    simp only [Message.apply, setContinued]
    split <;> rfl
  | _ => cases hm

/-- Other messages do not write the state word. -/
lemma apply_of_plain (cfg : Profile) (acc : Accounting) (p : Process) {m : Message}
    (hs : m.isSignal = false) (he : m.isExecError = false) (hf : m ≠ .finalize) :
    (m.apply cfg acc p).state = p.state ∧ (m.apply cfg acc p).errDesc = p.errDesc := by
  cases m with
  | base =>
    simp only [Message.apply, setBase]
    split <;> exact ⟨rfl, rfl⟩
  | _ => simp_all [Message.isSignal, Message.isExecError, Message.apply]

lemma executing_eq (p : Process) :
    p.executing = test p.state (psRunning ||| psStopped ||| psContinued) := by
  simp only [executing, test_or_right]

/-- `RUN_PROC_GETSIGNAL` of a process that does not execute keeps no sign of it. -/
lemma getSignal_idle {p : Process} (h : p.executing = false) :
    test p.getSignal (psRunning ||| psStopped ||| psContinued) = false := by
  simp only [executing, Bool.or_eq_false_iff] at h
  have hm : psTerminated &&& (psRunning ||| psStopped ||| psContinued) = 0#64 ∧
      psKilled &&& (psRunning ||| psStopped ||| psContinued) = 0#64 ∧
      psStopped &&& (psRunning ||| psStopped ||| psContinued) = psStopped ∧
      psContinued &&& (psRunning ||| psStopped ||| psContinued) = psContinued := by decide
  simp only [getSignal, test_or, test_and, hm, h]
  simp [test]

lemma Limited.finalize {cfg : Profile} {acc : Accounting} {f : State} {p : Process}
    (hp : Limited f p) (ho : stillOver cfg acc f p = true) :
    Limited f (p.finalize cfg acc) ∧ (Faultless p → Faultless (p.finalize cfg acc)) := by
  cases finalize_finalized cfg acc p with
  | busy hk h =>
    rw [h]
    exact ⟨hp, id⟩
  | failed hs hd he hacc => simp [stillOver, hacc] at ho
  | @done st hacc hs hd he =>
    simp only [stillOver, hacc, test_checkLimits] at ho
    have hidle := getSignal_idle hp.idle
    have hno : test psMemorylimit (psRunning ||| psStopped ||| psContinued) = false ∧
        test psTimelimit (psRunning ||| psStopped ||| psContinued) = false ∧
        test psFinished (psRunning ||| psStopped ||| psContinued) = false ∧
        test psMemorylimit psExecerror = false ∧ test psTimelimit psExecerror = false ∧
        test psFinished psExecerror = false := by decide
    refine ⟨⟨?_, ?_⟩, fun hclean => ⟨?_, hd.trans hclean.desc⟩⟩
    · rw [hs, test_or, test_checkLimits]
      simp [Bool.or_assoc] at ho ⊢
      tauto
    · rw [executing_eq, hs, test_or, test_checkLimits]
      simp [hidle, hno]
    · unfold execError
      rw [hs, test_or, test_checkLimits, test_getSignal_execerror]
      simp [hno]

lemma Limited.of_eq {f : State} {p q : Process} (hp : Limited f p) (hs : q.state = p.state)
    (hd : q.errDesc = p.errDesc) : Limited f q ∧ (Faultless p → Faultless q) := by
  refine ⟨⟨hs ▸ hp.flag, ?_⟩, fun hc => ⟨?_, hd.trans hc.desc⟩⟩
  · have := hp.idle
    simpa only [executing, hs] using this
  · have := hc.state
    simpa only [execError, hs] using this

lemma Limited.leave {f : State} {p : Process} (hp : Limited f p) :
    Limited f p.leaveThread ∧ (Faultless p → Faultless p.leaveThread) := by
  by_cases hd : p.errDesc = []
  · exact hp.of_eq (by simp [leaveThread, hd]) rfl
  · have hs : p.leaveThread.state = p.state ||| psExecerror := by simp [leaveThread, hd]
    have hno : test psExecerror (psRunning ||| psStopped ||| psContinued) = false := by decide
    have hidle := hp.idle
    refine ⟨⟨?_, ?_⟩, fun hc => absurd hc.desc hd⟩
    · rw [hs, test_or, hp.flag, Bool.true_or]
    · rw [executing_eq] at hidle ⊢
      rw [hs, test_or, hidle, hno, Bool.or_false]

lemma Limited.step {cfg : Profile} {f : State} {x y : Execution} {e : Event}
    (hx : Limited f x.proc) (h : Guarded (KeepsLimit cfg f) (Step cfg) x e y) :
    Limited f y.proc ∧ (Faultless x.proc → Faultless y.proc) := by
  obtain ⟨hg, hstep⟩ := h
  simp only [StepOf, next] at hstep
  split at hstep
  · cases hstep
  · cases e with
    | message m acc =>
      obtain rfl := Option.some.inj hstep
      obtain ⟨hsig, herr, hfin⟩ := hg
      by_cases hs : m.isSignal = true
      · dsimp only
        rw [apply_of_locked hs (hsig hs)]
        exact ⟨hx, id⟩
      · by_cases hf : m = .finalize
        · subst hf
          exact hx.finalize (hfin rfl)
        · obtain ⟨hst, hd⟩ := apply_of_plain cfg acc x.proc (by simpa using hs) herr hf
          exact hx.of_eq hst hd
    | overview acc now =>
      obtain rfl := Option.some.inj hstep
      dsimp only
      rw [overview_of_idle hx.idle hg]
      exact ⟨hx, id⟩
    | lrvmPid pid =>
      obtain rfl := Option.some.inj hstep
      exact hx.of_eq rfl rfl
    | disconnect =>
      obtain rfl := Option.some.inj hstep
      exact ⟨hx, id⟩
    | closePipe =>
      obtain rfl := Option.some.inj hstep
      exact hx.of_eq rfl rfl
    | leave =>
      obtain rfl := Option.some.inj hstep
      exact hx.leave

/-- The state just after `run_kill_process` with the flags of `CHECK_LIMITS`. -/
lemma limited_kill {cfg : Profile} {f : State} {p q : Process} (hk : p.killing = false)
    (hf : test (q.checkLimits cfg 0) f = true) : Limited f (p.kill (q.checkLimits cfg 0)) ∧
      (Faultless p → Faultless (p.kill (q.checkLimits cfg 0))) := by
  have hno : test psMemorylimit (psRunning ||| psStopped ||| psContinued) = false ∧
      test psTimelimit (psRunning ||| psStopped ||| psContinued) = false ∧
      test psKilled (psRunning ||| psStopped ||| psContinued) = false ∧
      test psExecerror (psRunning ||| psStopped ||| psContinued) = false ∧
      test psMemorylimit psExecerror = false ∧ test psTimelimit psExecerror = false ∧
      test psKilled psExecerror = false := by decide
  rcases p.kill_cases (q.checkLimits cfg 0) with ⟨hk', -⟩ | hs
  · simp [hk] at hk'
  · refine ⟨⟨?_, ?_⟩, fun hc => ⟨?_, by simpa using hc.desc⟩⟩
    · rw [hs]
      split <;> simp only [test_or, hf, Bool.or_true, Bool.true_or]
    · rw [executing_eq, hs]
      split <;> simp [test_checkLimits, hno]
    · unfold execError
      rw [hs, if_neg (by simp [hc.state])]
      simp [test_checkLimits, hno]

/-- An error was reported: by the flag, or at least by its description. -/
def Faulty (x : Execution) : Prop :=
  x.proc.execError = true ∨ x.proc.errDesc ≠ [] ∧ x.ended = false

lemma Faulty.message {cfg : Profile} {acc : Accounting} {x : Execution} (hx : Faulty x)
    (m : Message) (hend : x.ended = false) (hg : KeepsError x (.message m acc)) :
    Faulty { x with proc := m.apply cfg acc x.proc, reported := m.reports.or x.reported } := by
  have hmark : test psExecerror psExecerror = true := by decide
  by_cases he : m.isExecError = true
  · left
    cases m with
    | execError desc => cases desc <;> exact hmark
    | _ => cases he
  · by_cases hs : m.isSignal = true
    · rcases hg with hd | ⟨hl, -⟩
      · right
        exact ⟨by rwa [apply_errDesc_of_signal cfg acc x.proc hs], hend⟩
      · rw [apply_of_locked hs (hl hs)]
        exact hx
    · by_cases hf : m = .finalize
      · subst hf
        change Faulty { x with proc := x.proc.finalize cfg acc, reported := x.reported }
        cases finalize_finalized cfg acc x.proc with
        | busy hk h =>
          rw [h]
          exact hx
        | failed hst hd hc hacc => exact .inl (by simp only [execError, hst, hmark])
        | done hacc hst hd hc =>
          rcases hg with hne | ⟨-, hnone⟩
          · exact .inr ⟨by rwa [hd], hend⟩
          · rw [hnone rfl] at hacc
            cases hacc
      · obtain ⟨hst, hd⟩ := apply_of_plain cfg acc x.proc (by simpa using hs) (by simpa using he) hf
        exact hx.imp (by simp [execError, hst]) (by simp [hd])

lemma Faulty.step {cfg : Profile} {x y : Execution} {e : Event} (hx : Faulty x)
    (h : Guarded KeepsError (Step cfg) x e y) : Faulty y := by
  have hmark : test psExecerror psExecerror = true := by decide
  obtain ⟨hg, hstep⟩ := h
  simp only [StepOf, next] at hstep
  split at hstep
  · cases hstep
  · rename_i hend
    cases e with
    | message m acc =>
      obtain rfl := Option.some.inj hstep
      exact hx.message m (by simpa using hend) hg
    | overview acc now =>
      obtain rfl := Option.some.inj hstep
      cases overview_overviewed cfg acc now x.proc with
      | same hs hd => exact hx.imp (by simp [execError, hs]) (by simp [hd])
      | failed he hf hd => exact .inl he
      | killed hl hf hd hdesc he => exact hx.imp he (by simp [hdesc])
    | lrvmPid pid =>
      obtain rfl := Option.some.inj hstep
      exact hx
    | disconnect =>
      obtain rfl := Option.some.inj hstep
      exact hx
    | closePipe =>
      obtain rfl := Option.some.inj hstep
      exact hx
    | leave =>
      obtain rfl := Option.some.inj hstep
      left
      by_cases hd : x.proc.errDesc = []
      · have he : x.proc.execError = true := hx.resolve_right fun h => h.1 hd
        simpa [execError, leaveThread, hd] using he
      · simp [execError, leaveThread, hd, hmark]

/-- A limit recorded by a kill, and an error reported by LRVM, are still there when
the thread ends, in every execution whose later steps leave them alone; and such a
limit does not turn into an error. -/
theorem verdict_kept (cfg : Profile) (p : Process) (r : Option ℤ) (heard : Option Note) :
    (∀ (q : Process) (f : State) (es : List Event) (x : Execution),
      f = psMemorylimit ∨ f = psTimelimit → p.killing = false →
      test (q.checkLimits cfg 0) f = true →
      Run (Guarded (KeepsLimit cfg f) (Step cfg))
        ⟨p.kill (q.checkLimits cfg 0), r, heard, false⟩ es x →
      test x.proc.state f = true ∧
        (p.execError = false → p.errDesc = [] → x.proc.execError = false)) ∧
    (∀ (desc : Option CStr) (acc : Accounting) (es : List Event) (x : Execution),
      Run (Guarded KeepsError (Step cfg))
        ⟨(Message.execError desc).apply cfg acc p, r, heard, false⟩ es x →
      x.ended = true → x.proc.execError = true) := by
  constructor
  · intro q f es x _ hk hf hr
    obtain ⟨hlim, hclean⟩ := limited_kill hk hf
    have hinv : Limited f x.proc ∧ (Faultless p → Faultless x.proc) :=
      hr.invariant (I := fun y => Limited f y.proc ∧ (Faultless p → Faultless y.proc))
        (fun y e z hy h => ⟨(hy.1.step h).1, fun hp => (hy.1.step h).2 (hy.2 hp)⟩) ⟨hlim, hclean⟩
    exact ⟨hinv.1.flag, fun he hd => (hinv.2 ⟨he, hd⟩).state⟩
  · intro desc acc es x hr hend
    have hstart : Faulty ⟨(Message.execError desc).apply cfg acc p, r, heard, false⟩ := by
      left
      change test ((Message.execError desc).apply cfg acc p).state psExecerror = true
      cases desc <;> exact (by decide : test psExecerror psExecerror = true)
    have hinv : Faulty x := hr.invariant (fun _ _ _ hy h => Faulty.step hy h) hstart
    exact hinv.resolve_right fun h => by simp [hend] at h

instance (cfg : Profile) (f : State) (x : Execution) (e : Event) :
    Decidable (KeepsLimit cfg f x e) :=
  match e with
  | .message _ _ => inferInstanceAs (Decidable ((_ → _) ∧ _ ∧ (_ → _)))
  | .overview _ _ => inferInstanceAs (Decidable (_ ∨ _))
  | .lrvmPid _ => inferInstanceAs (Decidable True)
  | .disconnect => inferInstanceAs (Decidable True)
  | .closePipe => inferInstanceAs (Decidable True)
  | .leave => inferInstanceAs (Decidable True)

instance (x : Execution) (e : Event) : Decidable (KeepsError x e) :=
  match e with
  | .message _ _ => inferInstanceAs (Decidable (_ ∨ (_ → _) ∧ (_ → _)))
  | .overview _ _ => inferInstanceAs (Decidable True)
  | .lrvmPid _ => inferInstanceAs (Decidable True)
  | .disconnect => inferInstanceAs (Decidable True)
  | .closePipe => inferInstanceAs (Decidable True)
  | .leave => inferInstanceAs (Decidable True)

/-- The sample process after its first messages. -/
def sampleProcess : Process := { sampleStart.proc with lrvmPid := 100, taskPid := 101 }

/-- It has used two seconds. -/
def slowProcess : Process := sampleProcess.fillFromStats sampleProfile ⟨10, 0, 2000000, 0, 0⟩

def killedState : Execution :=
  ⟨sampleProcess.kill (slowProcess.checkLimits sampleProfile 0), none, none, false⟩

def failedState : Execution := ⟨(Message.execError (some "No such file".toList)).apply sampleProfile
  (sampleAccounting 10 20) sampleProcess, none, none, false⟩

/-- Late messages that are harmless. -/
def lateRun : List Event :=
  [.message (.exitCode "15".toList) (sampleAccounting 10 20),
    .overview (sampleAccounting 10 20) ⟨11, 0⟩, .disconnect, .closePipe, .leave]

lemma lateRun_isSome : (lateRun.foldlM (restrict (KeepsLimit sampleProfile psTimelimit)
    (next sampleProfile)) killedState).isSome = true := by
  decide +kernel

lemma lateRun_isSome_failed : (lateRun.foldlM (restrict KeepsError (next sampleProfile))
    failedState).isSome = true := by
  decide +kernel

theorem lateRun_keeps_verdicts :
    (∃ x, Run (Step sampleProfile) killedState lateRun x ∧ test x.proc.state psTimelimit = true) ∧
    (∃ x, Run (Step sampleProfile) failedState lateRun x ∧ x.proc.execError = true) := by
  constructor
  · have hr := (Run.get_foldlM _ _ lateRun_isSome).mono fun _ _ _ h => stepOf_restrict.1 h
    exact ⟨_, hr.of_guarded, ((verdict_kept sampleProfile sampleProcess none none).1 slowProcess
      psTimelimit lateRun _ (.inr rfl) rfl (by decide +kernel) hr).1⟩
  · have hr := (Run.get_foldlM _ _ lateRun_isSome_failed).mono fun _ _ _ h => stepOf_restrict.1 h
    exact ⟨_, hr.of_guarded, (verdict_kept sampleProfile sampleProcess none none).2 _ _ _ _ hr
      (by decide +kernel)⟩

/-- The hypervisor kills the process for its time; the signal is reported late. -/
def killRun : List Event :=
  [.lrvmPid 100, .message (.taskpid "101".toList) (sampleAccounting 10 20),
    .overview (sampleAccounting 10 2000000) ⟨11, 0⟩]

lemma killRun_isSome : (killRun.foldlM (next sampleProfile) sampleStart).isSome = true := by
  decide +kernel

def killRunState : Execution := (killRun.foldlM (next sampleProfile) sampleStart).get killRun_isSome

def lateSignalRun : List Event :=
  [.message (.termsig "15".toList) (sampleAccounting 10 20), .closePipe, .leave]

/-- The next overview comes after the time that LRVM has for its first answer. -/
def lateOverviewRun : List Event :=
  [.overview (sampleAccounting 10 2000000) ⟨12, 0⟩, .closePipe, .leave]

lemma lateSignalRun_isSome :
    (lateSignalRun.foldlM (next sampleProfile) killRunState).isSome = true := by
  decide +kernel

lemma lateOverviewRun_isSome :
    (lateOverviewRun.foldlM (next sampleProfile) killRunState).isSome = true := by
  decide +kernel

/-- A late signal erases the recorded limit, a late overview makes it an error. -/
theorem killRun_verdict_lost :
    Run (Step sampleProfile) sampleStart killRun killRunState ∧
    killRunState.proc.timelimit = true ∧
    (∃ x, Run (Step sampleProfile) killRunState lateSignalRun x ∧ x.ended = true ∧
      x.proc.timelimit = false) ∧
    (∃ x, Run (Step sampleProfile) killRunState lateOverviewRun x ∧ x.ended = true ∧
      x.proc.timelimit = false ∧ x.proc.execError = true) :=
  ⟨Run.get_foldlM _ _ killRun_isSome, by decide +kernel,
    ⟨_, Run.get_foldlM _ _ lateSignalRun_isSome, by decide +kernel, by decide +kernel⟩,
    ⟨_, Run.get_foldlM _ _ lateOverviewRun_isSome, by decide +kernel, by decide +kernel,
      by decide +kernel⟩⟩

end WebTester.Librun
