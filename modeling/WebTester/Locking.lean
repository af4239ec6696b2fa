import WebTester.Execution

/-!
# Locks of process records

`locked` is a plain flag. While it is set, overviews of the hypervisor and messages about signals
pass the process over. Six routines set it and clear it again before they return, some of them
while they call another one. `run_finalize_executing` returns without clearing it when there is no
accounting record.
-/
namespace WebTester.Librun
open CString Transition

/-- The routines that lock a process. `proc_close_pipe` returns at once when the flag
`PF_PIPE_CLOSING` is set. -/
inductive Routine
  | finalizeExecuting
  | killProcess (st : State)
  | closePipe (closing : Bool)
  | checkLimits (st : Stats)
  | checkProcZombie
  | checkLrvmAnsTimeout
  deriving DecidableEq, Repr

/-- The record after a call. -/
def Routine.call (cfg : Profile) (acc : Accounting) (now : TimeVal) (p : Process) :
    Routine → Process
  | .finalizeExecuting => p.finalize cfg acc
  | .killProcess st => p.kill st
  | .closePipe closing => if closing then p else p.closePipe
  | .checkLimits st => p.killOverLimits cfg st
  | .checkProcZombie => p.checkProcZombie cfg now
  | .checkLrvmAnsTimeout => p.checkLrvmAnsTimeout cfg now

variable {cfg : Profile} {acc : Accounting} {now : TimeVal} {p : Process}

namespace Process

lemma kill_locked (h : p.locked = false) (st : State) : (p.kill st).locked = false := by
  unfold kill
  split
  · exact h
  · rfl

lemma checkLrvmAnsTimeout_locked (h : p.locked = false) :
    (p.checkLrvmAnsTimeout cfg now).locked = false := by
  unfold checkLrvmAnsTimeout
  split
  · rfl
  · exact h

lemma checkProcZombie_locked (h : p.locked = false) :
    (p.checkProcZombie cfg now).locked = false := by
  unfold checkProcZombie
  dsimp only
  split_ifs
  · rfl
  · exact h
  · rfl
  · exact h

lemma killOverLimits_locked (h : p.locked = false) (st : Stats) :
    (p.killOverLimits cfg st).locked = false := by
  unfold killOverLimits
  dsimp only
  split
  · rfl
  · exact h

/-- The lock of `run_finalize_executing` is left when there is no accounting record. -/
lemma finalize_locked_iff (h : p.locked = false) :
    (p.finalize cfg acc).locked = false ↔ p.killing = true ∨ (acc.pool p.taskPid).isSome := by
  unfold finalize
  cases hkilling : p.killing with
  | true => simpa using h
  | false =>
    cases hacc : acc.pool p.taskPid with
    | none => simp [setExecError]
    | some st => simp

lemma overview_locked (h : p.locked = false) : (p.overview cfg acc now).locked = false := by
  unfold overview
  rw [h, if_neg Bool.false_ne_true]
  have hchecked := @checkLrvmAnsTimeout_locked cfg now p h
  dsimp only
  split
  · split
    · exact checkProcZombie_locked hchecked
    · split
      · exact checkProcZombie_locked hchecked
      · refine killOverLimits_locked ?_ _
        exact hchecked
  · exact hchecked

end Process

/-- A call leaves an unlocked process unlocked exactly when it does not finalize it without an
accounting record. -/
lemma Routine.call_locked_iff (h : p.locked = false) (r : Routine) :
    (r.call cfg acc now p).locked = false ↔
      (r = .finalizeExecuting → p.killing = true ∨ (acc.pool p.taskPid).isSome) := by
  cases r with
  | finalizeExecuting => exact (p.finalize_locked_iff h).trans (by simp)
  | killProcess st => exact iff_of_true (p.kill_locked h st) (by simp)
  | closePipe closing => cases closing <;> simp [call, Process.closePipe, h]
  | checkLimits st => exact iff_of_true (p.killOverLimits_locked h st) (by simp)
  | checkProcZombie => exact iff_of_true (p.checkProcZombie_locked h) (by simp)
  | checkLrvmAnsTimeout => exact iff_of_true (p.checkLrvmAnsTimeout_locked h) (by simp)

/-! ## Runs -/

/-- A process is finalized with an accounting record, or while it is being killed. -/
def Accounted (x : Execution) : Event → Prop
  | .message .finalize acc => x.proc.killing = true ∨ (acc.pool x.proc.taskPid).isSome
  | _ => True

instance (x : Execution) : ∀ e, Decidable (Accounted x e)
  | .message .finalize _ => inferInstanceAs (Decidable (_ ∨ _))
  | .message (.taskpid _) _ | .message (.exitCode _) _ | .message (.termsig _) _
  | .message (.stopsig _) _ | .message .cont _ | .message .base _ | .message (.execError _) _
  | .overview _ _ | .lrvmPid _ | .disconnect | .closePipe | .leave =>
    inferInstanceAs (Decidable True)

lemma apply_locked {m : Message} (h : p.locked = false)
    (hm : m = .finalize → p.killing = true ∨ (acc.pool p.taskPid).isSome) :
    (m.apply cfg acc p).locked = false := by
  cases m with
  | finalize => exact (p.finalize_locked_iff h).2 (hm rfl)
  | termsig arg => simp [Message.apply, Process.setTerminated, h]
  | stopsig arg => simp [Message.apply, Process.setStopped, h]
  | cont => simp [Message.apply, Process.setContinued, h]
  | base =>
    unfold Message.apply Process.setBase
    dsimp only
    split
    · exact h
    · exact h
  | execError desc => cases desc <;> exact h
  | taskpid arg => exact h
  | exitCode arg => exact h

lemma unlocked_next (x : Execution) (e : Event) (y : Execution) (hx : x.proc.locked = false)
    (h : Guarded Accounted (Step cfg) x e y) : y.proc.locked = false := by
  obtain ⟨haccounted, hstep⟩ := h
  unfold Step StepOf next at hstep
  split at hstep
  · cases hstep
  · cases e with
    | message m acc =>
      obtain rfl := Option.some.inj hstep
      refine apply_locked hx ?_
      rintro rfl
      exact haccounted
    | overview acc now =>
      obtain rfl := Option.some.inj hstep
      exact Process.overview_locked hx
    | lrvmPid pid =>
      obtain rfl := Option.some.inj hstep
      exact hx
    | disconnect =>
      obtain rfl := Option.some.inj hstep
      exact hx
    | closePipe =>
      obtain rfl := Option.some.inj hstep
      rfl
    | leave =>
      obtain rfl := Option.some.inj hstep
      exact hx

/-- In every run in which the process is finalized with an accounting record it stays unlocked. A
call of any of the six routines on an unlocked record leaves it locked exactly when it finalizes
the process without such a record. -/
theorem locks_released {unique : ℤ} {key : CStr} {rssLimit timeLimit : BitVec 64} {es : List Event}
    {x : Execution}
    (hr : Run (Guarded Accounted (Step cfg)) (started unique key rssLimit timeLimit now) es x) :
    x.proc.locked = false ∧ ∀ (p : Process) (r : Routine) (acc : Accounting) (now : TimeVal),
      p.locked = false → ((r.call cfg acc now p).locked = false ↔
        (r = .finalizeExecuting → p.killing = true ∨ (acc.pool p.taskPid).isSome)) :=
  ⟨hr.invariant (I := fun x => x.proc.locked = false) unlocked_next rfl,
    fun _ r _ _ h => r.call_locked_iff h⟩

/-- The process gets its number and ends. -/
def accountedRun : List Event :=
  [.message (.taskpid "7".toList) (sampleAccounting 1 1), .overview (sampleAccounting 1 1) ⟨2, 0⟩,
    .message .finalize (sampleAccounting 1 1), .leave]

lemma accountedRun_isSome :
    (accountedRun.foldlM (restrict Accounted (next sampleProfile))
      (started 0 [] 0 0 ⟨1, 0⟩)).isSome := by
  decide +kernel

theorem locks_released_accountedRun :
    ((accountedRun.foldlM (restrict Accounted (next sampleProfile))
      (started 0 [] 0 0 ⟨1, 0⟩)).get accountedRun_isSome).proc.locked = false := by
  have hr := (Run.get_foldlM _ _ accountedRun_isSome).mono fun _ _ _ h => stepOf_restrict.1 h
  exact (locks_released hr).1

/-- No record of any process. -/
def noRecords : Accounting := ⟨fun _ => none, fun _ => none⟩

/-- A process that is finalized without an accounting record stays locked. -/
theorem lock_left :
    ¬∀ (es : List Event) (x : Execution) (r : Routine) (acc : Accounting) (now : TimeVal),
      Run (Step sampleProfile) (started 0 [] 0 0 ⟨1, 0⟩) es x → x.proc.locked = false →
      (r.call sampleProfile acc now x.proc).locked = false := by
  intro h
  have hlocked := h [] _ .finalizeExecuting noRecords ⟨2, 0⟩ .nil rfl
  exact absurd hlocked (by decide)

end WebTester.Librun
