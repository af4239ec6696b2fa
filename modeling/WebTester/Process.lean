import WebTester.Bits
import WebTester.CString

/-!
# Profiled processes

The record that libRUN keeps of a process, and what is done with it by the thread
that executes the process, by the hypervisor and by the handlers of the messages
that the process's virtual machine (LRVM) sends. Accounting records come from the
kernel: they are looked up by process number in tables given to a step.
-/
namespace WebTester.Librun
open CString Bits

/-! ## Time -/

/-- `timeval_t`. -/
structure TimeVal where
  sec : ℕ
  usec : ℕ
  deriving DecidableEq, Repr

/-- `timedist`: zero when the times are in the wrong order. -/
def timedist (start stop : TimeVal) : TimeVal :=
  if stop.sec < start.sec ∨ start.sec = stop.sec ∧ stop.usec < start.usec then ⟨0, 0⟩
  else if start.usec ≤ stop.usec then ⟨stop.sec - start.sec, stop.usec - start.usec⟩
  else ⟨stop.sec - start.sec - 1, stop.usec + 1000000 - start.usec⟩

/-- `tv_usec_cmp`. -/
def tvUsecCmp (t : TimeVal) (usec : ℕ) : Ordering :=
  (compare t.sec (usec / 1000000)).then (compare t.usec (usec % 1000000))

lemma tvUsecCmp_gt_iff {t : TimeVal} (ht : t.usec < 1000000) (usec : ℕ) :
    tvUsecCmp t usec = .gt ↔ usec < t.sec * 1000000 + t.usec := by
  rw [tvUsecCmp, Ordering.then_eq_gt, Nat.compare_eq_gt, Nat.compare_eq_eq, Nat.compare_eq_gt]
  omega

/-- More than so many microseconds lie between times as `now` gives them. -/
lemma timedist_gt_iff {start stop : TimeVal} (hstart : start.usec < 1000000)
    (hstop : stop.usec < 1000000) (usec : ℕ) :
    tvUsecCmp (timedist start stop) usec = .gt ↔
      start.sec * 1000000 + start.usec + usec < stop.sec * 1000000 + stop.usec := by
  unfold timedist
  split
  · rw [tvUsecCmp_gt_iff (by decide)]
    dsimp only
    omega
  · split
    · rw [tvUsecCmp_gt_iff (by dsimp only; omega)]
      dsimp only
      omega
    · rw [tvUsecCmp_gt_iff (by dsimp only; omega)]
      dsimp only
      omega

/-! ## Accounting -/

/-- The fields of `struct taskstats` that are read. -/
structure Stats where
  hiwaterRss : BitVec 64
  hiwaterVm : BitVec 64
  acEtime : BitVec 64
  acUtime : BitVec 64
  acStime : BitVec 64
  deriving DecidableEq, Repr

/-- `RUN_TASKSTATS_ISZOMBIE`. -/
def Stats.isZombie (st : Stats) : Bool :=
  st.hiwaterRss == 0 && st.hiwaterVm == 0 && st.acEtime == 0 && st.acUtime == 0 && st.acStime == 0

/-- `ACC_TIME_USAGE`. -/
def Stats.timeUsage (st : Stats) : BitVec 64 :=
  let m := if st.acStime < st.acEtime then st.acEtime else st.acStime
  if st.acUtime < m then m else st.acUtime

/-- `run_hv_proc_stats` and `run_hvpool_stats_by_pid`: records of living and of
finished processes. -/
structure Accounting where
  live : BitVec 32 → Option Stats
  pool : BitVec 32 → Option Stats

/-- Configured corrections, timeouts (in microseconds) and peak limits. -/
structure Profile where
  rssCorrection : ℤ
  timeCorrection : ℤ
  lrvmAnsTimeout : ℕ
  zombieTimeout : ℕ
  peakTime : BitVec 64
  peakRss : BitVec 64

/-! ## The record -/

abbrev State := BitVec 64

def psStarting : State := 0x0001#64
def psRunning : State := 0x0002#64
def psFinished : State := 0x0004#64
def psKilled : State := 0x0008#64
def psTerminated : State := 0x0010#64
def psStopped : State := 0x0020#64
def psContinued : State := 0x0040#64
def psTimelimit : State := 0x0200#64
def psMemorylimit : State := 0x0400#64
def psExecerror : State := 0x0800#64

/-- `run_process_info_t`, without the command, the user and the pipe. The bits of
`flags` are `zombied`, `killing`, `chroot` and `inBelts`. -/
structure Process where
  rssLimit : BitVec 64
  timeLimit : BitVec 64
  state : State
  locked : Bool
  unique : ℤ
  lrvmPid : BitVec 32
  taskPid : BitVec 32
  zombied : Bool
  killing : Bool
  chroot : Bool
  inBelts : Bool
  timestamp : TimeVal
  zombieTimestamp : TimeVal
  securityKey : CStr
  baseTime : BitVec 64
  baseRss : BitVec 64
  exitCode : ℤ
  termSig : ℤ
  stopSig : ℤ
  usageTime : BitVec 64
  usageRss : BitVec 64
  errDesc : CStr
  deriving DecidableEq, Repr

namespace Process

/-- `spawn_new_process`: a zeroed record with its number, key and limits. -/
def spawnNewProcess (unique : ℤ) (key : CStr) (rssLimit timeLimit : BitVec 64) : Process where
  rssLimit := rssLimit
  timeLimit := timeLimit
  state := 0
  locked := false
  unique := unique
  lrvmPid := 0
  taskPid := 0
  zombied := false
  killing := false
  chroot := false
  inBelts := false
  timestamp := ⟨0, 0⟩
  zombieTimestamp := ⟨0, 0⟩
  securityKey := key
  baseTime := 0
  baseRss := 0
  exitCode := 0
  termSig := 0
  stopSig := 0
  usageTime := 0
  usageRss := 0
  errDesc := []

/-- `RUN_PROC_EXITCODE`. -/
def exitStatus (p : Process) : ℤ :=
  if p.stopSig ≠ 0 then p.stopSig else if p.termSig ≠ 0 then p.termSig else p.exitCode

def finished (p : Process) : Bool := test p.state psFinished
def terminated (p : Process) : Bool := test p.state psTerminated
def memorylimit (p : Process) : Bool := test p.state psMemorylimit
def timelimit (p : Process) : Bool := test p.state psTimelimit
def execError (p : Process) : Bool := test p.state psExecerror

/-- `RUN_PROC_STATE_EXECUTING`. -/
def executing (p : Process) : Bool :=
  test p.state psRunning || test p.state psStopped || test p.state psContinued

/-- `RUN_PROC_GETSIGNAL`. -/
def getSignal (p : Process) : State :=
  (p.state &&& psTerminated) ||| (p.state &&& psKilled) ||| (p.state &&& psStopped) |||
    (p.state &&& psContinued)

/-- `run_set_chroot`. -/
def setChroot (p : Process) (val : ℤ) : Process := { p with chroot := val ≠ 0 }

/-- `SET_PROCESS_EXECERROR`. -/
def setExecError (p : Process) (desc : CStr) : Process :=
  { p with state := psExecerror, errDesc := desc }

/-! ## Resources -/

/-- `proc_fill_from_stats`; all arithmetic is on unsigned words. -/
def fillFromStats (cfg : Profile) (p : Process) (st : Stats) : Process :=
  let rss := st.hiwaterRss
  let corr := BitVec.ofInt 64 cfg.rssCorrection
  let time := st.timeUsage
  let tcorr := BitVec.ofInt 64 cfg.timeCorrection
  { p with
    usageRss := if cfg.rssCorrection < 0 ∧ rss < -corr then rss else rss + corr
    usageTime := if p.baseTime - tcorr ≤ time then time - p.baseTime + tcorr else 0 }

/-- The memory part of `CHECK_LIMITS`: the limit of the process or the peak. -/
def overMemory (cfg : Profile) (p : Process) : Bool :=
  (0 < p.rssLimit && p.rssLimit < p.usageRss) || (0 < cfg.peakRss && cfg.peakRss < p.usageRss)

/-- The time part of `CHECK_LIMITS`. -/
def overTime (cfg : Profile) (p : Process) : Bool :=
  (0 < p.timeLimit && p.timeLimit < p.usageTime) || (0 < cfg.peakTime && cfg.peakTime < p.usageTime)

/-- `CHECK_LIMITS`. -/
def checkLimits (cfg : Profile) (p : Process) (st : State) : State :=
  st ||| (if p.overMemory cfg then psMemorylimit else 0) |||
    (if p.overTime cfg then psTimelimit else 0)

/-! ## Killing and finalizing -/

/-- `run_kill_process`. Both flags set on entry are cleared again at its end. -/
def kill (p : Process) (st : State) : Process :=
  if p.killing then p
  else { p with
    taskPid := 0
    lrvmPid := 0
    state := psKilled ||| (if p.execError then st ||| psExecerror else st)
    locked := false }

/-- Text of the error of `run_finalize_executing`. -/
def noAccounting (p : Process) : CStr :=
  "No accounting info found while finalizing ".toList ++ (toString p.unique).toList ++
    ". PID: ".toList ++ (toString p.taskPid.toNat).toList ++ ['\n']

/-- `run_finalize_executing`. Without an accounting record the process stays
locked. -/
def finalize (cfg : Profile) (acc : Accounting) (p : Process) : Process :=
  if p.killing then p
  else match acc.pool p.taskPid with
    | none => { p with locked := true }.setExecError p.noAccounting
    | some st =>
      let q := p.fillFromStats cfg st
      { q with state := q.checkLimits cfg p.getSignal ||| psFinished, locked := false }

/-! ## The hypervisor's overview -/

/-- The condition of `belts_check_lrvm_ans_timeout`. -/
def answerTimedOut (cfg : Profile) (now : TimeVal) (p : Process) : Bool :=
  (p.lrvmPid == 0 || p.taskPid == 0) && tvUsecCmp p.timestamp 0 == .gt &&
    tvUsecCmp (timedist p.timestamp now) cfg.lrvmAnsTimeout != .lt

/-- `belts_check_lrvm_ans_timeout`. -/
def checkLrvmAnsTimeout (cfg : Profile) (now : TimeVal) (p : Process) : Process :=
  if p.answerTimedOut cfg now then
    { ({ p with locked := true }.setExecError
      "Timelimit to answer from LRVM exceeded.".toList).kill 0 with locked := false }
  else p

/-- `belts_check_proc_zombie`. -/
def checkProcZombie (cfg : Profile) (now : TimeVal) (p : Process) : Process :=
  let p := if p.zombied then p else { p with zombieTimestamp := now, zombied := true }
  if tvUsecCmp (timedist p.zombieTimestamp now) cfg.zombieTimeout != .lt then
    { ({ p with locked := true }.setExecError "Suspesion in zombie".toList).kill 0 with
      locked := false }
  else p

/-- `belts_check_limits`. -/
def killOverLimits (cfg : Profile) (p : Process) (st : Stats) : Process :=
  let q := p.fillFromStats cfg st
  let flags := q.checkLimits cfg 0
  if flags ≠ 0 then { { q with locked := true }.kill flags with locked := false } else q

/-- The body of `run_belts_overview` for one process. -/
def overview (cfg : Profile) (acc : Accounting) (now : TimeVal) (p : Process) : Process :=
  if p.locked then p
  else
    let p := p.checkLrvmAnsTimeout cfg now
    if p.lrvmPid ≠ 0 ∧ p.taskPid ≠ 0 ∧ p.executing then
      match acc.live p.taskPid with
      | none => p.checkProcZombie cfg now
      | some st =>
        if st.isZombie then p.checkProcZombie cfg now
        else { p with zombied := false }.killOverLimits cfg st
    else p

/-! ## Signals and base usage -/

/-- `run_process_terminated`. -/
def setTerminated (p : Process) (sig : ℤ) : Process :=
  if p.locked then p else { p with state := psTerminated, termSig := sig }

/-- `run_process_stopped`. -/
def setStopped (p : Process) (sig : ℤ) : Process :=
  if p.locked then p else { p with state := psStopped, stopSig := sig }

/-- `run_process_continued`. -/
def setContinued (p : Process) : Process :=
  if p.locked then p else { p with state := psContinued }

/-- `run_process_set_base`. -/
def setBase (acc : Accounting) (p : Process) : Process :=
  match acc.live p.taskPid with
  | none => p
  | some st => { p with baseTime := st.timeUsage, baseRss := st.hiwaterRss }

/-! ## The executing thread -/

/-- How far `run_execute_process` and the start of `execute_thread` get. -/
inductive Launch
  | poolFull
  | noThread
  | noFile
  | noPipe
  | started
  deriving DecidableEq, Repr

/-- The record when LRVM has been started, or why it was not. A process whose
thread runs is in the belts. -/
def execute (l : Launch) (now : TimeVal) (p : Process) : Process :=
  let q := { p with state := psRunning, timestamp := now, inBelts := true }
  match l with
  | .poolFull => { p with state := psStarting }.setExecError "Unique pool is full".toList
  | .noThread =>
    { p with state := psStarting }.setExecError "Unable to create testing thread".toList
  | .noFile => q.setExecError "Unable find file to execute".toList
  | .noPipe => q.setExecError "Unable to open pipe.".toList
  | .started => q

/-- `proc_close_pipe` leaves the process unlocked. -/
def closePipe (p : Process) : Process := { p with locked := false }

/-- The end of `execute_thread`: a description makes an error. -/
def leaveThread (p : Process) : Process :=
  { p with
    inBelts := false
    state := if p.errDesc ≠ [] then p.state ||| psExecerror else p.state }

end Process

/-! ## Messages of an authenticated client -/

/-- The commands that change the record, with their textual arguments. -/
inductive Message
  | taskpid (arg : CStr)
  | finalize
  | exitCode (arg : CStr)
  | termsig (arg : CStr)
  | stopsig (arg : CStr)
  | cont
  | base
  | execError (desc : Option CStr)
  deriving DecidableEq, Repr

/-- What the handler of a command does once the client is validated. -/
def Message.apply (cfg : Profile) (acc : Accounting) (p : Process) : Message → Process
  | .taskpid arg => { p with taskPid := BitVec.ofInt 32 (atol arg) }
  | .finalize => p.finalize cfg acc
  | .exitCode arg => { p with exitCode := atoi arg }
  | .termsig arg => p.setTerminated (atoi arg)
  | .stopsig arg => p.setStopped (atoi arg)
  | .cont => p.setContinued
  | .base => p.setBase acc
  | .execError none => { p with state := psExecerror }
  | .execError (some desc) => p.setExecError desc

/-! ## A configuration for concrete runs -/

/-- No corrections; two seconds for an answer, three for a zombie. -/
def sampleProfile : Profile where
  rssCorrection := 0
  timeCorrection := 0
  lrvmAnsTimeout := 2000000
  zombieTimeout := 3000000
  peakTime := 60000000
  peakRss := 65536

/-- One record for every process. -/
def sampleAccounting (rss time : BitVec 64) : Accounting where
  live _ := some ⟨rss, 0, time, 0, 0⟩
  pool _ := some ⟨rss, 0, time, 0, 0⟩

end WebTester.Librun
