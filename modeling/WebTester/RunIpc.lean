import Mathlib.Data.List.FinRange
import Mathlib.Logic.Function.Basic
import WebTester.Process
import WebTester.Transition

/-!
# Commands of libRUN's clients

Each virtual machine talks to the server over a connection that occupies a slot of a
table. It names the process it speaks for (`unique`), proves it by a key (`security`)
and may then change the record of that process. `history` lists the commands executed
for a slot since its present client came; the server does not keep it.
-/
namespace WebTester.Librun
open CString Transition

/-- `RUN_SOCK_STACK_SIZE`, the size of a command buffer with its final NUL. -/
def runSockStackSize : ℕ := 1024

/-- `run_ipc_client`; a negative socket marks a free slot. -/
structure Client where
  sock : ℤ
  unique : ℤ
  securityKey : CStr
  cmd : CStr
  timestamp : TimeVal
  deriving DecidableEq, Repr

namespace Client

/-- `spawn_new_client`. The command buffer is left as it is. -/
def spawnNewClient (c : Client) (sock : ℤ) (now : TimeVal) : Client :=
  { c with sock := sock, unique := -1, timestamp := now, securityKey := [] }

/-- `CHECK_TIME_DELTA` on a connected client. -/
def expired (keep : ℕ) (now : TimeVal) (c : Client) : Bool :=
  0 ≤ c.sock && tvUsecCmp (timedist c.timestamp now) keep == .gt

/-- What `disconnect_client` leaves of a client. -/
def clear (c : Client) : Client := { c with sock := -1, unique := -1, securityKey := [] }

end Client

/-- The table of clients and the belts. `answers` are the texts sent back. -/
structure Ipc (n : ℕ) where
  clients : Fin n → Client
  registered : ℤ
  belts : List Process
  answers : List (Fin n × CStr)
  history : Fin n → List (List CStr)

namespace Ipc

variable {n : ℕ}

/-- `init_clients`: the buffers and timestamps are whatever the memory held. -/
def initClients (junk : Fin n → CStr × TimeVal) (belts : List Process) : Ipc n where
  clients i := ⟨-1, -1, [], (junk i).1, (junk i).2⟩
  registered := 0
  belts := belts
  answers := []
  history _ := []

def setClient (s : Ipc n) (i : Fin n) (c : Client) : Ipc n :=
  { s with clients := Function.update s.clients i c }

/-! ## Connections -/

/-- `disconnect_client`. -/
def disconnectClient (s : Ipc n) (i : Fin n) : Ipc n :=
  if (s.clients i).sock < 0 then s
  else { s.setClient i (s.clients i).clear with
    registered := s.registered - 1
    history := Function.update s.history i [] }

/-- `register_client` drops a client that has been silent for too long. -/
def evict (keep : ℕ) (now : TimeVal) (s : Ipc n) (i : Fin n) : Ipc n :=
  if (s.clients i).expired keep now then s.disconnectClient i else s

/-- The loop of `register_client` from a slot on. -/
def registerFrom (keep : ℕ) (sock : ℤ) (now : TimeVal) :
    List (Fin n) → Ipc n → Ipc n × Option (Fin n)
  | [], s => (s, none)
  | i :: is, s =>
    let s := s.evict keep now i
    if (s.clients i).sock < 0 then
      ({ s.setClient i ((s.clients i).spawnNewClient sock now) with
        registered := s.registered + 1
        history := Function.update s.history i [] }, some i)
    else registerFrom keep sock now is s

/-- `register_client`. -/
def registerClient (keep : ℕ) (sock : ℤ) (now : TimeVal) (s : Ipc n) : Ipc n × Option (Fin n) :=
  if n ≤ s.registered then (s, none)
  else registerFrom keep sock now (List.finRange n) s

end Ipc

/-! ## Handlers -/

/-- The texts of `ERR` and `OK`. -/
def errAnswer (text : String) : CStr := "-ERR ".toList ++ text.toList ++ ['\n']

def okAnswer : CStr := "+OK\n".toList

/-- `run_process_info_by_unique`: the place of the first such process. -/
def processInfoByUnique (belts : List Process) (unique : ℤ) : Option ℕ :=
  belts.findIdx? fun p => p.unique == unique

/-- The shape of the handlers that act on a process: the number of arguments is
checked, then the process is looked up and the key compared (`VALIDATE_PROC`). -/
def procHandler (valid : Bool) (act : Process → Process) (c : Client) (belts : List Process) :
    List Process × CStr :=
  if !valid then (belts, errAnswer "Invalid arglist")
  else match processInfoByUnique belts c.unique with
    | none => (belts, errAnswer "No such process")
    | some j =>
      if (belts[j]?.map Process.securityKey) ≠ some c.securityKey then
        (belts, errAnswer "Security mostmatch")
      else (belts.modify j act, okAnswer)

section Handlers

variable (cfg : Profile) (acc : Accounting) (argv : List CStr) (c : Client) (belts : List Process)

def runIpcProcUnique : Client × CStr :=
  if argv.length ≠ 2 then (c, errAnswer "Invalid arglist")
  else ({ c with unique := atoi (argv.getD 1 []) }, okAnswer)

/-- At most `RUN_KEY_LENGTH - 1` characters are kept. -/
def runIpcProcSecurity : Client × CStr :=
  if argv.length ≠ 2 then (c, errAnswer "Invalid arglist")
  else ({ c with securityKey := strncpy 63 (argv.getD 1 []) }, okAnswer)

def runIpcProcTaskpid : List Process × CStr :=
  procHandler (argv.length == 2) ((Message.taskpid (argv.getD 1 [])).apply cfg acc ·) c belts

def runIpcProcFinalize : List Process × CStr :=
  procHandler (argv.length == 1) (Message.finalize.apply cfg acc ·) c belts

def runIpcProcExitCode : List Process × CStr :=
  procHandler (argv.length == 2) ((Message.exitCode (argv.getD 1 [])).apply cfg acc ·) c belts

def runIpcProcTermsig : List Process × CStr :=
  procHandler (argv.length == 2) ((Message.termsig (argv.getD 1 [])).apply cfg acc ·) c belts

def runIpcProcStopsig : List Process × CStr :=
  procHandler (argv.length == 2) ((Message.stopsig (argv.getD 1 [])).apply cfg acc ·) c belts

def runIpcProcContinue : List Process × CStr :=
  procHandler (argv.length == 1) (Message.cont.apply cfg acc ·) c belts

def runIpcProcBase : List Process × CStr :=
  procHandler (argv.length == 1) (Message.base.apply cfg acc ·) c belts

def runIpcProcExecError : List Process × CStr :=
  procHandler (argv.length ≤ 2) ((Message.execError argv[1]?).apply cfg acc ·) c belts

def runIpcProcValidate : List Process × CStr :=
  procHandler (argv.length ≤ 1) id c belts

end Handlers

/-- The names in `callbacks`. -/
inductive Command
  | unique
  | security
  | taskpid
  | finalize
  | exitCode
  | termsig
  | stopsig
  | cont
  | base
  | execError
  | validate
  deriving DecidableEq, Repr

def Command.name : Command → CStr
  | .unique => "unique".toList
  | .security => "security".toList
  | .taskpid => "taskpid".toList
  | .finalize => "finalize".toList
  | .exitCode => "exit_code".toList
  | .termsig => "termsig".toList
  | .stopsig => "stopsig".toList
  | .cont => "continue".toList
  | .base => "base".toList
  | .execError => "exec_error".toList
  | .validate => "validate".toList

/-- `cmd_context_get_proc`. -/
def Command.ofName (name : CStr) : Option Command :=
  [.unique, .security, .taskpid, .finalize, .exitCode, .termsig, .stopsig, .cont, .base,
    .execError, .validate].find? fun c => c.name == name

namespace Ipc

variable {n : ℕ}

/-- A handler that changes its client. -/
def withClient (s : Ipc n) (i : Fin n) (r : Client × CStr) : Ipc n :=
  { s.setClient i r.1 with answers := s.answers ++ [(i, r.2)] }

/-- A handler that may change a process. -/
def withBelts (s : Ipc n) (i : Fin n) (r : List Process × CStr) : Ipc n :=
  { s with belts := r.1, answers := s.answers ++ [(i, r.2)] }

/-- `cmd_context_execute_proc` for the client of slot `i`; an unknown name is
passed over in silence. -/
def execute (cfg : Profile) (acc : Accounting) (s : Ipc n) (i : Fin n) (argv : List CStr) : Ipc n :=
  let c := s.clients i
  match Command.ofName (argv.headD []) with
  | none => s
  | some .unique => s.withClient i (runIpcProcUnique argv c)
  | some .security => s.withClient i (runIpcProcSecurity argv c)
  | some .taskpid => s.withBelts i (runIpcProcTaskpid cfg acc argv c s.belts)
  | some .finalize => s.withBelts i (runIpcProcFinalize cfg acc argv c s.belts)
  | some .exitCode => s.withBelts i (runIpcProcExitCode cfg acc argv c s.belts)
  | some .termsig => s.withBelts i (runIpcProcTermsig cfg acc argv c s.belts)
  | some .stopsig => s.withBelts i (runIpcProcStopsig cfg acc argv c s.belts)
  | some .cont => s.withBelts i (runIpcProcContinue cfg acc argv c s.belts)
  | some .base => s.withBelts i (runIpcProcBase cfg acc argv c s.belts)
  | some .execError => s.withBelts i (runIpcProcExecError cfg acc argv c s.belts)
  | some .validate => s.withBelts i (runIpcProcValidate argv c s.belts)

/-- A command, with its entry in the history of the slot. -/
def command (cfg : Profile) (acc : Accounting) (s : Ipc n) (i : Fin n) (argv : List CStr) : Ipc n :=
  { s.execute cfg acc i argv with
    history := Function.update s.history i (s.history i ++ [argv]) }

end Ipc

/-- Steps of the server's table. `buffer` is any change of a client's buffer within its size
and of its timestamp, `server` any change of the belts that is not made by a command. -/
inductive IpcEvent (n : ℕ)
  | accept (sock : ℤ) (now : TimeVal)
  | disconnect (i : Fin n)
  | command (i : Fin n) (argv : List CStr) (acc : Accounting)
  | buffer (i : Fin n) (cmd : CStr) (now : TimeVal)
  | server (belts : List Process)

/-- Only a connected client can issue a command. A text that is longer than its buffer lands
in the next slot of the table, and has no result. -/
def ipcNext {n : ℕ} (cfg : Profile) (keep : ℕ) (s : Ipc n) : IpcEvent n → Option (Ipc n)
  | .accept sock now => if 0 ≤ sock then some (s.registerClient keep sock now).1 else none
  | .disconnect i => some (s.disconnectClient i)
  | .command i argv acc =>
    if 0 ≤ (s.clients i).sock then some (s.command cfg acc i argv) else none
  | .buffer i cmd now =>
    if cmd.length < runSockStackSize then
      some (s.setClient i { s.clients i with cmd := cmd, timestamp := now })
    else none
  | .server belts => some { s with belts := belts }

abbrev IpcStep {n : ℕ} (cfg : Profile) (keep : ℕ) : Ipc n → IpcEvent n → Ipc n → Prop :=
  StepOf (ipcNext cfg keep)

end WebTester.Librun
