import WebTester.Accumulator
import WebTester.CmdParser
import WebTester.IpcFraming
import WebTester.LoginThrottle
import WebTester.Md5Crypt

/-!
# Sessions of the IPC server

Clients send commands, log in with a name and a password, and are frozen for a while when they fail.
`log` records what was done for which slot of the table; the program keeps no such record. What the
commands `stat` and `pipe` do with their lists is left to the modules of these lists. Whether an
address is blacklisted is an input of the loop.
-/
namespace WebTester.IpcSession
open CString Transition
open Scheduler (Moment second)

/-- The keys `password-hash` and `access` of a user. -/
structure Account where
  hash : Option CStr
  access : Option ℤ
  deriving DecidableEq, Repr

/-- `freeze` is `incorrect_login_delay`, a `long` of milliseconds. -/
structure Config where
  accounts : CStr → Option Account
  throttle : Login.Config
  blacklistOnTriesExpired : Bool
  freeze : ℤ
  version : String

/-- The microseconds for which `ipc_client_frozen` waits: the `int` that `ipc_client_freeze` takes
is multiplied by 1000 as an `int`, and compared as a 64-bit number without sign. -/
def Config.freezeUsecs (cfg : Config) : ℕ :=
  ((BitVec.ofInt 32 cfg.freeze * 1000).signExtend 64).toNat

/-- `ipc_client_t`. `frozen` is the time of `ipc_client_freeze` while the flag is set. -/
structure Client where
  connected : Bool
  cmd : Option CStr
  authontificated : Bool
  login : CStr
  access : ℤ
  ip : CStr
  frozen : Option Moment
  deriving DecidableEq

def Client.initial : Client := ⟨false, none, false, [], 0, [], none⟩

/-- What a command does beside its answer. -/
inductive Effect
  | uptime
  | tail
  | queue (start : Bool)
  | belts (start : Bool)
  | blacklist (ip : CStr)
  | unblacklist (ip : CStr)
  | stat (args : List CStr)
  | pipe (args : List CStr)
  | tests (problem range : CStr)
  deriving DecidableEq, Repr

inductive Entry (n : ℕ)
  | connected (i : Fin n) (ip : CStr)
  | left (i : Fin n)
  | ran (i : Fin n) (argv : List CStr) (time : ℕ)
  | login (i : Fin n) (user password : CStr)
  | failed (i : Fin n) (time : ℕ)
  | logout (i : Fin n)
  | locked (ip : CStr)
  | did (i : Fin n) (e : Effect)
  | answered (i : Fin n) (text : String)
  deriving DecidableEq

/-- `clock` is the last time that was read. -/
structure Server (n : ℕ) where
  clients : Fin n → Client
  queue : Bool
  belts : Bool
  logins : Login.Pool
  clock : ℕ
  log : List (Entry n)

/-- The times that are read while a command is executed. -/
structure Times where
  check : Moment
  strip : ℤ
  compare : ℤ
  stamp : ℤ
  freeze : Moment

variable {n : ℕ}

namespace Server

def initial (n : ℕ) : Server n := ⟨fun _ => .initial, false, false, fun _ => none, 0, []⟩

def setClient (i : Fin n) (c : Client) (s : Server n) : Server n :=
  { s with clients := Function.update s.clients i c }

def record (x : Entry n) (s : Server n) : Server n := { s with log := s.log ++ [x] }

/-- `IPC_PROC_ANSWER`. -/
def answer (i : Fin n) (text : String) (s : Server n) : Server n := s.record (.answered i text)

/-- `ipc_disconnect_client`. -/
def disconnect (i : Fin n) (sendInfo : Bool) (s : Server n) : Server n :=
  if (s.clients i).connected then
    let s := if sendInfo then s.answer i "You have been disconnected from server.\n" else s
    (s.setClient i { s.clients i with
      connected := false, authontificated := false, access := 0, login := [] }).record (.left i)
  else s

/-- `ipc_init_client`, in the first free slot. -/
def connect (ip : CStr) (s : Server n) : Server n :=
  match (List.finRange n).find? fun i => !(s.clients i).connected with
  | none => s
  | some i =>
    let s := s.setClient i { s.clients i with
      connected := true, authontificated := false, access := 0, login := [], ip := ip }
    (s.record (.connected i ip)).answer i <| "+OK\n------------------------\n" ++
      "WebTester IPC interface greets you.\n" ++
      "You must authentificate yourself to get access to restricted stuff.\n" ++
      "Type `help' for help :)\n------------------------\n\n"

/-! ## The commands -/

/-- `IPC_ADMIN_REQUIRED`. -/
def admin (i : Fin n) (s : Server n) (body : Server n) : Server n :=
  if (s.clients i).access < 7 then
    s.answer i "-ERR You must have administrator previleges to run this command\n"
  else body

def ipcProcExit (i : Fin n) (argv : List CStr) (s : Server n) : Server n :=
  if argv.length ≠ 1 then s.answer i "-ERR Usaage: `exit'\n"
  else (s.answer i "+OK ").disconnect i true

def defaultProcs : List (String × String) := [
  ("exit", "Close connection to server"),
  ("help", "Prints this message"),
  ("login", "Login to system"),
  ("tail", "Print tail of CORE output buffer"),
  ("uptime", "CORE's uptime")]

def ipcHelp (i : Fin n) (argv : List CStr) (s : Server n) : Server n :=
  if 1 < argv.length then s.answer i "-ERR Usage: `help`\n"
  else
    let s := s.answer i <| "+OK WebTester Server IPC console help\n\n" ++
      "List of default registered procedures:\n"
    let s := defaultProcs.foldl (fun s p => s.answer i ("  " ++ p.1 ++ "\t\t - " ++ p.2 ++ "\n")) s
    s.answer i <| "When you run difficult procedures without parameters, " ++
      "you'll receive short help about usage of this procedures.\n"

/-- The user's key; its path is cut to a buffer. -/
def account (cfg : Config) (user : CStr) : Option Account :=
  cfg.accounts (user.take (1023 - "Server/IPC/Users/".length))

/-- The comparison of the hashes; a hash that fills its buffer has no end there. -/
def accepted (a : Account) (password : CStr) : Option Bool :=
  if (a.hash.getD []).length < 1024 then
    Md5.passwordAccepted .zero .zero (a.hash.getD []) password
  else none

/-- The label `__fail_` of `ipc_login`. -/
def loginFailed (cfg : Config) (i : Fin n) (t : Times) (s : Server n) : Option (Server n) :=
  let c := s.clients i
  (Login.addLoginStamp cfg.throttle t.stamp c.ip s.logins).map fun logins =>
    let s := { s with logins := logins }
    let s := (s.setClient i { c with frozen := some t.freeze }).record (.failed i t.freeze.usecs)
    s.answer i "-ERR Bad OGIN or ASSWORD\n"

/-- `ipc_login` when the password was right. A name that fills the buffer of the client runs over
into `access`. -/
def loginDone (i : Fin n) (user password : CStr) (a : Account) (s : Server n) :
    Option (Server n) :=
  if user.length < 32 then
    let c := s.clients i
    let s := s.setClient i { c with
      authontificated := true, login := user, access := a.access.getD c.access }
    let s := { s with logins := Login.unsetLoginStamps c.ip s.logins }
    some ((s.record (.login i user password)).answer i "+OK\n")
  else none

/-- `ipc_login`. -/
def ipcLogin (cfg : Config) (i : Fin n) (argv : List CStr) (t : Times) (s : Server n) :
    Option (Server n) :=
  match argv with
  | [_, user, password] =>
    let c := s.clients i
    let r := Login.loginAllowed cfg.throttle t.strip t.compare c.ip s.logins
    let s := { s with logins := r.1 }
    if !r.2 then
      let s := s.answer i <| "-ERR You isn't allowed to login to this service. " ++
        "Maybe, you have tried to authontificate to frequently.\n"
      let s := if cfg.blacklistOnTriesExpired then
          (s.answer i "Your IP has been blacklisted,\n").record (.locked c.ip)
        else s
      some (s.disconnect i true)
    else if c.authontificated then
      some (s.answer i "-ERR You have been already authontificated\n")
    else
      match account cfg user with
      | none => s.loginFailed cfg i t
      | some a => (accepted a password).bind fun ok =>
        if ok then s.loginDone i user password a else s.loginFailed cfg i t
  | _ => some (s.answer i "-ERR Usage: `login <OGIN> <ASSWORD>`\n")

def ipcLogout (i : Fin n) (s : Server n) : Server n :=
  let c := s.clients i
  if !c.authontificated then s.answer i "-ERR You didn't pass authontification\n"
  else
    let s := s.setClient i { c with authontificated := false, login := [], access := 0 }
    (s.record (.logout i)).answer i "+OK\n"

def ipcTail (i : Fin n) (s : Server n) : Server n := s.admin i (s.record (.did i .tail))

def ipcUptime (i : Fin n) (s : Server n) : Server n :=
  if !(s.clients i).authontificated then
    s.answer i "-ERR You must be authentificated to run this command\n"
  else s.record (.did i .uptime)

/-- The loops of `ipc_ip`. -/
def eachIp (i : Fin n) (e : CStr → Effect) (ips : List CStr) (s : Server n) : Server n :=
  (ips.foldl (fun s ip => s.record (.did i (e ip))) s).answer i "+OK\n"

def ipcIp (i : Fin n) (argv : List CStr) (s : Server n) : Server n :=
  s.admin i <|
    match argv with
    | _ :: action :: ip :: ips =>
      if action = "blacklist".toList then s.eachIp i .blacklist (ip :: ips)
      else if action = "unblacklist".toList then s.eachIp i .unblacklist (ip :: ips)
      else s.answer i "-ERR Usage: `ip [blacklist|unblacklist] <list of IPs>`\n"
    | _ => s.answer i "-ERR Usage: `ip [blacklist|unblacklist] <list of IPs>`\n"

def ipcVersion (cfg : Config) (i : Fin n) (argv : List CStr) (s : Server n) : Server n :=
  if argv.length ≠ 1 then s.answer i "-ERR Usage: `vesrion`\n"
  else s.answer i ("+OK " ++ cfg.version ++ "\n")

/-- What `ipc_queue` and `ipc_belts` have in common. -/
def switch (i : Fin n) (argv : List CStr) (running : Bool)
    (usage started stopped starting stopping : String) (set : Bool → Server n → Server n)
    (e : Bool → Effect) (s : Server n) : Server n :=
  match argv with
  | [_, action] =>
    if action = "start".toList then
      s.admin i <|
        if running then s.answer i started
        else (set true (s.record (.did i (e true)))).answer i starting
    else if action = "stop".toList then
      s.admin i <|
        if !running then s.answer i stopped
        else (set false (s.record (.did i (e false)))).answer i stopping
    else s.answer i usage
  | _ => s.answer i usage

def ipcQueue (i : Fin n) (argv : List CStr) (s : Server n) : Server n :=
  s.switch i argv s.queue "-ERR: Usage: `queue [start|stop]`\n" "-ERR Queue is already started\n"
    "-ERR Queue is already stopped\n" "+OK Queue started\n" "+OK Queue stopped \n"
    (fun b s => { s with queue := b }) .queue

def ipcBelts (i : Fin n) (argv : List CStr) (s : Server n) : Server n :=
  s.switch i argv s.belts "-ERR: Usage: `belts [start|stop]`\n" "-ERR Belts is already started\n"
    "-ERR Belts is already stopped\n" "+OK Belts started\n" "+OK Belts stopped\n"
    (fun b s => { s with belts := b }) .belts

def ipcStat (i : Fin n) (argv : List CStr) (s : Server n) : Server n :=
  s.admin i (s.record (.did i (.stat argv)))

def ipcPipe (i : Fin n) (argv : List CStr) (s : Server n) : Server n :=
  s.admin i (s.record (.did i (.pipe argv)))

def informaticsIpc (i : Fin n) (argv : List CStr) (s : Server n) : Server n :=
  s.admin i <|
    match argv with
    | [_, action, problem, range] =>
      if action = "get_tests".toList then s.record (.did i (.tests problem range))
      else s.answer i "-ERR Usage: `informatics` get_tests <problem-id> <tests-range>\n"
    | _ => s.answer i "-ERR Usage: `informatics` get_tests <problem-id> <tests-range>\n"

end Server

/-- The handlers that are registered. -/
inductive Proc
  | exit | help | login | logout | tail | uptime | ip | version | queue | belts | stat | pipe
  | informatics
  deriving DecidableEq, Repr

/-- `ipc_cmd_context`. -/
def procs : List (String × Proc) := [
  ("exit", .exit), ("help", .help), ("login", .login), ("logout", .logout), ("tail", .tail),
  ("uptime", .uptime), ("ip", .ip), ("version", .version), ("queue", .queue), ("belts", .belts),
  ("stat", .stat), ("pipe", .pipe), ("informatics", .informatics)]

namespace Server

def entryPoint (cfg : Config) (i : Fin n) (argv : List CStr) (t : Times) (s : Server n) :
    Proc → Option (Server n)
  | .exit => some (s.ipcProcExit i argv)
  | .help => some (s.ipcHelp i argv)
  | .login => s.ipcLogin cfg i argv t
  | .logout => some (s.ipcLogout i)
  | .tail => some (s.ipcTail i)
  | .uptime => some (s.ipcUptime i)
  | .ip => some (s.ipcIp i argv)
  | .version => some (s.ipcVersion cfg i argv)
  | .queue => some (s.ipcQueue i argv)
  | .belts => some (s.ipcBelts i argv)
  | .stat => some (s.ipcStat i argv)
  | .pipe => some (s.ipcPipe i argv)
  | .informatics => some (s.informaticsIpc i argv)

/-- `cmd_context_execute_proc`, and the answer where there is no such command. -/
def execute (cfg : Config) (i : Fin n) (t : Times) (s : Server n) : List CStr → Option (Server n)
  | [] => some s
  | name :: args =>
    let s := s.record (.ran i (name :: args) t.check.usecs)
    match procs.find? fun p => p.1.toList = name with
    | none => some (s.answer i ("-ERR Unknown command: `" ++ String.ofList name ++ "'\n"))
    | some p => s.entryPoint cfg i (name :: args) t p.2

/-- `ipc_client_frozen`. -/
def clientFrozen (cfg : Config) (now : Moment) (c : Client) : Client × Bool :=
  match c.frozen with
  | none => (c, false)
  | some since =>
    if since.checkTimeDelta now cfg.freezeUsecs then ({ c with frozen := none }, false)
    else (c, true)

/-- `ipc_parse_client`. The flag is looked at only where there is a command. -/
def parseClient (cfg : Config) (i : Fin n) (t : Times) (s : Server n) : Option (Server n) :=
  let c := s.clients i
  if c.cmd.getD [] = [] then some s
  else
    let (c, frozen) := clientFrozen cfg t.check c
    let (cmd, commands) := Ipc.ipcParseClient frozen c.cmd
    commands.foldlM (fun s command => (Cmd.parseBuf command).bind fun r =>
      s.execute cfg i t r.1.reduceOption) (s.setClient i { c with cmd := cmd })

/-- `ipc_parse_clients`, for one slot. The clock does not go back. -/
def parseNext (cfg : Config) (times : Fin n → Times) (s : Server n) (i : Fin n) :
    Option (Server n) :=
  if (s.clients i).connected then
    let t := times i
    if s.clock ≤ t.check.usecs ∧ t.check.usecs ≤ t.freeze.usecs then
      (s.parseClient cfg i t).map fun s => { s with clock := t.freeze.usecs }
    else none
  else some s

end Server

/-- What `ipc_interact` finds at a client. -/
inductive Input
  | blacklisted
  | lost
  | recv (r : Ipc.Recv)

/-- The first loop of `ipc_interact`, for one slot. -/
def Server.interactNext (inputs : Fin n → Input) (s : Server n) (i : Fin n) : Server n :=
  if (s.clients i).connected then
    match inputs i with
    | .blacklisted => (s.answer i "Your' IP has been blacklisted.\n").disconnect i false
    | .lost => s.disconnect i false
    | .recv r => s.setClient i { s.clients i with cmd := Ipc.receive (s.clients i).cmd r }
  else s

/-- An iteration of `wt_ipc_mainloop` is `ipc_listen`, which may find a connection from an address
that is not blacklisted, and `ipc_interact`. -/
structure Turn (n : ℕ) where
  arrival : Option CStr
  inputs : Fin n → Input
  times : Fin n → Times

def Server.next (cfg : Config) (s : Server n) (turn : Turn n) : Option (Server n) :=
  let s := turn.arrival.elim s s.connect
  let s := (List.finRange n).foldl (Server.interactNext turn.inputs) s
  (List.finRange n).foldlM (Server.parseNext cfg turn.times) s

/-! ## The clock

It is read where commands are executed only. -/

theorem Server.clock_disconnect (i : Fin n) (sendInfo : Bool) (s : Server n) :
    (s.disconnect i sendInfo).clock = s.clock := by
  simp only [disconnect]
  split
  · split <;> rfl
  · rfl

theorem Server.clock_connect (ip : CStr) (s : Server n) : (s.connect ip).clock = s.clock := by
  simp only [connect]
  split <;> rfl

theorem Server.clock_interactNext (inputs : Fin n → Input) (s : Server n) (i : Fin n) :
    (s.interactNext inputs i).clock = s.clock := by
  rw [interactNext]
  split
  · split
    · exact clock_disconnect i false _
    · exact clock_disconnect i false s
    · rfl
  · rfl

/-! ## What a command can do -/

/-- A step of a command of slot `i`. -/
inductive Move (cfg : Config) (i : Fin n) (times : Times) (s : Server n) : Server n → Prop
  | answer (text : String) : Move cfg i times s (s.answer i text)
  | locked (ip : CStr) : Move cfg i times s (s.record (.locked ip))
  | switched (t : Server n) (hclients : t.clients = s.clients) (hlog : t.log = s.log) :
      Move cfg i times s t
  | did (e : Effect) (haccess : 7 ≤ (s.clients i).access) :
      Move cfg i times s (s.record (.did i e))
  | uptime (hauth : (s.clients i).authontificated = true) :
      Move cfg i times s (s.record (.did i .uptime))
  | disconnect (sendInfo : Bool) : Move cfg i times s (s.disconnect i sendInfo)
  | login (user password : CStr) (a : Account) (hauth : (s.clients i).authontificated = false)
      (ha : Server.account cfg user = some a) (hpassword : Server.accepted a password = some true) :
      Move cfg i times s ((s.setClient i { s.clients i with
        authontificated := true, login := user,
        access := a.access.getD (s.clients i).access }).record (.login i user password))
  | failed : Move cfg i times s ((s.setClient i { s.clients i with
      frozen := some times.freeze }).record (.failed i times.freeze.usecs))
  | logout : Move cfg i times s ((s.setClient i { s.clients i with
      authontificated := false, login := [], access := 0 }).record (.logout i))

/-- Steps of one command. -/
abbrev Moves (cfg : Config) (i : Fin n) (times : Times) : Server n → Server n → Prop :=
  Relation.ReflTransGen (Move cfg i times)

namespace Moves

variable {cfg : Config} {s t : Server n} {i : Fin n} {times : Times}

theorem answer (h : Moves cfg i times s t) (text : String) :
    Moves cfg i times s (t.answer i text) :=
  h.tail (.answer text)

theorem admin (h : 7 ≤ (s.clients i).access → Moves cfg i times s t) :
    Moves cfg i times s (s.admin i t) := by
  rw [Server.admin]
  split
  · exact answer .refl _
  · exact h (by omega)

theorem did (e : Effect) (h : 7 ≤ (s.clients i).access) :
    Moves cfg i times s (s.record (.did i e)) :=
  .single (.did e h)

theorem ipcHelp (argv : List CStr) : Moves cfg i times s (s.ipcHelp i argv) := by
  rw [Server.ipcHelp]
  split
  · exact answer .refl _
  · refine answer ?_ _
    induction Server.defaultProcs using List.reverseRecOn with
    | nil => exact answer .refl _
    | append_singleton l p ih =>
      rw [List.foldl_append]
      exact ih.answer _

theorem loginFailed (h : s.loginFailed cfg i times = some t) : Moves cfg i times s t := by
  obtain ⟨logins, -, rfl⟩ := Option.map_eq_some_iff.1 h
  have hstamp : Move cfg i times s { s with logins := logins } := .switched _ rfl rfl
  exact answer (.head hstamp (.single .failed)) _

theorem loginDone {user password : CStr} {a : Account}
    (hauth : (s.clients i).authontificated = false) (ha : Server.account cfg user = some a)
    (hpassword : Server.accepted a password = some true)
    (h : s.loginDone i user password a = some t) : Moves cfg i times s t := by
  rw [Server.loginDone] at h
  split at h
  · cases h
    have hunset : Move cfg i times s { s with
        logins := Login.unsetLoginStamps (s.clients i).ip s.logins } := .switched _ rfl rfl
    exact answer (.head hunset (.single (.login user password a hauth ha hpassword))) _
  · cases h

theorem ipcLogin {argv : List CStr} (h : s.ipcLogin cfg i argv times = some t) :
    Moves cfg i times s t := by
  simp only [Server.ipcLogin] at h
  split at h
  case h_2 =>
    cases h
    exact answer .refl _
  case h_1 _ user password =>
    -- the pool is stripped first
    refine .head (.switched { s with logins := (Login.loginAllowed cfg.throttle times.strip
      times.compare (s.clients i).ip s.logins).1 } rfl rfl) ?_
    split at h
    · cases h
      refine .tail ?_ (.disconnect true)
      split
      · exact ((answer .refl _).answer _).tail (.locked _)
      · exact answer .refl _
    split at h
    · cases h
      exact answer .refl _
    rename_i hauth
    split at h
    · exact loginFailed h
    rename_i a ha
    obtain ⟨ok, hok, h⟩ := Option.bind_eq_some_iff.1 h
    split at h
    · rename_i htrue
      exact loginDone (by simpa using hauth) ha (htrue ▸ hok) h
    · exact loginFailed h

theorem ipcLogout : Moves cfg i times s (s.ipcLogout i) := by
  rw [Server.ipcLogout]
  split
  · exact answer .refl _
  · exact answer (.single .logout) _

theorem ipcUptime : Moves cfg i times s (s.ipcUptime i) := by
  rw [Server.ipcUptime]
  split
  · exact answer .refl _
  · rename_i hauth
    exact .single (.uptime (by simpa using hauth))

/-- An administrator stays one through the addresses. -/
theorem eachIp (e : CStr → Effect) (ips : List CStr) (haccess : 7 ≤ (s.clients i).access) :
    Moves cfg i times s (s.eachIp i e ips) := by
  rw [Server.eachIp]
  refine answer ?_ _
  induction ips generalizing s with
  | nil => exact .refl
  | cons ip ips ih => exact .head (.did (e ip) haccess) (ih haccess)

theorem ipcIp (argv : List CStr) : Moves cfg i times s (s.ipcIp i argv) := by
  refine admin fun haccess => ?_
  split
  · split
    · exact eachIp .blacklist _ haccess
    split
    · exact eachIp .unblacklist _ haccess
    · exact answer .refl _
  · exact answer .refl _

theorem switch (argv : List CStr) (running : Bool)
    (usage started stopped starting stopping : String) {set : Bool → Server n → Server n}
    {e : Bool → Effect} (hset : ∀ b s, (set b s).clients = s.clients ∧ (set b s).log = s.log) :
    Moves cfg i times s
      (s.switch i argv running usage started stopped starting stopping set e) := by
  have hswitch : ∀ b, 7 ≤ (s.clients i).access →
      Moves cfg i times s (set b (s.record (.did i (e b)))) := fun b haccess =>
    (did (e b) haccess).tail (.switched _ (hset b _).1 (hset b _).2)
  unfold Server.switch
  split
  · split
    · refine admin fun haccess => ?_
      split
      · exact answer .refl _
      · exact (hswitch true haccess).answer _
    split
    · refine admin fun haccess => ?_
      split
      · exact answer .refl _
      · exact (hswitch false haccess).answer _
    · exact answer .refl _
  · exact answer .refl _

theorem informaticsIpc (argv : List CStr) : Moves cfg i times s (s.informaticsIpc i argv) := by
  refine admin fun haccess => ?_
  split
  · split
    · exact did _ haccess
    · exact answer .refl _
  · exact answer .refl _

/-- Every command. -/
theorem entryPoint {argv : List CStr} {p : Proc} (h : s.entryPoint cfg i argv times p = some t) :
    Moves cfg i times s t := by
  cases p with
  | login => exact ipcLogin h
  | exit =>
    cases h
    rw [Server.ipcProcExit]
    split
    · exact answer .refl _
    · exact (answer .refl _).tail (.disconnect true)
  | help =>
    cases h
    exact ipcHelp argv
  | logout =>
    cases h
    exact ipcLogout
  | tail =>
    cases h
    exact admin (did .tail)
  | uptime =>
    cases h
    exact ipcUptime
  | ip =>
    cases h
    exact ipcIp argv
  | version =>
    cases h
    rw [Server.ipcVersion]
    split <;> exact answer .refl _
  | queue =>
    cases h
    exact switch argv _ _ _ _ _ _ fun _ _ => ⟨rfl, rfl⟩
  | belts =>
    cases h
    exact switch argv _ _ _ _ _ _ fun _ _ => ⟨rfl, rfl⟩
  | stat =>
    cases h
    exact admin (did _)
  | pipe =>
    cases h
    exact admin (did _)
  | informatics =>
    cases h
    exact informaticsIpc argv

end Moves

/-- A command is executed: it is recorded, and then come its steps. -/
theorem execute_moves {cfg : Config} {s t : Server n} {i : Fin n} {times : Times}
    {argv : List CStr} (h : s.execute cfg i times argv = some t) :
    t = s ∨ Moves cfg i times (s.record (.ran i argv times.check.usecs)) t := by
  cases argv with
  | nil =>
    cases h
    exact .inl rfl
  | cons name args =>
    rw [Server.execute] at h
    split at h
    · cases h
      exact .inr (.answer .refl _)
    · exact .inr (.entryPoint h)

/-! ## What is allowed -/

/-- What an entry does to the session of slot `i`. -/
def Entry.session (i : Fin n) : Entry n → Option (Option CStr)
  | .login j user _ => if j = i then some (some user) else none
  | .connected j _ | .left j | .logout j => if j = i then some none else none
  | _ => none

/-- The user who is logged in at slot `i` after `log`. -/
def session (i : Fin n) (log : List (Entry n)) : Option CStr :=
  log.foldl (fun user x => (x.session i).getD user) none

theorem session_concat (i : Fin n) (log : List (Entry n)) (x : Entry n) :
    session i (log ++ [x]) = (x.session i).getD (session i log) := by
  rw [session, List.foldl_append]
  rfl

/-- The time is told to every user, everything else is for administrators. -/
def Effect.Allowed (cfg : Config) (user : CStr) (e : Effect) : Prop :=
  e = .uptime ∨ ∃ a access, Server.account cfg user = some a ∧ a.access = some access ∧ 7 ≤ access

/-- A command has an effect for the user who is logged in; a login needs the password and ends no
other session. -/
def Justified (cfg : Config) (log : List (Entry n)) : Entry n → Prop
  | .did i e => ∃ user, session i log = some user ∧ e.Allowed cfg user
  | .login i user password => session i log = none ∧
    ∃ a, Server.account cfg user = some a ∧ Server.accepted a password = some true
  | _ => True

/-- A command runs when the delay after every failure of its slot is over. -/
def Thawed (delay : ℕ) (log : List (Entry n)) : Entry n → Prop
  | .ran i _ time => ∀ since, .failed i since ∈ log → since + delay < time
  | _ => True

def Client.Holds (cfg : Config) (c : Client) : Option CStr → Prop
  | none => c.authontificated = false ∧ c.access = 0
  | some user => c.authontificated = true ∧ c.login = user ∧
    ∃ a, Server.account cfg user = some a ∧ c.access = a.access.getD 0

theorem Client.Holds.congr {cfg : Config} {c c' : Client} {user : Option CStr}
    (h : c.Holds cfg user) (hauth : c'.authontificated = c.authontificated)
    (hlogin : c'.login = c.login) (haccess : c'.access = c.access) : c'.Holds cfg user := by
  cases user with
  | none => exact ⟨hauth.trans h.1, haccess.trans h.2⟩
  | some user =>
    obtain ⟨hc, huser, a, ha, hvalue⟩ := h
    exact ⟨hauth.trans hc, hlogin.trans huser, a, ha, haccess.trans hvalue⟩

/-- A failure of slot `i` is remembered until its delay is over. -/
def Client.Waits (cfg : Config) (now : ℕ) (c : Client) (since : ℕ) : Prop :=
  (∃ m, c.frozen = some m ∧ since ≤ m.usecs) ∨ since + cfg.freezeUsecs < now

theorem ipcParseClient_frozen (cmd : Option CStr) : (Ipc.ipcParseClient true cmd).2 = [] := by
  rcases cmd with _ | _ | ⟨c, cs⟩ <;> rfl

/-- At most one command is found. -/
theorem ipcParseClient_commands (cmd : Option CStr) :
    (Ipc.ipcParseClient false cmd).2 = [] ∨
      ∃ command, (Ipc.ipcParseClient false cmd).2 = [command] := by
  rcases cmd with _ | _ | ⟨c, cs⟩
  · exact .inl rfl
  · exact .inl rfl
  · exact .inr ⟨_, rfl⟩

structure Inv (cfg : Config) (now : ℕ) (s : Server n) : Prop where
  holds : ∀ i, (s.clients i).Holds cfg (session i s.log)
  waits : ∀ i since, .failed i since ∈ s.log → since ≤ now ∧ (s.clients i).Waits cfg now since
  justified : Throughout (Justified cfg) s.log
  thawed : Throughout (Thawed cfg.freezeUsecs) s.log

namespace Inv

variable {cfg : Config} {s t : Server n} {i : Fin n} {now : ℕ} {times : Times}

theorem initial (n : ℕ) : Inv cfg 0 (.initial n) :=
  ⟨fun _ => ⟨rfl, rfl⟩, fun _ _ h => (List.not_mem_nil h).elim, .nil, .nil⟩

theorem congr (h : Inv cfg now s) (hclients : t.clients = s.clients) (hlog : t.log = s.log) :
    Inv cfg now t := by
  refine ⟨?_, ?_, ?_, ?_⟩ <;> rw [hlog]
  · rw [hclients]
    exact h.holds
  · rw [hclients]
    exact h.waits
  · exact h.justified
  · exact h.thawed

theorem later (h : Inv cfg now s) {now' : ℕ} (hle : now ≤ now') : Inv cfg now' s where
  holds := h.holds
  waits i since hsince := by
    obtain ⟨hpast, hwaits⟩ := h.waits i since hsince
    refine ⟨Nat.le_trans hpast hle, hwaits.imp_right fun hover => ?_⟩
    exact Nat.lt_of_lt_of_le hover hle
  justified := h.justified
  thawed := h.thawed

/-- A slot changes with the entry that says so. -/
theorem change (h : Inv cfg now s) (c : Client) (x : Entry n)
    (hc : c.Holds cfg ((x.session i).getD (session i s.log)))
    (hother : ∀ j, j ≠ i → x.session j = none)
    (hwaits : ∀ since, .failed i since ∈ s.log ++ [x] → since ≤ now ∧ c.Waits cfg now since)
    (hfailed : ∀ j since, j ≠ i → x ≠ .failed j since)
    (hjustified : Justified cfg s.log x) (hthawed : Thawed cfg.freezeUsecs s.log x) :
    Inv cfg now ((s.setClient i c).record x) where
  holds j := by
    show ((Function.update s.clients i c) j).Holds cfg (session j (s.log ++ [x]))
    rw [session_concat]
    by_cases hj : j = i
    · rw [hj, Function.update_self]
      exact hc
    · rw [Function.update_of_ne hj, hother j hj]
      exact h.holds j
  waits j since hsince := by
    show since ≤ now ∧ ((Function.update s.clients i c) j).Waits cfg now since
    by_cases hj : j = i
    · rw [hj, Function.update_self]
      exact hwaits since (hj ▸ hsince)
    · rw [Function.update_of_ne hj]
      rcases List.mem_append.1 hsince with hold | hnew
      · exact h.waits j since hold
      · exact absurd (List.mem_singleton.1 hnew).symm (hfailed j since hj)
  justified := h.justified.concat hjustified
  thawed := h.thawed.concat hthawed

/-- An entry beside the sessions and the failures. -/
theorem record (h : Inv cfg now s) (x : Entry n) (hsession : ∀ j, x.session j = none)
    (hfailed : ∀ j since, x ≠ .failed j since) (hjustified : Justified cfg s.log x)
    (hthawed : Thawed cfg.freezeUsecs s.log x) : Inv cfg now (s.record x) where
  holds j := by
    show (s.clients j).Holds cfg (session j (s.log ++ [x]))
    rw [session_concat, hsession j]
    exact h.holds j
  waits j since hsince := by
    rcases List.mem_append.1 hsince with hold | hnew
    · exact h.waits j since hold
    · exact absurd (List.mem_singleton.1 hnew).symm (hfailed j since)
  justified := h.justified.concat hjustified
  thawed := h.thawed.concat hthawed

theorem answer (h : Inv cfg now s) (text : String) : Inv cfg now (s.answer i text) :=
  h.record _ (fun _ => rfl) (fun _ _ h => by cases h) trivial trivial

/-- The buffer of a slot changes, or its delay is over. -/
theorem setClient (h : Inv cfg now s) (c : Client)
    (hc : c.Holds cfg (session i s.log))
    (hwaits : ∀ since, .failed i since ∈ s.log → c.Waits cfg now since) :
    Inv cfg now (s.setClient i c) where
  holds j := by
    show ((Function.update s.clients i c) j).Holds cfg (session j s.log)
    by_cases hj : j = i
    · rw [hj, Function.update_self]
      exact hc
    · rw [Function.update_of_ne hj]
      exact h.holds j
  waits j since hsince := by
    refine ⟨(h.waits j since hsince).1, ?_⟩
    show ((Function.update s.clients i c) j).Waits cfg now since
    by_cases hj : j = i
    · rw [hj, Function.update_self]
      exact hwaits since (hj ▸ hsince)
    · rw [Function.update_of_ne hj]
      exact (h.waits j since hsince).2
  justified := h.justified
  thawed := h.thawed

/-- A slot changes, and no failure is recorded. -/
theorem change_of_frozen (h : Inv cfg now s) {c : Client} {x : Entry n}
    (hc : c.Holds cfg ((x.session i).getD (session i s.log)))
    (hother : ∀ j, j ≠ i → x.session j = none) (hfrozen : c.frozen = (s.clients i).frozen)
    (hfailed : ∀ j since, x ≠ .failed j since)
    (hjustified : Justified cfg s.log x) (hthawed : Thawed cfg.freezeUsecs s.log x) :
    Inv cfg now ((s.setClient i c).record x) := by
  refine h.change c x hc hother (fun since hsince => ?_) (fun j since _ => hfailed j since)
    hjustified hthawed
  rcases List.mem_append.1 hsince with hold | hnew
  · rw [Client.Waits, hfrozen]
    exact h.waits i since hold
  · exact absurd (List.mem_singleton.1 hnew).symm (hfailed i since)

theorem disconnect (h : Inv cfg now s) (sendInfo : Bool) :
    Inv cfg now (s.disconnect i sendInfo) := by
  have hclosed : ∀ {s : Server n}, Inv cfg now s → Inv cfg now ((s.setClient i { s.clients i with
      connected := false, authontificated := false, access := 0, login := [] }).record (.left i)) :=
    fun h => h.change_of_frozen (by rw [Entry.session, if_pos rfl]; exact ⟨rfl, rfl⟩)
      (fun j hj => if_neg hj.symm) rfl (fun _ _ h => by cases h) trivial trivial
  simp only [Server.disconnect]
  split
  · split
    · exact hclosed (h.answer _)
    · exact hclosed h
  · exact h

theorem connect (h : Inv cfg now s) (ip : CStr) : Inv cfg now (s.connect ip) := by
  simp only [Server.connect]
  split
  · exact h
  · refine answer ?_ _
    exact h.change_of_frozen (by rw [Entry.session, if_pos rfl]; exact ⟨rfl, rfl⟩)
      (fun j hj => if_neg hj.symm) rfl (fun _ _ h => by cases h) trivial trivial

/-- A slot with the access of an administrator has one logged in. -/
theorem allowed (h : Inv cfg now s) (haccess : 7 ≤ (s.clients i).access) (e : Effect) :
    ∃ user, session i s.log = some user ∧ e.Allowed cfg user := by
  have hholds := h.holds i
  cases hsession : session i s.log with
  | none =>
    rw [hsession] at hholds
    have hzero : (s.clients i).access = 0 := hholds.2
    omega
  | some user =>
    rw [hsession] at hholds
    obtain ⟨-, -, a, ha, hvalue⟩ := hholds
    refine ⟨user, rfl, .inr ⟨a, (s.clients i).access, ha, ?_, haccess⟩⟩
    cases hkey : a.access with
    | none =>
      rw [hkey, Option.getD_none] at hvalue
      omega
    | some access => rw [hvalue, hkey, Option.getD_some]

/-- One step of a command. -/
theorem move (h : Inv cfg times.freeze.usecs s) (hmove : Move cfg i times s t) :
    Inv cfg times.freeze.usecs t := by
  cases hmove with
  | answer text => exact h.answer text
  | locked ip => exact h.record _ (fun _ => rfl) (fun _ _ h => by cases h) trivial trivial
  | switched _ hclients hlog => exact h.congr hclients hlog
  | did e haccess =>
    exact h.record _ (fun _ => rfl) (fun _ _ h => by cases h) (h.allowed haccess e) trivial
  | uptime hauth =>
    refine h.record _ (fun _ => rfl) (fun _ _ h => by cases h) ?_ trivial
    have hholds := h.holds i
    cases hsession : session i s.log with
    | none =>
      rw [hsession] at hholds
      exact absurd hauth (by rw [hholds.1]; decide)
    | some user => exact ⟨user, hsession, .inl rfl⟩
  | disconnect sendInfo => exact h.disconnect sendInfo
  | login user password a hauth ha hpassword =>
    have hholds := h.holds i
    cases hsession : session i s.log with
    | some other =>
      rw [hsession] at hholds
      exact absurd hholds.1 (by rw [hauth]; decide)
    | none =>
      rw [hsession] at hholds
      refine h.change_of_frozen ?_ (fun j hj => if_neg hj.symm) rfl (fun _ _ h => by cases h)
        ⟨hsession, a, ha, hpassword⟩ trivial
      rw [Entry.session, if_pos rfl]
      exact ⟨rfl, rfl, a, ha, by rw [hholds.2]⟩
  | failed =>
    refine h.change _ _ (h.holds i) (fun _ _ => rfl) (fun since hsince => ?_)
      (fun j since hj heq => hj ?_) trivial trivial
    · have hpast : since ≤ times.freeze.usecs := by
        rcases List.mem_append.1 hsince with hold | hnew
        · exact (h.waits i since hold).1
        · cases List.mem_singleton.1 hnew
          exact Nat.le_refl _
      exact ⟨hpast, .inl ⟨times.freeze, rfl, hpast⟩⟩
    · cases heq
      rfl
  | logout =>
    exact h.change_of_frozen (by rw [Entry.session, if_pos rfl]; exact ⟨rfl, rfl⟩)
      (fun j hj => if_neg hj.symm) rfl (fun _ _ h => by cases h) trivial trivial

theorem moves (h : Inv cfg times.freeze.usecs s) (hmoves : Moves cfg i times s t) :
    Inv cfg times.freeze.usecs t := by
  induction hmoves with
  | refl => exact h
  | tail _ hmove ih => exact ih.move hmove

theorem execute {argv : List CStr} (h : Inv cfg times.check.usecs s)
    (hthawed : ∀ since, .failed i since ∈ s.log → since + cfg.freezeUsecs < times.check.usecs)
    (hle : times.check.usecs ≤ times.freeze.usecs) (ht : s.execute cfg i times argv = some t) :
    Inv cfg times.freeze.usecs t := by
  rcases execute_moves ht with rfl | hmoves
  · exact h.later hle
  · refine moves (later ?_ hle) hmoves
    exact h.record _ (fun _ => rfl) (fun _ _ h => by cases h) trivial hthawed

/-- A slot that is not frozen waits for nothing. -/
theorem clientFrozen (h : Inv cfg times.check.usecs s) {c : Client}
    (hc : Server.clientFrozen cfg times.check (s.clients i) = (c, false)) :
    (∀ since, .failed i since ∈ s.log → since + cfg.freezeUsecs < times.check.usecs) ∧
      c.Holds cfg (session i s.log) := by
  have hholds := h.holds i
  rw [Server.clientFrozen] at hc
  split at hc
  · rename_i hnone
    cases hc
    refine ⟨fun since hsince => ?_, hholds⟩
    rcases (h.waits i since hsince).2 with ⟨m, hm, -⟩ | hover
    · rw [hnone] at hm
      cases hm
    · exact hover
  · rename_i m hsome
    split at hc
    · rename_i hdelta
      cases hc
      refine ⟨fun since hsince => ?_, hholds.congr rfl rfl rfl⟩
      have hdelay := (Moment.checkTimeDelta_iff _ _ _).1 hdelta
      rcases (h.waits i since hsince).2 with ⟨m', hm', hle⟩ | hover
      · rw [hsome] at hm'
        cases hm'
        omega
      · exact hover
    · cases hc

/-- A frozen slot stays as it is. -/
theorem clientFrozen_true {c : Client}
    (hc : Server.clientFrozen cfg times.check (s.clients i) = (c, true)) : c = s.clients i := by
  rw [Server.clientFrozen] at hc
  split at hc
  · cases hc
  · split at hc <;> cases hc
    rfl

theorem parseClient (h : Inv cfg times.check.usecs s)
    (hle : times.check.usecs ≤ times.freeze.usecs) (ht : s.parseClient cfg i times = some t) :
    Inv cfg times.freeze.usecs t := by
  simp only [Server.parseClient] at ht
  split at ht
  · cases ht
    exact h.later hle
  rcases hfrozen : Server.clientFrozen cfg times.check (s.clients i) with ⟨c, frozen⟩
  rw [hfrozen] at ht
  dsimp only at ht
  cases frozen with
  | true =>
    obtain rfl := clientFrozen_true hfrozen
    rw [ipcParseClient_frozen] at ht
    cases ht
    refine later (h.setClient _ ?_ ?_) hle
    · exact (h.holds i).congr rfl rfl rfl
    · exact fun since hsince => (h.waits i since hsince).2
  | false =>
    obtain ⟨hthawed, hholds⟩ := h.clientFrozen hfrozen
    have hparsed := h.setClient { c with cmd := (Ipc.ipcParseClient false c.cmd).1 }
      (hholds.congr rfl rfl rfl) fun since hsince => .inr (hthawed since hsince)
    rcases ipcParseClient_commands c.cmd with hnone | ⟨command, hone⟩
    · rw [hnone] at ht
      cases ht
      exact hparsed.later hle
    · rw [hone, List.foldlM_cons] at ht
      obtain ⟨u, hu, ht⟩ := Option.bind_eq_some_iff.1 ht
      cases ht
      obtain ⟨r, -, hexecute⟩ := Option.bind_eq_some_iff.1 hu
      exact hparsed.execute hthawed hle hexecute

/-- The second loop of a round, for one slot. -/
theorem parseNext (h : Inv cfg s.clock s) {clocks : Fin n → Times}
    (ht : s.parseNext cfg clocks i = some t) : Inv cfg t.clock t := by
  simp only [Server.parseNext] at ht
  split at ht
  · split at ht
    · rename_i hclock
      obtain ⟨u, hu, rfl⟩ := Option.map_eq_some_iff.1 ht
      exact ((h.later hclock.1).parseClient hclock.2 hu).congr rfl rfl
    · cases ht
  · cases ht
    exact h

/-- The first loop of a round, for one slot. -/
theorem interactNext (h : Inv cfg now s) (inputs : Fin n → Input) (i : Fin n) :
    Inv cfg now (s.interactNext inputs i) := by
  rw [Server.interactNext]
  split
  · split
    · exact (h.answer _).disconnect false
    · exact h.disconnect false
    · exact h.setClient _ ((h.holds i).congr rfl rfl rfl) fun since hsince =>
        (h.waits i since hsince).2
  · exact h

theorem next (h : Inv cfg s.clock s) {turn : Turn n} (ht : s.next cfg turn = some t) :
    Inv cfg t.clock t := by
  rw [Server.next] at ht
  refine (Run.of_foldlM ht).invariant (I := fun s => Inv cfg s.clock s)
    (fun _ _ _ hu hv => hu.parseNext hv) ?_
  have hinteract : ∀ (l : List (Fin n)) (u : Server n), Inv cfg u.clock u →
      Inv cfg (l.foldl (Server.interactNext turn.inputs) u).clock
        (l.foldl (Server.interactNext turn.inputs) u) := by
    intro l
    induction l with
    | nil => exact fun u hu => hu
    | cons i l ih =>
      intro u hu
      refine ih _ ?_
      rw [Server.clock_interactNext]
      exact hu.interactNext turn.inputs i
  refine hinteract _ _ ?_
  cases turn.arrival with
  | none => exact h
  | some ip =>
    show Inv cfg (s.connect ip).clock (s.connect ip)
    rw [Server.clock_connect]
    exact h.connect ip

end Inv

/-! ## Runs -/

theorem inv_of_run {cfg : Config} {turns : List (Turn n)} {s : Server n}
    (h : turns.foldlM (Server.next cfg) (.initial n) = some s) : Inv cfg s.clock s :=
  (Run.of_foldlM h).invariant (I := fun s => Inv cfg s.clock s) (fun _ _ _ hs ht => hs.next ht)
    (Inv.initial n)

/-- An administrator with a password; a failure costs two seconds. -/
def administrator : Account := ⟨Md5.ipcpassenc .zero .zero "b".toList none, some 7⟩

def oneAdministrator : Config where
  accounts user := if user = "a".toList then some administrator else none
  throttle := ⟨3, 60, 24⟩
  blacklistOnTriesExpired := false
  freeze := 2000
  version := "1.0"

def timesAt (time : ℕ) : Times := ⟨second time, time, time, time, second time⟩

/-- The only slot receives a line at a time in seconds. -/
def lineAt (line : String) (time : ℕ) : Turn 1 where
  arrival := none
  inputs _ := .recv (.data line.toList)
  times _ := timesAt time

/-- A line that comes alone is executed at once. -/
lemma next_lineAt (cfg : Config) {s : Server 1} (line : String) (time : ℕ) (command : CStr)
    (argv : List CStr) (hconnected : (s.clients 0).connected = true)
    (hcmd : (s.clients 0).cmd = none) (hfrozen : (s.clients 0).frozen = none)
    (hcommand : Ipc.ipcParseClient false (Ipc.receive none (.data line.toList)) = (none, [command]))
    (hargv : (Cmd.parseBuf command).map (·.1.reduceOption) = some argv)
    (hclock : s.clock ≤ (second time).usecs) :
    s.next cfg (lineAt line time) = (s.execute cfg 0 (timesAt time) argv).map fun s =>
      { s with clock := (second time).usecs } := by
  obtain ⟨r, hr, rfl⟩ := Option.map_eq_some_iff.1 hargv
  have hne : (Ipc.receive none (.data line.toList)).getD [] ≠ [] := by
    intro h
    rw [Ipc.receive] at h hcommand
    rw [Option.getD_some] at h
    rw [h] at hcommand
    cases hcommand
  have hone : Function.update s.clients 0 ⟨true, none, (s.clients 0).authontificated,
      (s.clients 0).login, (s.clients 0).access, (s.clients 0).ip, none⟩ = s.clients := by
    rw [← hconnected, ← hcmd, ← hfrozen]
    exact Function.update_eq_self 0 s.clients
  simp [Server.next, lineAt, List.finRange_succ, Server.interactNext, hconnected, hcmd,
    Server.parseNext, timesAt, Server.setClient, hclock, Server.parseClient, hne,
    Server.clientFrozen, hfrozen, hcommand, hr, hone]

lemma accepted_administrator : Server.accepted administrator "b".toList = some true := by
  have hcrypt := @Md5.md5Crypt_eq .zero .zero "b".toList Md5.passwdSalt (by decide)
  have hlength : Md5.passwdSalt.length = 8 := rfl
  rw [Server.accepted, administrator, Md5.ipcpassenc, Option.getD_none, Md5.passwordAccepted,
    hcrypt, Md5.trueSalt_passwdSalt, Option.map_some, Option.map_some, Option.getD_some,
    List.drop_left' hlength, List.length_cons, Md5.length_writeDigest, if_pos (by decide),
    beq_self_eq_true]

def arrivalAt (ip : String) (time : ℕ) : Turn 1 where
  arrival := some ip.toList
  inputs _ := .recv .wouldBlock
  times _ := timesAt time

def adminTurns : List (Turn 1) :=
  [arrivalAt "::1" 0, lineAt "login a b\n" 10, lineAt "queue start\n" 11]

/-- The right password of a user. -/
lemma ipcLogin_eq {cfg : Config} {i : Fin n} {times : Times} {s : Server n}
    {name user password : CStr} {a : Account} (pool : Login.Pool)
    (hallowed : Login.loginAllowed cfg.throttle times.strip times.compare (s.clients i).ip
      s.logins = (pool, true))
    (hauth : (s.clients i).authontificated = false) (ha : Server.account cfg user = some a)
    (haccepted : Server.accepted a password = some true) :
    s.ipcLogin cfg i [name, user, password] times =
      { s with logins := pool }.loginDone i user password a := by
  simp [Server.ipcLogin, hallowed, hauth, ha, haccepted]

lemma execute_login {s : Server 1} (hauth : (s.clients 0).authontificated = false)
    (hlogins : s.logins = fun _ => none) :
    s.execute oneAdministrator 0 (timesAt 10) ["login".toList, "a".toList, "b".toList] =
      (s.record (.ran 0 ["login".toList, "a".toList, "b".toList] (second 10).usecs)).loginDone 0
        "a".toList "b".toList administrator := by
  have hproc : procs.find? (fun p => p.1.toList = "login".toList) = some ("login", .login) := by
    decide
  have haccount : Server.account oneAdministrator "a".toList = some administrator := rfl
  obtain ⟨clients, queue, belts, logins, clock, log⟩ := s
  obtain rfl : logins = fun _ => none := hlogins
  rw [Server.execute, hproc]
  dsimp only [Server.entryPoint]
  exact ipcLogin_eq (fun _ => none) rfl hauth haccount accepted_administrator

/-- The administrator starts the queue. -/
lemma adminTurns_run : ∃ s, adminTurns.foldlM (Server.next oneAdministrator) (.initial 1) = some s ∧
    .did 0 (.queue true) ∈ s.log := by
  obtain ⟨s, hs, hconnected, hcmd, hfrozen, hauth, hlogins, hqueue, hclock⟩ : ∃ s,
      Server.next oneAdministrator (.initial 1) (arrivalAt "::1" 0) = some s ∧
      (s.clients 0).connected = true ∧ (s.clients 0).cmd = none ∧ (s.clients 0).frozen = none ∧
      (s.clients 0).authontificated = false ∧ (s.logins = fun _ => none) ∧ s.queue = false ∧
      s.clock = 0 :=
    ⟨_, rfl, rfl, rfl, rfl, rfl, rfl, rfl, rfl⟩
  have hlogin := next_lineAt oneAdministrator "login a b\n" 10 "login a b".toList
    ["login".toList, "a".toList, "b".toList] hconnected hcmd hfrozen (by decide)
    (by decide +kernel) (by omega)
  rw [execute_login hauth hlogins, Server.loginDone, if_pos (by decide), Option.map_some] at hlogin
  obtain ⟨t, ht, hconnected', hcmd', hfrozen', haccess, hqueue', hclock'⟩ : ∃ t,
      s.next oneAdministrator (lineAt "login a b\n" 10) = some t ∧
      (t.clients 0).connected = true ∧ (t.clients 0).cmd = none ∧ (t.clients 0).frozen = none ∧
      (t.clients 0).access = 7 ∧ t.queue = false ∧ t.clock = (second 10).usecs :=
    ⟨_, hlogin, hconnected, hcmd, hfrozen, rfl, hqueue, rfl⟩
  have hstart := next_lineAt oneAdministrator "queue start\n" 11 "queue start".toList
    ["queue".toList, "start".toList] hconnected' hcmd' hfrozen' (by decide) (by decide +kernel)
    (by rw [hclock']; decide)
  rw [adminTurns, List.foldlM_cons, hs, Option.bind_eq_bind, Option.bind_some, List.foldlM_cons, ht,
    Option.bind_eq_bind, Option.bind_some, List.foldlM_cons, hstart]
  refine ⟨_, rfl, ?_⟩
  simp [Server.ipcQueue, Server.switch, Server.admin, Server.record, Server.answer, haccess,
    hqueue']

/-- Whatever a command of a slot does is allowed to the user who logged in there last, with the
right password and when nobody was logged in at the slot, and who has not logged out or left since;
the rights of every slot are those of its session. -/
theorem log_justified (cfg : Config) (turns : List (Turn n)) (s : Server n)
    (h : turns.foldlM (Server.next cfg) (.initial n) = some s) :
    Throughout (Justified cfg) s.log ∧ ∀ i, (s.clients i).Holds cfg (session i s.log) :=
  ⟨(inv_of_run h).justified, (inv_of_run h).holds⟩

theorem log_justified_admin :
    ∃ s, adminTurns.foldlM (Server.next oneAdministrator) (.initial 1) = some s ∧
      .did 0 (.queue true) ∈ s.log ∧ Throughout (Justified oneAdministrator) s.log ∧
      ∀ i, (s.clients i).Holds oneAdministrator (session i s.log) := by
  obtain ⟨s, hs, hdid⟩ := adminTurns_run
  exact ⟨s, hs, hdid, log_justified oneAdministrator adminTurns s hs⟩

/-- The line in between is dropped. -/
def failedTurns : List (Turn 1) :=
  [arrivalAt "::1" 0, lineAt "login a b\n" 10, lineAt "help\n" 11, lineAt "version\n" 13]

/-- Nobody has an account, and a failure costs two seconds. -/
def nobody : Config := ⟨fun _ => none, ⟨3, 60, 24⟩, false, 2000, "1.0"⟩

lemma failedTurns_isSome : (failedTurns.foldlM (Server.next nobody) (.initial 1)).isSome := by
  decide +kernel

lemma freezeUsecs_eq {cfg : Config} (h : 0 ≤ cfg.freeze) (hint : cfg.freeze * 1000 < 2 ^ 31) :
    cfg.freezeUsecs = cfg.freeze.toNat * 1000 := by
  obtain ⟨k, hk⟩ : ∃ k : ℕ, cfg.freeze = k := ⟨cfg.freeze.toNat, by omega⟩
  rw [hk] at hint
  have htoNat : (BitVec.ofInt 32 k * 1000).toNat = k * 1000 := by
    rw [BitVec.ofInt_natCast, BitVec.toNat_mul, BitVec.toNat_ofNat]
    have hthousand : (1000 : BitVec 32).toNat = 1000 := rfl
    rw [hthousand]
    omega
  have hmsb : (BitVec.ofInt 32 k * 1000).msb = false := by
    rw [BitVec.msb_eq_decide, htoNat, decide_eq_false_iff_not]
    omega
  rw [Config.freezeUsecs, hk, BitVec.signExtend_eq_setWidth_of_msb_false hmsb,
    BitVec.toNat_setWidth, htoNat, Int.toNat_natCast]
  omega

/-- After a failed login no command of the slot is executed until the delay is over, whoever is
connected there and however often the connection is made again; the delay is one whose microseconds
are an `int`. -/
theorem log_thawed (cfg : Config) (hfreeze : 0 ≤ cfg.freeze) (hint : cfg.freeze * 1000 < 2 ^ 31)
    (turns : List (Turn n)) (s : Server n)
    (h : turns.foldlM (Server.next cfg) (.initial n) = some s) :
    Throughout (Thawed (cfg.freeze.toNat * 1000)) s.log := by
  rw [← freezeUsecs_eq hfreeze hint]
  exact (inv_of_run h).thawed

theorem log_thawed_failed :
    Throughout (Thawed (nobody.freeze.toNat * 1000))
      ((failedTurns.foldlM (Server.next nobody) (.initial 1)).get failedTurns_isSome).log :=
  log_thawed nobody (by decide) (by decide) failedTurns _ (Option.some_get _).symm

example : ((failedTurns.foldlM (Server.next nobody) (.initial 1)).get failedTurns_isSome).log.filter
    (fun x => match x with | .answered .. => false | _ => true) =
    [.connected 0 "::1".toList, .ran 0 ["login".toList, "a".toList, "b".toList] 10000000,
      .failed 0 10000000, .ran 0 ["version".toList] 13000000] := by
  decide +kernel

/-- A delay of a day is over after some minutes. -/
example : Config.freezeUsecs { nobody with freeze := 86400000 } = 500654080 := by decide +kernel

end WebTester.IpcSession
