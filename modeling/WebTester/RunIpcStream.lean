import WebTester.Authorization
import WebTester.Lines

/-!
# Byte streams of libRUN's clients

What `recv` returns is appended to the buffer of the slot, and `parse_client` executes
the pieces of the buffer between newlines and empties it, unless the process of the
client is locked. Neither the loss of a connection nor a new one empties the buffer.
`received`, `executed` and `closed` record, for the present connection of a slot and
for those that have ended, the bytes that came and the lines that were executed.

How a line is cut into arguments (`cmd_parse_buf`) is a parameter.
-/
namespace WebTester.Librun
open CString Transition Lines

structure Stream (n : ℕ) where
  ipc : Ipc n
  received : Fin n → CStr
  executed : Fin n → List CStr
  closed : List (CStr × List CStr)

inductive StreamEvent (n : ℕ)
  | accept (sock : ℤ) (now : TimeVal)
  | recv (i : Fin n) (chunk : CStr)
  | lost (i : Fin n)
  | parse (i : Fin n) (acc : Accounting) (now : TimeVal)
  | server (belts : List Process)

namespace Stream

variable {n : ℕ}

def client (s : Stream n) (i : Fin n) : Client := s.ipc.clients i

def initial (junk : Fin n → CStr × TimeVal) (belts : List Process) : Stream n where
  ipc := Ipc.initClients junk belts
  received _ := []
  executed _ := []
  closed := []

/-- The record of a connection that ends. -/
def close (s : Stream n) (i : Fin n) : List (CStr × List CStr) :=
  if (s.client i).sock < 0 then s.closed else s.closed ++ [(s.received i, s.executed i)]

def setBuffer (s : Stream n) (i : Fin n) (cmd : CStr) (now : TimeVal) : Stream n :=
  { s with ipc := s.ipc.setClient i { s.client i with cmd := cmd, timestamp := now } }

/-- A new connection in the slot that `register_client` has chosen, if any. -/
def accept (keep : ℕ) (sock : ℤ) (now : TimeVal) (s : Stream n) : Stream n :=
  match s.ipc.registerClient keep sock now with
  | (ipc, none) => { s with ipc := ipc }
  | (ipc, some i) => { s with
      ipc := ipc
      received := Function.update s.received i []
      executed := Function.update s.executed i []
      closed := s.close i }

/-- A positive result of `recv`. `strcat` copies what comes before a NUL; a text that
does not fit has no defined effect. -/
def recv (s : Stream n) (i : Fin n) (chunk : CStr) : Option (Stream n) :=
  let cmd := (s.client i).cmd ++ chunk.takeWhile (· ≠ '\x00')
  if 0 ≤ (s.client i).sock ∧ chunk ≠ [] ∧ cmd.length < runSockStackSize then
    some { s.setBuffer i cmd (s.client i).timestamp with
      received := Function.update s.received i (s.received i ++ chunk) }
  else none

/-- `disconnect_client`. -/
def lost (s : Stream n) (i : Fin n) : Stream n :=
  { s with
    ipc := s.ipc.disconnectClient i
    received := Function.update s.received i []
    executed := Function.update s.executed i []
    closed := s.close i }

/-- Is the process of the client locked? -/
def locked (s : Stream n) (i : Fin n) : Bool :=
  0 ≤ (s.client i).unique &&
    (s.ipc.belts.find? fun p => p.unique == (s.client i).unique).any Process.locked

/-- One line of the buffer is executed. -/
def executeLine (parseBuf : CStr → List CStr) (cfg : Profile) (acc : Accounting) (i : Fin n)
    (s : Stream n) (line : CStr) : Stream n :=
  { s with
    ipc := if parseBuf line = [] then s.ipc else s.ipc.command cfg acc i (parseBuf line)
    executed := Function.update s.executed i (s.executed i ++ [line]) }

/-- `parse_client`. -/
def parseClient (parseBuf : CStr → List CStr) (cfg : Profile) (acc : Accounting) (now : TimeVal)
    (s : Stream n) (i : Fin n) : Stream n :=
  let cmd := (s.client i).cmd
  if cmd = [] then s
  else
    let s := s.setBuffer i cmd now
    if s.locked i then s
    else ((pieces '\n' cmd).foldl (executeLine parseBuf cfg acc i) s).setBuffer i [] now

end Stream

/-- One step: `run_ipc_listen`, or the part of `run_ipc_interact` for one client. A buffer
that has no NUL within its size is not parsed with a defined effect. -/
def streamNext {n : ℕ} (parseBuf : CStr → List CStr) (cfg : Profile) (keep : ℕ) (s : Stream n) :
    StreamEvent n → Option (Stream n)
  | .accept sock now => if 0 ≤ sock then some (s.accept keep sock now) else none
  | .recv i chunk => s.recv i chunk
  | .lost i => some (s.lost i)
  | .parse i acc now =>
    if 0 ≤ (s.client i).sock ∧ (s.client i).cmd.length < runSockStackSize then
      some (s.parseClient parseBuf cfg acc now i)
    else none
  | .server belts => some { s with ipc := { s.ipc with belts := belts } }

abbrev StreamStep {n : ℕ} (parseBuf : CStr → List CStr) (cfg : Profile) (keep : ℕ) :
    Stream n → StreamEvent n → Stream n → Prop :=
  StepOf (streamNext parseBuf cfg keep)

/-! ## Streams only issue commands -/

lemma executeLines_run {n : ℕ} {parseBuf : CStr → List CStr} {cfg : Profile} {keep : ℕ}
    (acc : Accounting) (i : Fin n) (ls : List CStr) (s : Stream n) (hi : 0 ≤ (s.client i).sock) :
    ∃ es, Run (IpcStep cfg keep) s.ipc es
      (ls.foldl (Stream.executeLine parseBuf cfg acc i) s).ipc := by
  induction ls generalizing s with
  | nil => exact ⟨[], .nil⟩
  | cons line ls ih =>
    obtain ⟨c', hcl, hsock, -, -⟩ := s.ipc.execute_clients cfg acc i (parseBuf line)
    rw [List.foldl_cons]
    by_cases hp : parseBuf line = []
    · have hsame : (Stream.executeLine parseBuf cfg acc i s line).ipc = s.ipc := if_pos hp
      have hr := ih (Stream.executeLine parseBuf cfg acc i s line) (by simpa [Stream.client, hsame])
      rwa [hsame] at hr
    · have hcmd : (Stream.executeLine parseBuf cfg acc i s line).ipc =
          s.ipc.command cfg acc i (parseBuf line) := if_neg hp
      have hstep : IpcStep cfg keep s.ipc (.command i (parseBuf line) acc)
          (Stream.executeLine parseBuf cfg acc i s line).ipc := by
        rw [hcmd]
        exact if_pos hi
      have hsock' : 0 ≤ ((Stream.executeLine parseBuf cfg acc i s line).client i).sock := by
        have hupd : (s.ipc.command cfg acc i (parseBuf line)).clients i = c' := by
          rw [show (s.ipc.command cfg acc i (parseBuf line)).clients =
            Function.update s.ipc.clients i c' from hcl, Function.update_self]
        unfold Stream.client
        rw [hcmd, hupd, hsock]
        exact hi
      obtain ⟨es, hr⟩ := ih _ hsock'
      exact ⟨_, hr.cons hstep⟩

lemma setBuffer_step {n : ℕ} {cfg : Profile} {keep : ℕ} (s : Stream n) (i : Fin n) {cmd : CStr}
    (now : TimeVal) (hlen : cmd.length < runSockStackSize) :
    IpcStep cfg keep s.ipc (.buffer i cmd now) (s.setBuffer i cmd now).ipc :=
  if_pos hlen

/-- The parsing of a client's buffer executes its lines, one after the other. -/
lemma parseClient_run {n : ℕ} {parseBuf : CStr → List CStr} {cfg : Profile} {keep : ℕ}
    {s : Stream n} (acc : Accounting) (now : TimeVal) {i : Fin n} (hi : 0 ≤ (s.client i).sock)
    (hlen : (s.client i).cmd.length < runSockStackSize) :
    ∃ es, Run (IpcStep cfg keep) s.ipc es (s.parseClient parseBuf cfg acc now i).ipc := by
  unfold Stream.parseClient
  dsimp only
  split
  · exact ⟨[], .nil⟩
  · have hbuf : IpcStep cfg keep s.ipc (.buffer i (s.client i).cmd now)
        (s.setBuffer i (s.client i).cmd now).ipc := setBuffer_step s i now hlen
    split
    · exact ⟨_, Run.nil.cons hbuf⟩
    · have hi' : 0 ≤ ((s.setBuffer i (s.client i).cmd now).client i).sock := by
        simpa [Stream.client, Stream.setBuffer, Ipc.setClient] using hi
      have hrun : ∃ es, Run (IpcStep cfg keep) (s.setBuffer i (s.client i).cmd now).ipc es
          ((pieces '\n' (s.client i).cmd).foldl (Stream.executeLine parseBuf cfg acc i)
            (s.setBuffer i (s.client i).cmd now)).ipc := executeLines_run acc i _ _ hi'
      obtain ⟨es, hr⟩ := hrun
      generalize (pieces '\n' (s.client i).cmd).foldl (Stream.executeLine parseBuf cfg acc i)
        (s.setBuffer i (s.client i).cmd now) = u at hr ⊢
      exact ⟨_, (hr.snoc (setBuffer_step u i now (by decide))).cons hbuf⟩

/-- Every step of a stream is a sequence of steps of the table of clients. -/
theorem streamStep_run {n : ℕ} {parseBuf : CStr → List CStr} {cfg : Profile} {keep : ℕ}
    {s t : Stream n} {e : StreamEvent n} (h : StreamStep parseBuf cfg keep s e t) :
    ∃ es, Run (IpcStep cfg keep) s.ipc es t.ipc := by
  cases e with
  | accept sock now =>
    obtain ⟨hs, rfl⟩ : 0 ≤ sock ∧ s.accept keep sock now = t := by
      simpa [StepOf, streamNext] using h
    refine ⟨[.accept sock now], Run.nil.cons ?_⟩
    have hipc : (s.accept keep sock now).ipc = (s.ipc.registerClient keep sock now).1 := by
      unfold Stream.accept
      split <;> rename_i hr <;> rw [hr]
    rw [hipc]
    exact if_pos hs
  | recv i chunk =>
    have h' : s.recv i chunk = some t := h
    unfold Stream.recv at h'
    dsimp only at h'
    split at h'
    · rename_i hcond
      obtain rfl := Option.some.inj h'
      exact ⟨[.buffer i _ _], Run.nil.cons (if_pos hcond.2.2)⟩
    · cases h'
  | lost i =>
    obtain rfl := Option.some.inj h
    exact ⟨[.disconnect i], Run.nil.cons rfl⟩
  | parse i acc now =>
    obtain ⟨⟨hi, hlen⟩, rfl⟩ : (0 ≤ (s.client i).sock ∧
        (s.client i).cmd.length < runSockStackSize) ∧
        s.parseClient parseBuf cfg acc now i = t := by
      simpa [StepOf, streamNext] using h
    exact parseClient_run acc now hi hlen
  | server belts =>
    obtain rfl := Option.some.inj h
    exact ⟨[.server belts], Run.nil.cons rfl⟩

/-- What holds in every run of the table of clients holds under every cutting of the
streams: here, that credentials come from the commands that were executed. -/
lemma credited_streamStep {n : ℕ} {parseBuf : CStr → List CStr} {cfg : Profile} {keep : ℕ}
    {s t : Stream n} {e : StreamEvent n} (hs : s.ipc.Credited)
    (h : StreamStep parseBuf cfg keep s e t) : t.ipc.Credited := by
  obtain ⟨es, hr⟩ := streamStep_run h
  exact hr.invariant (fun _ _ _ hs h => Ipc.Credited.step hs h) hs

end WebTester.Librun
