import WebTester.StreamIsolation

/-!
# Authorization over the byte streams

A line is executed for the connection that occupies the slot when its buffer is parsed.
As long as every connection begins in an empty buffer, what a client has stored was sent
on its own connection; a line that a former connection has left is executed for the next
one, which then holds credentials it never sent.
-/
namespace WebTester.Librun
open CString Transition Lines

namespace Stream

variable {n : ℕ} {parseBuf : CStr → List CStr} {cfg : Profile} {keep : ℕ}

/-- Connections begin in an empty buffer, and chunks fit what is left of the buffer. -/
def Separate (keep : ℕ) (s : Stream n) : StreamEvent n → Prop
  | .accept _ now => ∀ i, s.ipc.freeSlot keep now (List.finRange n) = some i →
      (s.client i).cmd = []
  | .recv i chunk =>
    ((s.client i).cmd ++ chunk.takeWhile (· ≠ '\x00')).length < runSockStackSize
  | _ => True

/-- The commands of executed lines; an empty line is none. -/
def commands (parseBuf : CStr → List CStr) (executed : List CStr) : List (List CStr) :=
  (executed.map parseBuf).filter fun argv => !argv.isEmpty

lemma commands_append (ls ls' : List CStr) :
    commands parseBuf (ls ++ ls') = commands parseBuf ls ++ commands parseBuf ls' := by
  simp [commands]

/-- The state in which `parse_client` has executed the first lines of a buffer. -/
def midParse (parseBuf : CStr → List CStr) (cfg : Profile) (acc : Accounting) (now : TimeVal)
    (s : Stream n) (i : Fin n) (before : List CStr) : Stream n :=
  before.foldl (executeLine parseBuf cfg acc i) (s.setBuffer i (s.client i).cmd now)

/-- One line changes only what its client may change. -/
lemma executeLine_authorized (acc : Accounting) (i : Fin n) (s : Stream n) (line : CStr) :
    Authorized (s.client i) s.ipc.belts (executeLine parseBuf cfg acc i s line).ipc.belts := by
  unfold executeLine
  dsimp only
  split
  · exact authorized_refl _ _
  · exact s.ipc.execute_authorized cfg acc i (parseBuf line)

/-! ## What was sent on a connection -/

/-- The bytes executed for a connection and those in its buffer were received on it, and
the history of a slot lists the commands of the lines executed for its connection. -/
structure OwnLines (parseBuf : CStr → List CStr) (s : Stream n) : Prop where
  sent : ∀ i, 0 ≤ (s.client i).sock →
    ((s.executed i).flatten ++ (s.client i).cmd).Sublist (s.received i)
  told : ∀ i, s.ipc.history i = commands parseBuf (s.executed i)

lemma ownLines_initial (junk : Fin n → CStr × TimeVal) (belts : List Process) :
    (initial junk belts).OwnLines parseBuf where
  sent i hi := by simp [initial, client, Ipc.initClients] at hi
  told _ := rfl

/-- A step that touches one slot only. -/
lemma OwnLines.update {s t : Stream n} (hs : s.OwnLines parseBuf) (i : Fin n)
    (hother : ∀ j, j ≠ i → t.client j = s.client j ∧ t.received j = s.received j ∧
      t.executed j = s.executed j ∧ t.ipc.history j = s.ipc.history j)
    (hi : 0 ≤ (t.client i).sock →
      ((t.executed i).flatten ++ (t.client i).cmd).Sublist (t.received i))
    (htold : t.ipc.history i = commands parseBuf (t.executed i)) : t.OwnLines parseBuf := by
  constructor
  · intro j hj
    by_cases hji : j = i
    · subst hji
      exact hi hj
    · obtain ⟨hc, hr, he, -⟩ := hother j hji
      rw [hc] at hj ⊢
      rw [hr, he]
      exact hs.sent j hj
  · intro j
    by_cases hji : j = i
    · subst hji
      exact htold
    · obtain ⟨-, -, he, hh⟩ := hother j hji
      rw [hh, he]
      exact hs.told j

lemma OwnLines.accept {s : Stream n} (hs : s.OwnLines parseBuf) (sock : ℤ) (now : TimeVal)
    (hg : Separate keep s (.accept sock now)) : (s.accept keep sock now).OwnLines parseBuf := by
  have hreg := s.ipc.registerClient_registered keep sock now
  unfold Stream.accept
  generalize s.ipc.registerClient keep sock now = r at hreg ⊢
  cases hreg with
  | full => exact hs
  | @taken ipc i hfree hother hcmd hsock hhistory =>
    have hempty : (ipc.clients i).cmd = [] := hcmd.trans (hg i hfree)
    refine hs.update i (fun j hj => ⟨hother j hj, by simp [hj], by simp [hj], ?_⟩) (fun _ => ?_) ?_
    · simp [hhistory, hj]
    · simp [client, hempty]
    · simp [hhistory, commands]

lemma OwnLines.recv {s t : Stream n} {i : Fin n} {chunk : CStr} (hs : s.OwnLines parseBuf)
    (h : s.recv i chunk = some t) : t.OwnLines parseBuf := by
  unfold Stream.recv at h
  dsimp only at h
  split at h
  · rename_i hcond
    obtain rfl := Option.some.inj h
    refine hs.update i (fun j hj => ?_) (fun _ => ?_) (hs.told i)
    · simp [client, setBuffer, Ipc.setClient, hj]
    · have htake : (chunk.takeWhile (· ≠ '\x00')).Sublist chunk := List.takeWhile_sublist _
      have hsent := (hs.sent i hcond.1).append htake
      rw [List.append_assoc] at hsent
      simpa [client, setBuffer, Ipc.setClient] using hsent
  · cases h

lemma OwnLines.lost {s : Stream n} (hs : s.OwnLines parseBuf) (hc : s.ipc.Credited) (i : Fin n) :
    (s.lost i).OwnLines parseBuf := by
  by_cases hsock : (s.ipc.clients i).sock < 0
  · have hipc : s.ipc.disconnectClient i = s.ipc := if_pos hsock
    refine hs.update i (fun j hj => ?_) (fun hi => ?_) ?_
    · simp [client, Stream.lost, hipc, hj]
    · simp only [client, Stream.lost, hipc] at hi
      omega
    · simpa [Stream.lost, hipc, commands] using hc.free i hsock
  · have hipc : s.ipc.disconnectClient i = { s.ipc.setClient i (s.ipc.clients i).clear with
        registered := s.ipc.registered - 1
        history := Function.update s.ipc.history i [] } := if_neg hsock
    refine hs.update i (fun j hj => ?_) (fun hi => ?_) ?_
    · simp [client, Stream.lost, hipc, Ipc.setClient, hj]
    · simp [client, Stream.lost, hipc, Ipc.setClient, Client.clear] at hi
    · simp [Stream.lost, hipc, commands]

/-! ## Executing the lines of a buffer -/

/-- A line leaves the buffer alone and is entered in the history of its slot. -/
lemma executeLine_history (acc : Accounting) (i : Fin n) (s : Stream n) (line : CStr) :
    (executeLine parseBuf cfg acc i s line).ipc.history =
      Function.update s.ipc.history i (s.ipc.history i ++ commands parseBuf [line]) := by
  unfold executeLine
  dsimp only
  split
  · rename_i hnil
    simp [commands, hnil]
  · rename_i hne
    simp [Ipc.command, commands, hne]

lemma foldl_history (acc : Accounting) (i : Fin n) (ls : List CStr) (s : Stream n) :
    (ls.foldl (executeLine parseBuf cfg acc i) s).ipc.history =
      Function.update s.ipc.history i (s.ipc.history i ++ commands parseBuf ls) := by
  induction ls generalizing s with
  | nil => simp [commands]
  | cons line ls ih =>
    have hsplit : commands parseBuf (line :: ls) =
        commands parseBuf [line] ++ commands parseBuf ls := commands_append [line] ls
    rw [List.foldl_cons, ih, executeLine_history, Function.update_self, Function.update_idem,
      hsplit, List.append_assoc]

lemma OwnLines.parseClient {s : Stream n} (hs : s.OwnLines parseBuf) (i : Fin n)
    (acc : Accounting) (now : TimeVal) (hi : 0 ≤ (s.client i).sock) :
    (s.parseClient parseBuf cfg acc now i).OwnLines parseBuf := by
  have hsent := hs.sent i hi
  unfold Stream.parseClient
  dsimp only
  split
  · exact hs
  · split
    · refine hs.update i (fun j hj => ?_) (fun _ => ?_) (hs.told i)
      · simp [client, setBuffer, Ipc.setClient, hj]
      · simpa [client, setBuffer, Ipc.setClient] using hsent
    · have hex : ExecutedLines i (pieces '\n' (s.client i).cmd)
          (s.setBuffer i (s.client i).cmd now)
          ((pieces '\n' (s.client i).cmd).foldl (executeLine parseBuf cfg acc i)
            (s.setBuffer i (s.client i).cmd now)) := foldl_executedLines acc i _ _
      have hhist := @foldl_history n parseBuf cfg acc i
        (pieces '\n' (s.client i).cmd) (s.setBuffer i (s.client i).cmd now)
      generalize (pieces '\n' (s.client i).cmd).foldl (executeLine parseBuf cfg acc i)
        (s.setBuffer i (s.client i).cmd now) = t at hex hhist ⊢
      have hexecuted : t.executed i = s.executed i ++ pieces '\n' (s.client i).cmd := hex.executed
      refine hs.update i (fun j hj => ⟨?_, ?_, (hex.other j hj).2, ?_⟩) (fun _ => ?_) ?_
      · have ht := (hex.other j hj).1
        simp only [client, setBuffer, Ipc.setClient, Function.update_of_ne hj] at ht ⊢
        exact ht
      · exact congrFun hex.received j
      · simpa [hj, setBuffer, Ipc.setClient] using congrFun hhist j
      · have hreceived : t.received i = s.received i := congrFun hex.received i
        have hpieces := (List.Sublist.refl (s.executed i).flatten).append
          (flatten_pieces_sublist '\n' (s.client i).cmd)
        simpa [setBuffer, client, Ipc.setClient, hreceived, hexecuted] using hpieces.trans hsent
      · have hh := congrFun hhist i
        rw [Function.update_self] at hh
        simpa [setBuffer, Ipc.setClient, hexecuted, commands_append, hs.told i] using hh

lemma OwnLines.step {s t : Stream n} {e : StreamEvent n}
    (hs : s.OwnLines parseBuf ∧ s.ipc.Credited)
    (h : Guarded (Separate keep) (StreamStep parseBuf cfg keep) s e t) :
    t.OwnLines parseBuf ∧ t.ipc.Credited := by
  obtain ⟨hg, hstep⟩ := h
  refine ⟨?_, credited_streamStep hs.2 hstep⟩
  cases e with
  | accept sock now =>
    obtain ⟨-, rfl⟩ : 0 ≤ sock ∧ s.accept keep sock now = t := by
      simpa [StepOf, streamNext] using hstep
    exact hs.1.accept sock now hg
  | recv i chunk => exact hs.1.recv hstep
  | lost i =>
    obtain rfl := Option.some.inj hstep
    exact hs.1.lost hs.2 i
  | parse i acc now =>
    obtain ⟨⟨hi, -⟩, rfl⟩ : (0 ≤ (s.client i).sock ∧
        (s.client i).cmd.length < runSockStackSize) ∧
        s.parseClient parseBuf cfg acc now i = t := by
      simpa [StepOf, streamNext] using hstep
    exact hs.1.parseClient i acc now hi
  | server belts =>
    obtain rfl := Option.some.inj hstep
    exact ⟨hs.1.sent, hs.1.told⟩

end Stream

instance {n : ℕ} (keep : ℕ) (s : Stream n) (e : StreamEvent n) :
    Decidable (Stream.Separate keep s e) :=
  match e with
  | .accept _ _ => inferInstanceAs (Decidable (∀ _, _ → _))
  | .recv _ _ => inferInstanceAs (Decidable (_ < _))
  | .lost _ | .parse _ _ _ | .server _ => inferInstanceAs (Decidable True)

/-- The one slot. -/
def slot : Fin 1 := Fin.last 0

/-- The LRVM of the waiting process connects, authenticates itself and reports a number. -/
def loginRun : List (StreamEvent 1) :=
  [.accept 5 ⟨10, 0⟩, .recv slot "unique 7\nsecurity key\n".toList,
    .parse slot (sampleAccounting 0 0) ⟨10, 0⟩, .recv slot "taskpid 101\n".toList]

lemma loginRun_isSome : (loginRun.foldlM (restrict (Stream.Separate 120000000)
    (streamNext plainWords sampleProfile 120000000)) streamStart).isSome = true := by
  decide +kernel

def loginState : Stream 1 := (loginRun.foldlM (restrict (Stream.Separate 120000000)
  (streamNext plainWords sampleProfile 120000000)) streamStart).get loginRun_isSome

/-- The state in which some lines of the buffer have been executed. -/
def reporting (before : List CStr) : Stream 1 :=
  loginState.midParse plainWords sampleProfile (sampleAccounting 0 0) ⟨10, 0⟩ slot before

/-- A client repeats its credentials while its process is locked, and leaves. -/
def leftCredentialsRun : List (StreamEvent 1) :=
  [.accept 5 ⟨10, 0⟩, .recv slot "unique 7\nsecurity key\n".toList,
    .parse slot (sampleAccounting 0 0) ⟨10, 0⟩, .server [{ waitingProcess with locked := true }],
    .recv slot "unique 7\nsecurity key\n".toList, .parse slot (sampleAccounting 0 0) ⟨10, 0⟩,
    .lost slot, .accept 6 ⟨11, 0⟩, .parse slot (sampleAccounting 0 0) ⟨11, 0⟩]

lemma leftCredentialsRun_isSome :
    (leftCredentialsRun.foldlM (streamNext plainWords sampleProfile 120000000)
      streamStart).isSome = true := by
  decide +kernel

end WebTester.Librun
