import Mathlib.Data.List.TakeWhile
import WebTester.RunIpcStream

/-!
# Isolation of the byte streams

The lines executed for a connection are the terminated lines received on it, as long
as no buffer is read in the middle of a line, no connection ends with a line pending,
and none begins in a slot whose buffer still holds bytes of an earlier one.
-/
namespace WebTester.Librun
open CString Transition Lines

namespace Ipc

variable {n : ℕ}

/-- The first slot that is free or whose client is dropped. -/
def freeSlot (keep : ℕ) (now : TimeVal) (s : Ipc n) (is : List (Fin n)) : Option (Fin n) :=
  is.find? fun i => decide ((s.clients i).sock < 0) || (s.clients i).expired keep now

/-- What `register_client` does to the table: nothing, or one slot is taken. -/
inductive Registered (keep : ℕ) (sock : ℤ) (now : TimeVal) (s : Ipc n) (is : List (Fin n)) :
    Ipc n × Option (Fin n) → Prop
  | full : Registered keep sock now s is (s, none)
  | taken {t : Ipc n} {i : Fin n} (hfree : s.freeSlot keep now is = some i)
      (hother : ∀ j, j ≠ i → t.clients j = s.clients j)
      (hcmd : (t.clients i).cmd = (s.clients i).cmd) (hsock : (t.clients i).sock = sock)
      (hhistory : t.history = Function.update s.history i []) :
      Registered keep sock now s is (t, some i)

lemma evict_clients (keep : ℕ) (now : TimeVal) (s : Ipc n) (i : Fin n) :
    (∀ j, j ≠ i → (s.evict keep now i).clients j = s.clients j) ∧
      ((s.evict keep now i).clients i).cmd = (s.clients i).cmd ∧
      ∀ j, j ≠ i → (s.evict keep now i).history j = s.history j := by
  unfold evict disconnectClient
  split_ifs
  · exact ⟨fun _ _ => rfl, rfl, fun _ _ => rfl⟩
  · exact ⟨fun j hj => by simp [setClient, hj], by simp [setClient, Client.clear],
      fun j hj => by simp [hj]⟩
  · exact ⟨fun _ _ => rfl, rfl, fun _ _ => rfl⟩

/-- The slot of a client that is dropped is free. -/
lemma evict_free {keep : ℕ} {now : TimeVal} {s : Ipc n} {i : Fin n}
    (h : (s.clients i).sock < 0 ∨ (s.clients i).expired keep now = true) :
    ((s.evict keep now i).clients i).sock < 0 := by
  unfold evict disconnectClient
  split_ifs with he hs
  · exact hs
  · simp [setClient, Client.clear]
  · exact h.resolve_right he

lemma registerFrom_registered (keep : ℕ) (sock : ℤ) (now : TimeVal) (is : List (Fin n))
    (s : Ipc n) : Registered keep sock now s is (registerFrom keep sock now is s) := by
  induction is with
  | nil => exact .full
  | cons i is ih =>
    simp only [registerFrom]
    by_cases h : (s.clients i).sock < 0 ∨ (s.clients i).expired keep now = true
    · rw [if_pos (evict_free h)]
      obtain ⟨hother, hcmd, hhistory⟩ := s.evict_clients keep now i
      refine .taken ?_ (fun j hj => ?_) ?_ ?_ (funext fun j => ?_)
      · exact List.find?_cons_of_pos (by simpa using h)
      · simpa [setClient, hj] using hother j hj
      · simpa [setClient, Client.spawnNewClient] using hcmd
      · simp [setClient, Client.spawnNewClient]
      · by_cases hj : j = i
        · subst hj
          simp
        · simpa [hj] using hhistory j hj
    · have hskip : s.freeSlot keep now (i :: is) = s.freeSlot keep now is :=
        List.find?_cons_of_neg (by simpa using h)
      rw [not_or] at h
      have hsame : s.evict keep now i = s := by simp [evict, h.2]
      rw [hsame, if_neg h.1]
      generalize registerFrom keep sock now is s = r at ih ⊢
      cases ih with
      | full => exact .full
      | taken hfree hother hcmd hsock hhistory =>
        exact .taken (hskip.trans hfree) hother hcmd hsock hhistory

lemma registerClient_registered (keep : ℕ) (sock : ℤ) (now : TimeVal) (s : Ipc n) :
    Registered keep sock now s (List.finRange n) (s.registerClient keep sock now) := by
  unfold registerClient
  split
  · exact .full
  · exact registerFrom_registered keep sock now _ s

end Ipc

namespace Stream

variable {n : ℕ} {parseBuf : CStr → List CStr} {cfg : Profile} {keep : ℕ}

/-- Connections begin in an empty buffer, chunks hold no NUL and fit what is left of the
buffer, buffers are executed at the end of a line, and connections end with no line pending. -/
def WellFramed (keep : ℕ) (s : Stream n) : StreamEvent n → Prop
  | .accept _ now => ∀ i, s.ipc.freeSlot keep now (List.finRange n) = some i →
      (s.client i).cmd = []
  | .recv i chunk =>
    '\x00' ∉ chunk ∧ ((s.client i).cmd ++ chunk).length < runSockStackSize
  | .lost i => 0 ≤ (s.client i).sock → '\n' ∉ (s.client i).cmd
  | .parse i _ _ => s.locked i = true ∨ Terminated '\n' (s.client i).cmd
  | .server _ => True

/-- The buffer holds what was received after the last line that was executed. -/
structure InOrder (s : Stream n) (i : Fin n) (consumed : CStr) : Prop where
  received : s.received i = consumed ++ (s.client i).cmd
  terminated : Terminated '\n' consumed
  executed : s.executed i = lines '\n' consumed

structure Isolated (s : Stream n) : Prop where
  opened : ∀ i, 0 ≤ (s.client i).sock → ∃ consumed, s.InOrder i consumed
  closed : ∀ r ∈ s.closed, r.2 = lines '\n' r.1

lemma InOrder.lines {s : Stream n} {i : Fin n} {consumed : CStr} (h : s.InOrder i consumed) :
    s.executed i ++ Lines.lines '\n' (s.client i).cmd = Lines.lines '\n' (s.received i) := by
  rw [h.received, lines_append h.terminated, h.executed]

lemma isolated_initial (junk : Fin n → CStr × TimeVal) (belts : List Process) :
    (initial junk belts).Isolated where
  opened i hi := by simp [initial, client, Ipc.initClients] at hi
  closed r hr := by simp [initial] at hr

/-- A connection that ends with no line pending was executed in full. -/
lemma Isolated.close {s : Stream n} (hs : s.Isolated) (i : Fin n)
    (hi : 0 ≤ (s.client i).sock → '\n' ∉ (s.client i).cmd) :
    ∀ r ∈ s.close i, r.2 = Lines.lines '\n' r.1 := by
  intro r hr
  unfold Stream.close at hr
  split at hr
  · exact hs.closed r hr
  · rename_i hsock
    rcases List.mem_append.1 hr with hr | hr
    · exact hs.closed r hr
    · obtain rfl := List.mem_singleton.1 hr
      obtain ⟨consumed, hc⟩ := hs.opened i (not_lt.1 hsock)
      have hl := hc.lines
      rw [lines_of_not_mem (hi (not_lt.1 hsock)), List.append_nil] at hl
      exact hl

/-- A step that touches one slot only. -/
lemma Isolated.update {s t : Stream n} (hs : s.Isolated) (i : Fin n)
    (hother : ∀ j, j ≠ i → t.client j = s.client j ∧ t.received j = s.received j ∧
      t.executed j = s.executed j)
    (hi : 0 ≤ (t.client i).sock → ∃ consumed, t.InOrder i consumed)
    (hclosed : ∀ r ∈ t.closed, r.2 = Lines.lines '\n' r.1) : t.Isolated := by
  refine ⟨fun j hj => ?_, hclosed⟩
  by_cases hji : j = i
  · subst hji
    exact hi hj
  · obtain ⟨hc, hr, he⟩ := hother j hji
    rw [hc] at hj
    obtain ⟨consumed, h⟩ := hs.opened j hj
    exact ⟨consumed, by rw [hr, hc, h.received], h.terminated, by rw [he, h.executed]⟩

lemma Isolated.accept {s : Stream n} (hs : s.Isolated) (sock : ℤ) (now : TimeVal)
    (hg : WellFramed keep s (.accept sock now)) : (s.accept keep sock now).Isolated := by
  have hreg := s.ipc.registerClient_registered keep sock now
  unfold Stream.accept
  generalize s.ipc.registerClient keep sock now = r at hreg ⊢
  cases hreg with
  | full => exact hs
  | @taken ipc i hfree hother hcmd hsock _ =>
    have hempty : (s.client i).cmd = [] := hg i hfree
    refine hs.update i (fun j hj => ⟨hother j hj, by simp [hj], by simp [hj]⟩) (fun _ => ?_) ?_
    · refine ⟨[], ?_, by simp [Terminated], by simp [Lines.lines, linesFrom]⟩
      have hnil : (ipc.clients i).cmd = [] := hcmd.trans hempty
      simpa [client] using hnil.symm
    · exact hs.close i fun _ => by simp [hempty]

/-- A chunk without NUL is appended as it is. -/
lemma takeWhile_of_not_mem {chunk : CStr} (h : '\x00' ∉ chunk) :
    chunk.takeWhile (· ≠ '\x00') = chunk := by
  rw [List.takeWhile_eq_self_iff]
  intro c hc
  have hne : c ≠ '\x00' := fun h0 => h (h0 ▸ hc)
  simpa using hne

/-- What is received on a connection and fits the buffer has a result. -/
lemma recv_isSome {s : Stream n} {i : Fin n} {chunk : CStr} (hi : 0 ≤ (s.client i).sock)
    (hne : chunk ≠ []) (h : WellFramed keep s (.recv i chunk)) : (s.recv i chunk).isSome := by
  unfold Stream.recv
  dsimp only
  rw [takeWhile_of_not_mem h.1, if_pos ⟨hi, hne, h.2⟩]
  rfl

lemma Isolated.recv {s t : Stream n} {i : Fin n} {chunk : CStr} (hs : s.Isolated)
    (hg : '\x00' ∉ chunk) (h : s.recv i chunk = some t) : t.Isolated := by
  have htake : chunk.takeWhile (· ≠ '\x00') = chunk := takeWhile_of_not_mem hg
  unfold Stream.recv at h
  dsimp only at h
  split at h
  · rename_i hcond
    obtain rfl := Option.some.inj h
    obtain ⟨consumed, hin⟩ := hs.opened i hcond.1
    refine hs.update i (fun j hj => ?_) (fun _ => ⟨consumed, ?_, hin.terminated, hin.executed⟩)
      hs.closed
    · simp [client, setBuffer, Ipc.setClient, hj]
    · simp only [client, setBuffer, Ipc.setClient, Function.update_self, htake]
      rw [hin.received, List.append_assoc]
      rfl
  · cases h

lemma Isolated.lost {s : Stream n} (hs : s.Isolated) (i : Fin n)
    (hg : 0 ≤ (s.client i).sock → '\n' ∉ (s.client i).cmd) : (s.lost i).Isolated := by
  have hclients : (∀ j, j ≠ i → (s.lost i).client j = s.client j) ∧
      ((s.lost i).client i).sock < 0 := by
    simp only [client, Stream.lost, Ipc.disconnectClient]
    split
    · rename_i hneg
      exact ⟨fun _ _ => rfl, hneg⟩
    · exact ⟨fun j hj => by simp [Ipc.setClient, hj], by simp [Ipc.setClient, Client.clear]⟩
  refine hs.update i (fun j hj => ⟨hclients.1 j hj, ?_, ?_⟩) (fun h => ?_) (hs.close i hg)
  · simp [Stream.lost, hj]
  · simp [Stream.lost, hj]
  · have := hclients.2
    omega

/-- Executing lines for a slot changes its credentials, the belts and the record. -/
structure ExecutedLines (i : Fin n) (ls : List CStr) (s t : Stream n) : Prop where
  other : ∀ j, j ≠ i → t.client j = s.client j ∧ t.executed j = s.executed j
  sock : (t.client i).sock = (s.client i).sock
  executed : t.executed i = s.executed i ++ ls
  received : t.received = s.received
  closed : t.closed = s.closed

lemma executeLine_executedLines (acc : Accounting) (i : Fin n) (s : Stream n) (line : CStr) :
    ExecutedLines i [line] s (executeLine parseBuf cfg acc i s line) := by
  obtain ⟨c', hcl, hsock, -, -⟩ := s.ipc.execute_clients cfg acc i (parseBuf line)
  have hcases : (executeLine parseBuf cfg acc i s line).ipc.clients = s.ipc.clients ∨
      (executeLine parseBuf cfg acc i s line).ipc.clients =
        Function.update s.ipc.clients i c' := by
    unfold executeLine
    dsimp only
    split
    · exact .inl rfl
    · exact .inr hcl
  refine ⟨fun j hj => ⟨?_, by simp [executeLine, hj]⟩, ?_, by simp [executeLine], rfl, rfl⟩
  · unfold client
    rcases hcases with h | h <;> simp [h, hj]
  · unfold client
    rcases hcases with h | h
    · rw [h]
    · rw [h, Function.update_self, hsock]

lemma foldl_executedLines (acc : Accounting) (i : Fin n) (ls : List CStr) (s : Stream n) :
    ExecutedLines i ls s (ls.foldl (executeLine parseBuf cfg acc i) s) := by
  induction ls generalizing s with
  | nil => exact ⟨fun _ _ => ⟨rfl, rfl⟩, rfl, by simp, rfl, rfl⟩
  | cons line ls ih =>
    have h₁ : ExecutedLines i [line] s (executeLine parseBuf cfg acc i s line) :=
      executeLine_executedLines acc i s line
    have h₂ := ih (executeLine parseBuf cfg acc i s line)
    refine ⟨fun j hj => ⟨?_, ?_⟩, h₂.sock.trans h₁.sock, ?_, h₂.received.trans h₁.received,
      h₂.closed.trans h₁.closed⟩
    · exact ((h₂.other j hj).1).trans (h₁.other j hj).1
    · exact ((h₂.other j hj).2).trans (h₁.other j hj).2
    · rw [List.foldl_cons, h₂.executed, h₁.executed, List.append_assoc, List.singleton_append]

lemma locked_setBuffer (s : Stream n) (i : Fin n) (cmd : CStr) (now : TimeVal) :
    (s.setBuffer i cmd now).locked i = s.locked i := by
  have hu : ((s.setBuffer i cmd now).client i).unique = (s.client i).unique := by
    simp [client, setBuffer, Ipc.setClient]
  unfold locked
  rw [hu]
  rfl

lemma Isolated.parseClient {s : Stream n} (hs : s.Isolated) (i : Fin n) (acc : Accounting)
    (now : TimeVal) (hi : 0 ≤ (s.client i).sock)
    (hg : s.locked i = true ∨ Terminated '\n' (s.client i).cmd) :
    (s.parseClient parseBuf cfg acc now i).Isolated := by
  obtain ⟨consumed, hin⟩ := hs.opened i hi
  unfold Stream.parseClient
  dsimp only
  split
  · exact hs
  · split
    · refine hs.update i (fun j hj => ?_) (fun _ => ⟨consumed, ?_, hin.terminated, hin.executed⟩)
        hs.closed
      · simp [client, setBuffer, Ipc.setClient, hj]
      · simpa [client, setBuffer, Ipc.setClient] using hin.received
    · rename_i hlocked
      rw [locked_setBuffer] at hlocked
      have hterm : Terminated '\n' (s.client i).cmd := hg.resolve_left hlocked
      have hex : ExecutedLines i (pieces '\n' (s.client i).cmd) (s.setBuffer i (s.client i).cmd now)
          ((pieces '\n' (s.client i).cmd).foldl (executeLine parseBuf cfg acc i)
            (s.setBuffer i (s.client i).cmd now)) := foldl_executedLines acc i _ _
      generalize (pieces '\n' (s.client i).cmd).foldl (executeLine parseBuf cfg acc i)
        (s.setBuffer i (s.client i).cmd now) = t at hex ⊢
      refine hs.update i (fun j hj => ⟨?_, ?_, (hex.other j hj).2⟩)
        (fun _ => ⟨consumed ++ (s.client i).cmd, ?_, terminated_append hin.terminated hterm, ?_⟩)
        (hex.closed ▸ hs.closed)
      · have ht := (hex.other j hj).1
        simp only [client, setBuffer, Ipc.setClient, Function.update_of_ne hj] at ht ⊢
        exact ht
      · exact congrFun hex.received j
      · have hr := congrFun hex.received i
        simp only [setBuffer] at hr ⊢
        simpa [client, Ipc.setClient, hr] using hin.received
      · rw [lines_append hin.terminated, ← pieces_eq_lines hterm, ← hin.executed]
        exact hex.executed

lemma Isolated.step {s t : Stream n} {e : StreamEvent n} (hs : s.Isolated)
    (h : Guarded (WellFramed keep) (StreamStep parseBuf cfg keep) s e t) : t.Isolated := by
  obtain ⟨hg, hstep⟩ := h
  cases e with
  | accept sock now =>
    obtain ⟨-, rfl⟩ : 0 ≤ sock ∧ s.accept keep sock now = t := by
      simpa [StepOf, streamNext] using hstep
    exact hs.accept sock now hg
  | recv i chunk => exact hs.recv hg.1 hstep
  | lost i =>
    obtain rfl := Option.some.inj hstep
    exact hs.lost i hg
  | parse i acc now =>
    obtain ⟨⟨hi, -⟩, rfl⟩ : (0 ≤ (s.client i).sock ∧
        (s.client i).cmd.length < runSockStackSize) ∧
        s.parseClient parseBuf cfg acc now i = t := by
      simpa [StepOf, streamNext] using hstep
    exact hs.parseClient i acc now hi hg
  | server belts =>
    obtain rfl := Option.some.inj hstep
    exact ⟨fun i hi => (hs.opened i hi).imp fun _ h => ⟨h.received, h.terminated, h.executed⟩,
      hs.closed⟩

end Stream

instance {n : ℕ} (keep : ℕ) (s : Stream n) (e : StreamEvent n) :
    Decidable (Stream.WellFramed keep s e) :=
  match e with
  | .accept _ _ => inferInstanceAs (Decidable (∀ _, _ → _))
  | .recv _ _ => inferInstanceAs (Decidable (¬ _ ∧ _))
  | .lost _ => inferInstanceAs (Decidable (_ → ¬ _))
  | .parse _ _ _ => inferInstanceAs (Decidable (_ ∨ _))
  | .server _ => inferInstanceAs (Decidable True)

/-- Arguments of a line without quotes and backslashes. -/
def plainWords (line : CStr) : List CStr := (line.splitOn ' ').filter (· ≠ [])

/-- One slot, and one process that waits for its LRVM. -/
def streamStart : Stream 1 := Stream.initial (fun _ => ([], ⟨0, 0⟩)) [waitingProcess]

/-- A client that sends two lines, one after the other, and leaves. -/
def framedRun : List (StreamEvent 1) :=
  [.accept 5 ⟨10, 0⟩, .recv 0 "unique 7\n".toList, .parse 0 (sampleAccounting 0 0) ⟨10, 0⟩,
    .recv 0 "security key\n".toList, .parse 0 (sampleAccounting 0 0) ⟨10, 0⟩, .lost 0]

lemma framedRun_isSome : (framedRun.foldlM (restrict (Stream.WellFramed 120000000)
    (streamNext plainWords sampleProfile 120000000)) streamStart).isSome = true := by
  decide +kernel

def framedState : Stream 1 := (framedRun.foldlM (restrict (Stream.WellFramed 120000000)
  (streamNext plainWords sampleProfile 120000000)) streamStart).get framedRun_isSome

/-- One line, cut in two by `recv`. -/
def cutRun : List (StreamEvent 1) :=
  [.accept 5 ⟨10, 0⟩, .recv 0 "task".toList, .parse 0 (sampleAccounting 0 0) ⟨10, 0⟩,
    .recv 0 "pid 12\n".toList, .parse 0 (sampleAccounting 0 0) ⟨10, 0⟩]

/-- A line that waits for the lock when its connection is lost. -/
def reuseRun : List (StreamEvent 1) :=
  [.accept 5 ⟨10, 0⟩, .recv 0 "unique 7\nsecurity key\n".toList,
    .parse 0 (sampleAccounting 0 0) ⟨10, 0⟩, .server [{ waitingProcess with locked := true }],
    .recv 0 "termsig 9\n".toList, .parse 0 (sampleAccounting 0 0) ⟨10, 0⟩, .lost 0,
    .accept 6 ⟨11, 0⟩, .parse 0 (sampleAccounting 0 0) ⟨11, 0⟩]

lemma cutRun_isSome :
    (cutRun.foldlM (streamNext plainWords sampleProfile 120000000) streamStart).isSome = true := by
  decide +kernel

lemma reuseRun_isSome :
    (reuseRun.foldlM (streamNext plainWords sampleProfile 120000000)
      streamStart).isSome = true := by
  decide +kernel

end WebTester.Librun
