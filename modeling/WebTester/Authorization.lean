import WebTester.RunIpc

/-!
# Authorization of commands

A command changes a record only for a client that has stored the number and the key
of that process. What a slot has stored comes from the commands that were executed since
its present client came, because both fields are reset when a client leaves and when one
comes.
-/
namespace WebTester.Librun
open CString Transition

/-- The changes from one belt to another are allowed to a client. -/
def Authorized (c : Client) (belts belts' : List Process) : Prop :=
  belts'.length = belts.length ∧
    ∀ (j : ℕ) (p q : Process), belts[j]? = some p → belts'[j]? = some q → q ≠ p →
      c.unique = p.unique ∧ c.securityKey = p.securityKey

lemma authorized_refl (c : Client) (belts : List Process) : Authorized c belts belts := by
  refine ⟨rfl, fun j p q hp hq hne => ?_⟩
  rw [hp] at hq
  exact absurd (Option.some.inj hq).symm hne

/-- The lookup finds a process with the number it was asked for. -/
lemma unique_of_processInfoByUnique {belts : List Process} {unique : ℤ} {j : ℕ} {p : Process}
    (h : processInfoByUnique belts unique = some j) (hp : belts[j]? = some p) :
    unique = p.unique := by
  obtain ⟨hlt, hj, -⟩ := List.findIdx?_eq_some_iff_getElem.1 h
  rw [List.getElem?_eq_getElem hlt] at hp
  obtain rfl := Option.some.inj hp
  exact (by simpa using hj : _ = unique).symm

/-- Every handler that acts on a process checks its client first. -/
theorem procHandler_authorized (valid : Bool) (act : Process → Process) (c : Client)
    (belts : List Process) : Authorized c belts (procHandler valid act c belts).1 := by
  unfold procHandler
  split
  · exact authorized_refl c belts
  · split
    · exact authorized_refl c belts
    · rename_i j hj
      split
      · exact authorized_refl c belts
      · rename_i hkey
        refine ⟨by simp, fun k p q hp hq hne => ?_⟩
        simp only [List.getElem?_modify, hp, Option.map_eq_map, Option.map_some] at hq
        by_cases hjk : j = k
        · subst hjk
          rw [hp] at hkey
          exact ⟨unique_of_processInfoByUnique hj hp, by simpa [eq_comm] using hkey⟩
        · rw [if_neg hjk] at hq
          exact absurd (Option.some.inj hq).symm hne

namespace Ipc

variable {n : ℕ}

theorem execute_authorized (cfg : Profile) (acc : Accounting) (s : Ipc n) (i : Fin n)
    (argv : List CStr) :
    Authorized (s.clients i) s.belts (s.execute cfg acc i argv).belts := by
  unfold execute
  dsimp only
  split
  · exact authorized_refl _ _
  · exact authorized_refl _ _
  · exact authorized_refl _ _
  all_goals exact procHandler_authorized _ _ _ _

end Ipc

/-! ## Where credentials come from -/

/-- The argument of the last well-formed command of this name. -/
def lastArgument (c : Command) (history : List (List CStr)) : Option CStr :=
  (history.reverse.find? fun argv => Command.ofName (argv.headD []) == some c &&
    argv.length == 2).map fun argv => argv.getD 1 []

lemma lastArgument_concat (c : Command) (history : List (List CStr)) (argv : List CStr) :
    lastArgument c (history ++ [argv]) =
      if Command.ofName (argv.headD []) = some c ∧ argv.length = 2 then some (argv.getD 1 [])
      else lastArgument c history := by
  unfold lastArgument
  rw [List.reverse_append, List.reverse_singleton, List.singleton_append, List.find?_cons]
  by_cases h : Command.ofName (argv.headD []) = some c ∧ argv.length = 2
  · have hb : (Command.ofName (argv.headD []) == some c && argv.length == 2) = true := by
      rw [h.1, h.2, beq_self_eq_true, beq_self_eq_true, Bool.and_true]
    rw [hb, if_pos h]
    rfl
  · have hb : (Command.ofName (argv.headD []) == some c && argv.length == 2) = false := by
      rw [Bool.eq_false_iff]
      simpa using h
    rw [hb, if_neg h]

/-- What a client has stored, given its commands. -/
def StoredBy (c : Client) (history : List (List CStr)) : Prop :=
  c.unique = (lastArgument .unique history).elim (-1) atoi ∧
    c.securityKey = (lastArgument .security history).elim [] (strncpy 63)

namespace Ipc

variable {n : ℕ}

/-- Credentials come from the commands executed since the client came; a free slot has none. -/
structure Credited (s : Ipc n) : Prop where
  stored : ∀ i, StoredBy (s.clients i) (s.history i)
  free : ∀ i, (s.clients i).sock < 0 → s.history i = []

lemma credited_initClients (junk : Fin n → CStr × TimeVal) (belts : List Process) :
    (initClients junk belts).Credited where
  stored _ := ⟨rfl, rfl⟩
  free _ _ := rfl

/-- A change of one slot and its history. -/
lemma Credited.update {s t : Ipc n} (hs : s.Credited) (i : Fin n) {c : Client}
    {h : List (List CStr)} (hclients : t.clients = Function.update s.clients i c)
    (hhistory : t.history = Function.update s.history i h) (hc : StoredBy c h)
    (hfree : c.sock < 0 → h = []) : t.Credited := by
  constructor
  · intro j
    by_cases hj : j = i
    · subst hj
      simpa [hclients, hhistory] using hc
    · simpa [hclients, hhistory, hj] using hs.stored j
  · intro j
    by_cases hj : j = i
    · subst hj
      simpa [hclients, hhistory] using hfree
    · simpa [hclients, hhistory, hj] using hs.free j

lemma Credited.disconnectClient {s : Ipc n} (hs : s.Credited) (i : Fin n) :
    (s.disconnectClient i).Credited := by
  unfold Ipc.disconnectClient
  split
  · exact hs
  · exact hs.update i rfl rfl ⟨rfl, rfl⟩ fun _ => rfl

lemma Credited.evict {keep : ℕ} {now : TimeVal} {s : Ipc n} (hs : s.Credited) (i : Fin n) :
    (s.evict keep now i).Credited := by
  unfold Ipc.evict
  split
  · exact hs.disconnectClient i
  · exact hs

lemma Credited.registerFrom {keep : ℕ} {sock : ℤ} {now : TimeVal} (is : List (Fin n)) {s : Ipc n}
    (hs : s.Credited) : (registerFrom keep sock now is s).1.Credited := by
  induction is generalizing s with
  | nil => exact hs
  | cons i is ih =>
    simp only [Ipc.registerFrom]
    split
    · exact (hs.evict i).update i rfl rfl ⟨rfl, rfl⟩ fun _ => rfl
    · exact ih (hs.evict i)

lemma Credited.registerClient {keep : ℕ} {sock : ℤ} {now : TimeVal} {s : Ipc n}
    (hs : s.Credited) : (s.registerClient keep sock now).1.Credited := by
  unfold Ipc.registerClient
  split
  · exact hs
  · exact hs.registerFrom _

/-- The slot that `register_client` returns belongs to a client without credentials. -/
lemma registerFrom_fresh {keep : ℕ} {sock : ℤ} {now : TimeVal} {is : List (Fin n)} {s t : Ipc n}
    {i : Fin n} (h : registerFrom keep sock now is s = (t, some i)) :
    (t.clients i).sock = sock ∧ (t.clients i).unique = -1 ∧ (t.clients i).securityKey = [] := by
  induction is generalizing s with
  | nil => simp [registerFrom] at h
  | cons j is ih =>
    simp only [registerFrom] at h
    split at h
    · obtain ⟨rfl, hi⟩ := Prod.mk.inj h
      obtain rfl := Option.some.inj hi
      simp [setClient, Client.spawnNewClient]
    · exact ih h

lemma registerClient_fresh {keep : ℕ} {sock : ℤ} {now : TimeVal} {s t : Ipc n} {i : Fin n}
    (h : s.registerClient keep sock now = (t, some i)) :
    (t.clients i).sock = sock ∧ (t.clients i).unique = -1 ∧ (t.clients i).securityKey = [] := by
  unfold registerClient at h
  split at h
  · simp at h
  · exact registerFrom_fresh h

/-- Storing by one more command. -/
lemma storedBy_command {c c' : Client} {h : List (List CStr)} {argv : List CStr}
    (hc : StoredBy c h)
    (hu : c'.unique = if Command.ofName (argv.headD []) = some .unique ∧ argv.length = 2 then
      atoi (argv.getD 1 []) else c.unique)
    (hk : c'.securityKey = if Command.ofName (argv.headD []) = some .security ∧ argv.length = 2
      then strncpy 63 (argv.getD 1 []) else c.securityKey) : StoredBy c' (h ++ [argv]) := by
  constructor
  · rw [hu, lastArgument_concat]
    split
    · rfl
    · exact hc.1
  · rw [hk, lastArgument_concat]
    split
    · rfl
    · exact hc.2

/-- How a command changes the clients: only its own slot, by the two credentials. -/
lemma execute_clients (cfg : Profile) (acc : Accounting) (s : Ipc n) (i : Fin n)
    (argv : List CStr) :
    ∃ c', (s.execute cfg acc i argv).clients = Function.update s.clients i c' ∧
      c'.sock = (s.clients i).sock ∧
      (c'.unique = if Command.ofName (argv.headD []) = some .unique ∧ argv.length = 2 then
        atoi (argv.getD 1 []) else (s.clients i).unique) ∧
      (c'.securityKey = if Command.ofName (argv.headD []) = some .security ∧ argv.length = 2
        then strncpy 63 (argv.getD 1 []) else (s.clients i).securityKey) := by
  unfold execute
  dsimp only
  split
  · rename_i hn
    refine ⟨s.clients i, by simp, rfl, ?_, ?_⟩ <;> rw [hn] <;> simp
  · rename_i hn
    refine ⟨(runIpcProcUnique argv (s.clients i)).1, rfl, ?_, ?_, ?_⟩
    all_goals
      unfold runIpcProcUnique
      split <;> simp_all
  · rename_i hn
    refine ⟨(runIpcProcSecurity argv (s.clients i)).1, rfl, ?_, ?_, ?_⟩
    all_goals
      unfold runIpcProcSecurity
      split <;> simp_all
  all_goals
    rename_i hn
    refine ⟨s.clients i, by simp [withBelts], rfl, ?_, ?_⟩ <;> rw [hn] <;> simp

lemma Credited.command {cfg : Profile} {acc : Accounting} {s : Ipc n} (hs : s.Credited)
    (i : Fin n) (argv : List CStr) (hi : 0 ≤ (s.clients i).sock) :
    (s.command cfg acc i argv).Credited := by
  obtain ⟨c', hcl, hsock, hu, hk⟩ := s.execute_clients cfg acc i argv
  refine hs.update i hcl rfl (storedBy_command (hs.stored i) hu hk) fun hneg => ?_
  omega

lemma Credited.step {cfg : Profile} {keep : ℕ} {s t : Ipc n} {e : IpcEvent n} (hs : s.Credited)
    (h : IpcStep cfg keep s e t) : t.Credited := by
  cases e with
  | accept sock now =>
    obtain ⟨-, rfl⟩ : 0 ≤ sock ∧ (s.registerClient keep sock now).1 = t := by
      simpa [StepOf, ipcNext] using h
    exact hs.registerClient
  | disconnect i =>
    obtain rfl := Option.some.inj h
    exact hs.disconnectClient i
  | command i argv acc =>
    obtain ⟨hi, rfl⟩ : 0 ≤ (s.clients i).sock ∧ s.command cfg acc i argv = t := by
      simpa [StepOf, ipcNext] using h
    exact hs.command i argv hi
  | buffer i cmd now =>
    obtain ⟨-, rfl⟩ : cmd.length < runSockStackSize ∧
        s.setClient i { s.clients i with cmd := cmd, timestamp := now } = t := by
      simpa [StepOf, ipcNext] using h
    refine hs.update (h := s.history i) i rfl (by simp [setClient]) (hs.stored i) (hs.free i)
  | server belts =>
    obtain rfl := Option.some.inj h
    exact ⟨hs.stored, hs.free⟩

end Ipc

/-- A process that waits for its LRVM. -/
def waitingProcess : Process :=
  (Process.spawnNewProcess 7 "key".toList 1024 1000000).execute .started ⟨10, 0⟩

end WebTester.Librun
