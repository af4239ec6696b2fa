import WebTester.Slots
import WebTester.StreamIsolation

/-!
# Connection slots

`registered` counts the occupied slots of the table along every run. A table that is full by this
count is not scanned, so a client that has been silent for too long gives its slot to a new one
only as long as another slot is free.
-/
namespace WebTester.Librun
open CString Transition

namespace Client

/-- Does the slot belong to a connection? -/
def connected (c : Client) : Bool := 0 ≤ c.sock

lemma connected_eq_false {c : Client} : c.connected = false ↔ c.sock < 0 := by
  simp [connected]

end Client

namespace Ipc

variable {n : ℕ} {keep : ℕ} {sock : ℤ} {now : TimeVal} {s : Ipc n} {i : Fin n}

/-- The number of connections in the table. -/
def occupied (s : Ipc n) : ℕ := Slots.count Client.connected s.clients

/-- `registered_clients` is the number of occupied slots. -/
def Counted (s : Ipc n) : Prop := s.registered = s.occupied

/-! ## The scan -/

/-- The slot is free, or its client has been silent for too long. -/
def Available (keep : ℕ) (now : TimeVal) (s : Ipc n) (i : Fin n) : Prop :=
  (s.clients i).sock < 0 ∨ (s.clients i).expired keep now = true

/-- The table with a new client in a slot. -/
def seat (sock : ℤ) (now : TimeVal) (s : Ipc n) (i : Fin n) : Ipc n :=
  { s.setClient i ((s.clients i).spawnNewClient sock now) with
    registered := if (s.clients i).sock < 0 then s.registered + 1 else s.registered
    history := Function.update s.history i [] }

/-- Whoever was in the slot leaves nothing behind but the command buffer. -/
lemma evict_seat (hi : Available keep now s i) :
    (let t := s.evict keep now i
     { t.setClient i ((t.clients i).spawnNewClient sock now) with
       registered := t.registered + 1
       history := Function.update t.history i [] : Ipc n }) = s.seat sock now i := by
  unfold evict disconnectClient seat
  by_cases hfree : (s.clients i).sock < 0
  · have hexp : (s.clients i).expired keep now = false := by
      simp [Client.expired, not_le.2 hfree]
    simp [hexp, hfree]
  · have hexp := hi.resolve_left hfree
    simp [hexp, hfree, setClient, Client.clear, Client.spawnNewClient]

lemma registerFrom_eq (keep : ℕ) (sock : ℤ) (now : TimeVal) (is : List (Fin n)) (s : Ipc n) :
    registerFrom keep sock now is s =
      match s.freeSlot keep now is with
      | none => (s, none)
      | some i => (s.seat sock now i, some i) := by
  induction is with
  | nil => rfl
  | cons i is ih =>
    simp only [registerFrom]
    by_cases h : Available keep now s i
    · have hslot : s.freeSlot keep now (i :: is) = some i :=
        List.find?_cons_of_pos (by simpa [Available] using h)
      rw [if_pos (evict_free h), hslot]
      exact Prod.ext (evict_seat h) rfl
    · have hslot : s.freeSlot keep now (i :: is) = s.freeSlot keep now is :=
        List.find?_cons_of_neg (by simpa [Available] using h)
      obtain ⟨hfree, hexp⟩ := not_or.1 h
      have hsame : s.evict keep now i = s := by
        rw [evict, if_neg hexp]
      rw [hsame, if_neg hfree, hslot, ih]

lemma freeSlot_finRange_none :
    s.freeSlot keep now (List.finRange n) = none ↔ ∀ i, ¬ Available keep now s i := by
  simp [freeSlot, Available]

lemma available_of_freeSlot {is : List (Fin n)} (h : s.freeSlot keep now is = some i) :
    Available keep now s i := by
  simpa [Available] using List.find?_some h

/-! ## The count -/

lemma counted_initClients (junk : Fin n → CStr × TimeVal) (belts : List Process) :
    (initClients junk belts).Counted := by
  have hzero : Slots.count Client.connected (initClients junk belts).clients = 0 := by
    rw [Slots.count, Finset.card_eq_zero, Finset.filter_eq_empty_iff]
    intro i _
    simp [initClients, Client.connected]
  rw [Counted, occupied, hzero]
  rfl

lemma Counted.seat (hs : s.Counted) (hsock : 0 ≤ sock) (i : Fin n) :
    (s.seat sock now i).Counted := by
  have hnew : ((s.clients i).spawnNewClient sock now).connected = true := decide_eq_true hsock
  unfold Counted occupied at hs ⊢
  by_cases hfree : (s.clients i).sock < 0
  · have hcount : Slots.count Client.connected (s.seat sock now i).clients =
        Slots.count Client.connected s.clients + 1 :=
      Slots.count_update_taken (Client.connected_eq_false.2 hfree) hnew
    have hreg : (s.seat sock now i).registered = s.registered + 1 := if_pos hfree
    omega
  · have hold : (s.clients i).connected = true := decide_eq_true (not_lt.1 hfree)
    have hcount : Slots.count Client.connected (s.seat sock now i).clients =
        Slots.count Client.connected s.clients :=
      Slots.count_update_same (hnew.trans hold.symm)
    have hreg : (s.seat sock now i).registered = s.registered := if_neg hfree
    omega

lemma Counted.registerClient (hs : s.Counted) (hsock : 0 ≤ sock) :
    (s.registerClient keep sock now).1.Counted := by
  unfold Ipc.registerClient
  split
  · exact hs
  · rw [registerFrom_eq]
    split
    · exact hs
    · exact hs.seat hsock _

lemma Counted.disconnectClient (hs : s.Counted) (i : Fin n) : (s.disconnectClient i).Counted := by
  unfold Ipc.disconnectClient
  split
  · exact hs
  · rename_i hold
    have hcount := Slots.count_update_free (f := s.clients) (a := (s.clients i).clear)
      (decide_eq_true (not_lt.1 hold)) (p := Client.connected) rfl
    change s.registered - 1 = (Slots.count Client.connected (Function.update s.clients i _) : ℕ)
    unfold Counted occupied at hs
    omega

/-- A change of a client that leaves its socket alone. -/
lemma Counted.update (hs : s.Counted) {t : Ipc n} {c : Client}
    (hclients : t.clients = Function.update s.clients i c) (hsock : c.sock = (s.clients i).sock)
    (hregistered : t.registered = s.registered) : t.Counted := by
  unfold Counted occupied at hs ⊢
  have hconn : c.connected = (s.clients i).connected := by
    rw [Client.connected, Client.connected, hsock]
  rw [hclients, hregistered, Slots.count_update_same hconn, hs]

lemma execute_registered (cfg : Profile) (acc : Accounting) (s : Ipc n) (i : Fin n)
    (argv : List CStr) : (s.execute cfg acc i argv).registered = s.registered := by
  unfold execute
  dsimp only
  split
  all_goals rfl

lemma Counted.step {cfg : Profile} {t : Ipc n} {e : IpcEvent n} (hs : s.Counted)
    (h : IpcStep cfg keep s e t) : t.Counted := by
  cases e with
  | accept sock now =>
    obtain ⟨hsock, rfl⟩ : 0 ≤ sock ∧ (s.registerClient keep sock now).1 = t := by
      simpa [StepOf, ipcNext] using h
    exact hs.registerClient hsock
  | disconnect i =>
    obtain rfl := Option.some.inj h
    exact hs.disconnectClient i
  | command i argv acc =>
    obtain ⟨-, rfl⟩ : 0 ≤ (s.clients i).sock ∧ s.command cfg acc i argv = t := by
      simpa [StepOf, ipcNext] using h
    obtain ⟨c, hclients, hsock, -, -⟩ := s.execute_clients cfg acc i argv
    exact hs.update hclients hsock (s.execute_registered cfg acc i argv)
  | buffer i cmd now =>
    obtain ⟨-, rfl⟩ : cmd.length < runSockStackSize ∧
        s.setClient i { s.clients i with cmd := cmd, timestamp := now } = t := by
      simpa [StepOf, ipcNext] using h
    exact hs.update (c := { s.clients i with cmd := cmd, timestamp := now }) rfl rfl rfl
  | server belts =>
    obtain rfl := Option.some.inj h
    exact hs

/-- The counter agrees with the table in every state of every run. -/
theorem counted_run {cfg : Profile} {junk : Fin n → CStr × TimeVal} {belts : List Process}
    {es : List (IpcEvent n)} (hr : Run (IpcStep cfg keep) (initClients junk belts) es s) :
    s.Counted :=
  hr.invariant (fun _ _ _ hs h => hs.step h) (counted_initClients junk belts)

/-! ## Registration -/

/-- What `register_client` has to do: it finds a slot when there is one to be had; this slot
alone gets a new client; and the counter is right afterwards. -/
structure Registers (keep : ℕ) (sock : ℤ) (now : TimeVal) (s : Ipc n) : Prop where
  succeeds : (s.registerClient keep sock now).2.isSome ↔ ∃ i, Available keep now s i
  seated : ∀ i, (s.registerClient keep sock now).2 = some i →
    Available keep now s i ∧ (s.registerClient keep sock now).1.clients =
      Function.update s.clients i ((s.clients i).spawnNewClient sock now)
  counted : (s.registerClient keep sock now).2.isSome → (s.registerClient keep sock now).1.Counted

lemma Counted.lt_iff (hs : s.Counted) : ¬ (n : ℤ) ≤ s.registered ↔ ∃ i, (s.clients i).sock < 0 := by
  have hcount := Slots.count_lt_iff (p := Client.connected) (f := s.clients)
  simp only [Client.connected_eq_false] at hcount
  unfold Counted occupied at hs
  rw [← hcount]
  omega

/-- A full table is not scanned. -/
lemma Counted.registerClient_full (hs : s.Counted) (h : ¬ ∃ i, (s.clients i).sock < 0) :
    s.registerClient keep sock now = (s, none) :=
  if_pos (not_not.1 (mt hs.lt_iff.1 h))

lemma Counted.registerClient_scan (hs : s.Counted) (h : ∃ i, (s.clients i).sock < 0) :
    s.registerClient keep sock now = registerFrom keep sock now (List.finRange n) s :=
  if_neg (hs.lt_iff.2 h)

/-- A slot that was had is given to the new client and no other slot changes. -/
lemma registerClient_seated (h : (s.registerClient keep sock now).2 = some i) :
    Available keep now s i ∧ (s.registerClient keep sock now).1.clients =
      Function.update s.clients i ((s.clients i).spawnNewClient sock now) := by
  unfold registerClient at h ⊢
  split at h
  · simp at h
  · rename_i hlt
    rw [if_neg hlt]
    rw [registerFrom_eq] at h ⊢
    split at h
    · simp at h
    · rename_i j hslot
      obtain rfl := Option.some.inj h
      exact ⟨available_of_freeSlot hslot, rfl⟩

/-- This is what it does as long as a slot is free or nobody could be dropped. -/
theorem registers_iff (hs : s.Counted) (hsock : 0 ≤ sock) :
    Registers keep sock now s ↔
      (∃ i, (s.clients i).sock < 0) ∨ ∀ i, (s.clients i).expired keep now = false := by
  constructor
  · intro h
    by_cases hfree : ∃ i, (s.clients i).sock < 0
    · exact .inl hfree
    · right
      intro i
      by_contra hexp
      have hsome := h.succeeds.2 ⟨i, .inr (by simpa using hexp)⟩
      rw [hs.registerClient_full hfree] at hsome
      exact Bool.false_ne_true hsome
  · intro h
    refine ⟨?_, fun i => registerClient_seated, fun _ => hs.registerClient hsock⟩
    by_cases hfree : ∃ i, (s.clients i).sock < 0
    · rw [hs.registerClient_scan hfree, registerFrom_eq]
      obtain ⟨i, hi⟩ := hfree
      have hexists : ∃ i, Available keep now s i := ⟨i, .inl hi⟩
      split
      · rename_i hnone
        exact absurd (.inl hi) (freeSlot_finRange_none.1 hnone i)
      · exact iff_of_true rfl hexists
    · have hnone : ¬ ∃ i, Available keep now s i := by
        rintro ⟨i, hi | hi⟩
        · exact hfree ⟨i, hi⟩
        · rw [h.resolve_left hfree i] at hi
          exact Bool.false_ne_true hi
      rw [hs.registerClient_full hfree]
      exact iff_of_false Bool.false_ne_true hnone

/-- One client was heard of at the second 200 and one at the second 100, and one slot is free. -/
def mixedTable : Ipc 3 where
  clients
    | 0 => ⟨7, 1, [], [], ⟨200, 0⟩⟩
    | 1 => ⟨6, 2, [], [], ⟨100, 0⟩⟩
    | 2 => ⟨-1, -1, [], [], ⟨0, 0⟩⟩
  registered := 2
  belts := []
  answers := []
  history _ := []

/-- The client that is silent for more than two minutes gives its slot to the new one. -/
theorem registers_iff_mixed : Registers 120000000 8 ⟨300, 0⟩ mixedTable ∧
    (mixedTable.clients 1).expired 120000000 ⟨300, 0⟩ = true := by
  have hcounted : mixedTable.Counted := by
    unfold Counted
    decide
  exact ⟨(registers_iff hcounted (by decide)).2 (.inl ⟨2, by decide⟩), by decide⟩

/-- A table of one slot whose client was last heard at the second 100. -/
def fullTable : Ipc 1 where
  clients _ := ⟨7, 1, [], [], ⟨100, 0⟩⟩
  registered := 1
  belts := []
  answers := []
  history _ := []

/-- After more than two minutes nobody is dropped, and the new client is refused. -/
theorem silent_client_keeps_slot :
    fullTable.registered = fullTable.occupied ∧
      (fullTable.clients 0).expired 120000000 ⟨300, 0⟩ = true ∧
      (fullTable.registerClient 120000000 8 ⟨300, 0⟩).2 = none := by
  decide

end Ipc

end WebTester.Librun
