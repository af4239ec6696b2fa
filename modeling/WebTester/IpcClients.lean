import Mathlib.Data.List.FinRange
import WebTester.CString
import WebTester.Slots
import WebTester.Transition

/-!
# The pool of IPC clients

Connections that are accepted get a slot of the pool. The counter that limits their number is
never raised, so the only limit is the scan for a free slot, and a connection that finds none is
neither kept nor closed. `opened` lists the accepted sockets that were not destroyed since;
`calls` records what became of the socket of each call of `ipc_init_client`. The program keeps
neither.
-/
namespace WebTester.IpcPool
open CString Transition

/-- `IPC_MAX_CLIENT_COUNT`. -/
def ipcMaxClientCount : ℕ := 1024

/-- `ipc_client_t`; a negative socket marks a free slot. -/
structure Client where
  sock : ℤ
  authontificated : ℤ
  access : ℤ
  login : CStr
  timestamp : ℤ
  uid : CStr
  ip : CStr
  deriving DecidableEq

/-- Does the slot belong to a connection? -/
def Client.connected (c : Client) : Bool := decide (0 ≤ c.sock)

/-- The result of a call, and at its return: is the socket destroyed, and how many slots hold it? -/
structure Call where
  result : ℤ
  destroyed : Bool
  holders : ℕ
  deriving DecidableEq

/-- The socket has one owner or is destroyed, and the caller can tell which. -/
def Call.Settled (c : Call) : Prop :=
  (c.destroyed = false ∧ c.holders = 1 ∨ c.destroyed = true ∧ c.holders = 0) ∧
    (c.result < 0 ↔ c.destroyed = true)

structure Pool (n : ℕ) where
  clients : Fin n → Client
  connected : ℤ
  opened : List ℤ
  calls : List Call

/-- What a new client is made of: the accepted socket, its address, the time and the
identifier that `uid_gen` makes. -/
structure Arrival where
  sock : ℤ
  ip : CStr
  time : ℤ
  uid : CStr

namespace Pool

variable {n : ℕ} {s t : Pool n} {i : Fin n} {a : Arrival}

/-- `ipc_init_clients`. -/
def ipcInitClients (n : ℕ) : Pool n where
  clients _ := ⟨-1, 0, 0, [], 0, [], []⟩
  connected := 0
  opened := []
  calls := []

/-- The fields that `ipc_init_client` writes are all there are. -/
def newClient (a : Arrival) : Client := ⟨a.sock, 0, 0, [], a.time, a.uid, a.ip⟩

def setClient (i : Fin n) (c : Client) (s : Pool n) : Pool n :=
  { s with clients := Function.update s.clients i c }

def sockDestroy (sock : ℤ) (s : Pool n) : Pool n := { s with opened := s.opened.erase sock }

@[simp] lemma setClient_clients (i : Fin n) (c : Client) (s : Pool n) :
    (s.setClient i c).clients = Function.update s.clients i c := rfl

@[simp] lemma setClient_opened (i : Fin n) (c : Client) (s : Pool n) :
    (s.setClient i c).opened = s.opened := rfl

@[simp] lemma sockDestroy_clients (sock : ℤ) (s : Pool n) :
    (s.sockDestroy sock).clients = s.clients := rfl

@[simp] lemma sockDestroy_opened (sock : ℤ) (s : Pool n) :
    (s.sockDestroy sock).opened = s.opened.erase sock := rfl

/-- The slot that the loop of `ipc_init_client` stops at. -/
def freeSlot (s : Pool n) : Option (Fin n) :=
  (List.finRange n).find? fun i => decide ((s.clients i).sock < 0)

/-- `ipc_init_client`. -/
def ipcInitClient (a : Arrival) (s : Pool n) : Pool n × ℤ :=
  if n < s.connected then (s.sockDestroy a.sock, -1)
  else match s.freeSlot with
    | some i => (s.setClient i (newClient a), 0)
    | none => (s, 0)

/-- `ipc_disconnect_client`. -/
def ipcDisconnectClient (i : Fin n) (s : Pool n) : Pool n :=
  let c := s.clients i
  if 0 ≤ c.sock then
    (s.sockDestroy c.sock).setClient i
      { c with authontificated := 0, access := 0, login := [], uid := [], sock := -1 }
  else s

/-- The number of slots that hold a socket. -/
def holders (sock : ℤ) (s : Pool n) : ℕ := Slots.count (fun c => c.sock == sock) s.clients

/-- The number of occupied slots. -/
def occupied (s : Pool n) : ℕ := Slots.count Client.connected s.clients

/-- A socket is accepted and passed to `ipc_init_client`. -/
def accept (a : Arrival) (s : Pool n) : Pool n :=
  let r := ({ s with opened := a.sock :: s.opened } : Pool n).ipcInitClient a
  { r.1 with calls := r.1.calls ++ [⟨r.2, decide (a.sock ∉ r.1.opened), r.1.holders a.sock⟩] }

end Pool

inductive PoolEvent (n : ℕ)
  | accept (a : Arrival)
  | disconnect (i : Fin n)

/-- What `accept` returns is no descriptor that is still open. -/
def poolNext {n : ℕ} (s : Pool n) : PoolEvent n → Option (Pool n)
  | .accept a => if 0 ≤ a.sock ∧ a.sock ∉ s.opened then some (s.accept a) else none
  | .disconnect i => some (s.ipcDisconnectClient i)

abbrev PoolStep {n : ℕ} : Pool n → PoolEvent n → Pool n → Prop := StepOf poolNext

namespace Pool

variable {n : ℕ} {s t : Pool n} {i : Fin n} {a : Arrival} {es : List (PoolEvent n)}

/-! ## Every run -/

/-- The counter stays at zero, and the stored sockets are open and belong to one slot each. -/
structure Tidy (s : Pool n) : Prop where
  connected : s.connected = 0
  stored : ∀ i, 0 ≤ (s.clients i).sock → (s.clients i).sock ∈ s.opened
  inj : ∀ i j, 0 ≤ (s.clients i).sock → (s.clients i).sock = (s.clients j).sock → i = j
  nodup : s.opened.Nodup
  nonneg : ∀ sock ∈ s.opened, 0 ≤ sock

lemma tidy_ipcInitClients (n : ℕ) : (ipcInitClients n).Tidy where
  connected := rfl
  stored i hi := by simp [ipcInitClients] at hi
  inj i j hi := by simp [ipcInitClients] at hi
  nodup := List.nodup_nil
  nonneg := by simp [ipcInitClients]

lemma freeSlot_eq_none_iff : s.freeSlot = none ↔ ¬ ∃ i, (s.clients i).sock < 0 := by
  simp [freeSlot]

lemma exists_freeSlot (h : ∃ i, (s.clients i).sock < 0) : ∃ i, s.freeSlot = some i := by
  rw [← Option.ne_none_iff_exists', ne_eq, freeSlot_eq_none_iff, not_not]
  exact h

lemma sock_neg_of_freeSlot (h : s.freeSlot = some i) : (s.clients i).sock < 0 := by
  simpa using List.find?_some h

/-- A free slot takes the connection. -/
lemma Tidy.accept_seated (hs : s.Tidy) (hfree : s.freeSlot = some i) :
    s.accept a = ⟨Function.update s.clients i (newClient a), s.connected, a.sock :: s.opened,
      s.calls ++ [⟨0, false, Slots.count (fun c => c.sock == a.sock)
        (Function.update s.clients i (newClient a))⟩]⟩ := by
  have hslot : ({ s with opened := a.sock :: s.opened } : Pool n).freeSlot = some i := hfree
  have hlimit : ¬ (n : ℤ) < s.connected := by
    rw [hs.connected]
    omega
  simp [accept, ipcInitClient, hlimit, hslot, holders, setClient]

/-- Without one, the connection stays open and nobody has it. -/
lemma Tidy.accept_full (hs : s.Tidy) (hfull : s.freeSlot = none) :
    s.accept a = ⟨s.clients, s.connected, a.sock :: s.opened,
      s.calls ++ [⟨0, false, s.holders a.sock⟩]⟩ := by
  have hslot : ({ s with opened := a.sock :: s.opened } : Pool n).freeSlot = none := hfull
  have hlimit : ¬ (n : ℤ) < s.connected := by
    rw [hs.connected]
    omega
  simp [accept, ipcInitClient, hlimit, hslot, holders]

/-- A socket that is not open is in no slot. -/
lemma Tidy.holders_eq_zero (hs : s.Tidy) {sock : ℤ} (hsock : 0 ≤ sock) (hnew : sock ∉ s.opened) :
    s.holders sock = 0 := by
  rw [holders, Slots.count, Finset.card_eq_zero, Finset.filter_eq_empty_iff]
  intro i _ hi
  have heq : (s.clients i).sock = sock := by simpa using hi
  have hmem := hs.stored i (heq.symm ▸ hsock)
  exact hnew (heq ▸ hmem)

lemma Tidy.accept (hs : s.Tidy) (hsock : 0 ≤ a.sock) (hnew : a.sock ∉ s.opened) :
    (s.accept a).Tidy := by
  have hnodup : (a.sock :: s.opened).Nodup := List.nodup_cons.2 ⟨hnew, hs.nodup⟩
  have hnonneg : ∀ sock ∈ a.sock :: s.opened, 0 ≤ sock := by
    simpa [hsock] using hs.nonneg
  cases hslot : s.freeSlot with
  | none =>
    rw [hs.accept_full hslot]
    exact ⟨hs.connected, fun i hi => List.mem_cons_of_mem _ (hs.stored i hi), hs.inj, hnodup,
      hnonneg⟩
  | some i =>
    rw [hs.accept_seated hslot]
    have hne : ∀ j, 0 ≤ (s.clients j).sock → (s.clients j).sock ≠ a.sock := by
      intro j hj heq
      exact hnew (heq ▸ hs.stored j hj)
    refine ⟨hs.connected, ?_, ?_, hnodup, hnonneg⟩
    · intro j hj
      by_cases hji : j = i
      · simp [hji, newClient]
      · simp only [Function.update_of_ne hji] at hj ⊢
        exact List.mem_cons_of_mem _ (hs.stored j hj)
    · intro j k hj hjk
      by_cases hji : j = i
      · by_cases hki : k = i
        · rw [hji, hki]
        · simp only [hji, Function.update_self, Function.update_of_ne hki, newClient] at hjk
          exact absurd hjk.symm (hne k (hjk ▸ hsock))
      · simp only [Function.update_of_ne hji] at hj hjk
        by_cases hki : k = i
        · simp only [hki, Function.update_self, newClient] at hjk
          exact absurd hjk (hne j hj)
        · rw [Function.update_of_ne hki] at hjk
          exact hs.inj j k hj hjk

lemma Tidy.ipcDisconnectClient (hs : s.Tidy) (i : Fin n) : (s.ipcDisconnectClient i).Tidy := by
  unfold Pool.ipcDisconnectClient
  dsimp only
  split
  · rename_i hi
    refine ⟨hs.connected, ?_, ?_, hs.nodup.erase _, ?_⟩
    · intro j hj
      by_cases hji : j = i
      · simp [hji] at hj
      · simp only [setClient_clients, sockDestroy_clients, Function.update_of_ne hji] at hj
        simp only [setClient_clients, setClient_opened, sockDestroy_clients, sockDestroy_opened,
          Function.update_of_ne hji]
        have hne : (s.clients j).sock ≠ (s.clients i).sock := fun heq => hji (hs.inj j i hj heq)
        exact (List.mem_erase_of_ne hne).2 (hs.stored j hj)
    · intro j k hj hjk
      simp only [setClient_clients, sockDestroy_clients] at hj hjk
      by_cases hji : j = i
      · simp [hji] at hj
      · by_cases hki : k = i
        · simp only [hki, Function.update_of_ne hji, Function.update_self] at hj hjk
          omega
        · simp only [Function.update_of_ne hji, Function.update_of_ne hki] at hj hjk
          exact hs.inj j k hj hjk
    · exact fun sock hsock => hs.nonneg sock (List.mem_of_mem_erase hsock)
  · exact hs

lemma step_accept {a : Arrival} (h : PoolStep s (.accept a) t) :
    0 ≤ a.sock ∧ a.sock ∉ s.opened ∧ t = s.accept a := by
  obtain ⟨⟨hsock, hnew⟩, rfl⟩ : (0 ≤ a.sock ∧ a.sock ∉ s.opened) ∧ s.accept a = t := by
    simpa [StepOf, poolNext] using h
  exact ⟨hsock, hnew, rfl⟩

lemma accept_step (hsock : 0 ≤ a.sock) (hnew : a.sock ∉ s.opened) :
    PoolStep s (.accept a) (s.accept a) :=
  if_pos ⟨hsock, hnew⟩

lemma step_disconnect (h : PoolStep s (.disconnect i) t) : t = s.ipcDisconnectClient i :=
  (Option.some.inj h).symm

lemma Tidy.step {e : PoolEvent n} (hs : s.Tidy) (h : PoolStep s e t) : t.Tidy := by
  cases e with
  | accept a =>
    obtain ⟨hsock, hnew, rfl⟩ := step_accept h
    exact hs.accept hsock hnew
  | disconnect i =>
    obtain rfl := step_disconnect h
    exact hs.ipcDisconnectClient i

lemma tidy_run (hr : Run PoolStep (ipcInitClients n) es s) : s.Tidy :=
  hr.invariant (fun _ _ _ hs h => hs.step h) (tidy_ipcInitClients n)

/-! ## Owners -/

/-- Every call so far settled what becomes of its socket, every socket that is still open has one
owner, and there are no more owners than slots. -/
structure Owned (s : Pool n) : Prop where
  calls : ∀ c ∈ s.calls, c.Settled
  owner : ∀ sock ∈ s.opened, ∃! i, (s.clients i).sock = sock
  bound : s.occupied ≤ n

/-- The guard on calls of `ipc_init_client`: some slot is free. -/
def HasFree (s : Pool n) : PoolEvent n → Prop
  | .accept _ => ∃ i, (s.clients i).sock < 0
  | .disconnect _ => True

lemma owned_ipcInitClients (n : ℕ) : (ipcInitClients n).Owned where
  calls := by simp [ipcInitClients]
  owner := by simp [ipcInitClients]
  bound := Slots.count_le _ _

/-- With tidy slots, an owner is the only one. -/
lemma Tidy.existsUnique (hs : s.Tidy) {sock : ℤ} (hsock : 0 ≤ sock)
    (h : ∃ i, (s.clients i).sock = sock) : ∃! i, (s.clients i).sock = sock := by
  obtain ⟨i, hi⟩ := h
  refine ⟨i, hi, fun j hj => ?_⟩
  exact (hs.inj i j (hi.symm ▸ hsock) (hi.trans hj.symm)).symm

/-- A new connection gets one owner. -/
lemma Tidy.count_seated (hs : s.Tidy) (hsock : 0 ≤ a.sock) (hnew : a.sock ∉ s.opened)
    (hi : (s.clients i).sock < 0) : Slots.count (fun c => c.sock == a.sock)
      (Function.update s.clients i (newClient a)) = 1 := by
  have hold : ((s.clients i).sock == a.sock) = false := by
    rw [beq_eq_false_iff_ne]
    omega
  rw [Slots.count_update_taken (p := fun c : Client => c.sock == a.sock) hold
    (beq_self_eq_true _)]
  exact congrArg (· + 1) (hs.holders_eq_zero hsock hnew)

lemma Owned.accept (hs : s.Owned) (ht : s.Tidy) (hsock : 0 ≤ a.sock) (hnew : a.sock ∉ s.opened)
    (hfree : ∃ i, (s.clients i).sock < 0) : (s.accept a).Owned := by
  have htidy := ht.accept hsock hnew
  obtain ⟨i, hslot⟩ := exists_freeSlot hfree
  have hi := sock_neg_of_freeSlot hslot
  refine ⟨?_, ?_, Slots.count_le _ _⟩
  · rw [ht.accept_seated hslot, ht.count_seated hsock hnew hi]
    intro c hc
    rcases List.mem_append.1 hc with hc | hc
    · exact hs.calls c hc
    · obtain rfl := List.mem_singleton.1 hc
      exact ⟨.inl ⟨rfl, rfl⟩, by decide⟩
  · intro sock hmem
    refine htidy.existsUnique (htidy.nonneg sock hmem) ?_
    rw [ht.accept_seated hslot] at hmem ⊢
    rcases List.mem_cons.1 hmem with rfl | hopen
    · exact ⟨i, by simp [newClient]⟩
    · obtain ⟨j, hj, -⟩ := hs.owner sock hopen
      have hnonneg := ht.nonneg sock hopen
      have hji : j ≠ i := by
        rintro rfl
        omega
      exact ⟨j, by simpa [hji] using hj⟩

lemma ipcDisconnectClient_calls (i : Fin n) (s : Pool n) :
    (s.ipcDisconnectClient i).calls = s.calls := by
  unfold Pool.ipcDisconnectClient
  dsimp only
  split
  all_goals rfl

lemma Owned.ipcDisconnectClient (hs : s.Owned) (ht : s.Tidy) (i : Fin n) :
    (s.ipcDisconnectClient i).Owned := by
  have htidy := ht.ipcDisconnectClient i
  refine ⟨?_, ?_, Slots.count_le _ _⟩
  · rw [ipcDisconnectClient_calls]
    exact hs.calls
  · intro sock hmem
    refine htidy.existsUnique (htidy.nonneg sock hmem) ?_
    unfold Pool.ipcDisconnectClient at hmem ⊢
    dsimp only at hmem ⊢
    split at hmem
    · rename_i hi
      rw [if_pos hi]
      obtain ⟨hne, hopen⟩ := ht.nodup.mem_erase_iff.1 hmem
      obtain ⟨j, hj, -⟩ := hs.owner sock hopen
      have hji : j ≠ i := by
        rintro rfl
        exact hne hj.symm
      exact ⟨j, by simpa [hji] using hj⟩
    · rename_i hi
      rw [if_neg hi]
      obtain ⟨j, hj, -⟩ := hs.owner sock hmem
      exact ⟨j, hj⟩

/-- A call that finds no free slot settles nothing. -/
lemma Tidy.exists_unsettled (hs : s.Tidy) (hsock : 0 ≤ a.sock) (hnew : a.sock ∉ s.opened)
    (hfull : ¬ ∃ i, (s.clients i).sock < 0) : ∃ c ∈ (s.accept a).calls, ¬ c.Settled := by
  rw [hs.accept_full (freeSlot_eq_none_iff.2 hfull), hs.holders_eq_zero hsock hnew]
  refine ⟨⟨0, false, 0⟩, by simp, ?_⟩
  simp [Call.Settled]

lemma ipcInitClient_calls (a : Arrival) (s : Pool n) : (s.ipcInitClient a).1.calls = s.calls := by
  unfold ipcInitClient
  split
  · rfl
  · split
    all_goals rfl

lemma calls_subset {e : PoolEvent n} (h : PoolStep s e t) : s.calls ⊆ t.calls := by
  cases e with
  | accept a =>
    obtain ⟨-, -, rfl⟩ := step_accept h
    have hcalls := ({ s with opened := a.sock :: s.opened } : Pool n).ipcInitClient_calls a
    unfold accept
    dsimp only
    rw [hcalls]
    exact List.subset_append_left _ _
  | disconnect i =>
    obtain rfl := step_disconnect h
    rw [ipcDisconnectClient_calls]
    exact List.Subset.refl _

/-- The sockets of a run have owners exactly when every call found a free slot. -/
theorem owned_iff_guarded (hr : Run PoolStep (ipcInitClients n) es s) :
    s.Owned ↔ Run (Guarded HasFree PoolStep) (ipcInitClients n) es s := by
  constructor
  · intro hs
    have hsettled := hs.calls
    clear hs
    induction hr with
    | nil => exact .nil
    | snoc hr h ih =>
      rename_i t u es e
      refine .snoc (ih fun c hc => hsettled c (calls_subset h hc)) ⟨?_, h⟩
      cases e with
      | accept a =>
        by_contra hfull
        obtain ⟨hsock, hnew, rfl⟩ := step_accept h
        obtain ⟨c, hc, hbad⟩ := (tidy_run hr).exists_unsettled hsock hnew hfull
        exact hbad (hsettled c hc)
      | disconnect i => exact trivial
  · intro hg
    have hboth : s.Tidy ∧ s.Owned := by
      refine hg.invariant (I := fun s => s.Tidy ∧ s.Owned) ?_
        ⟨tidy_ipcInitClients n, owned_ipcInitClients n⟩
      rintro t e u ⟨htidy, howned⟩ ⟨hfree, h⟩
      refine ⟨htidy.step h, ?_⟩
      cases e with
      | accept a =>
        obtain ⟨hsock, hnew, rfl⟩ := step_accept h
        exact howned.accept htidy hsock hnew hfree
      | disconnect i =>
        obtain rfl := step_disconnect h
        exact howned.ipcDisconnectClient htidy i
    exact hboth.2

/-- Two connections, the end of the first, and one more. -/
theorem owned_iff_guarded_reused :
    ((((ipcInitClients 2).accept ⟨5, [], 0, []⟩).accept ⟨6, [], 1, []⟩).ipcDisconnectClient 0
      |>.accept ⟨7, [], 2, []⟩).Owned := by
  have h₁ : PoolStep (ipcInitClients 2) (.accept ⟨5, [], 0, []⟩)
      ((ipcInitClients 2).accept ⟨5, [], 0, []⟩) := accept_step (by decide) (by decide)
  have h₂ : PoolStep ((ipcInitClients 2).accept ⟨5, [], 0, []⟩) (.accept ⟨6, [], 1, []⟩) _ :=
    accept_step (by decide) (by decide)
  have h₃ : PoolStep ((((ipcInitClients 2).accept ⟨5, [], 0, []⟩).accept
      ⟨6, [], 1, []⟩).ipcDisconnectClient 0) (.accept ⟨7, [], 2, []⟩) _ :=
    accept_step (by decide) (by decide)
  have hg₁ : HasFree (ipcInitClients 2) (.accept ⟨5, [], 0, []⟩) := ⟨0, by decide⟩
  have hg₂ : HasFree ((ipcInitClients 2).accept ⟨5, [], 0, []⟩) (.accept ⟨6, [], 1, []⟩) :=
    ⟨1, by decide⟩
  have hg₃ : HasFree ((((ipcInitClients 2).accept ⟨5, [], 0, []⟩).accept
      ⟨6, [], 1, []⟩).ipcDisconnectClient 0) (.accept ⟨7, [], 2, []⟩) := ⟨0, by decide⟩
  have hr : Run (Guarded HasFree PoolStep) (ipcInitClients 2)
      ([] ++ [.accept ⟨5, [], 0, []⟩] ++ [.accept ⟨6, [], 1, []⟩] ++ [.disconnect 0] ++
        [.accept ⟨7, [], 2, []⟩]) _ :=
    .snoc (.snoc (.snoc (.snoc .nil ⟨hg₁, h₁⟩) ⟨hg₂, h₂⟩) ⟨trivial, rfl⟩) ⟨hg₃, h₃⟩
  exact (owned_iff_guarded hr.of_guarded).2 hr

/-! ## A full pool -/

/-- The first sockets are accepted in order. -/
def arrivals (k : ℕ) : List (PoolEvent n) := (List.range k).map fun j => .accept ⟨j, [], 0, []⟩

lemma exists_run_arrivals {k : ℕ} (hk : k ≤ n) :
    ∃ s : Pool n, Run PoolStep (ipcInitClients n) (arrivals k) s ∧ s.occupied = k ∧
      ∀ sock ∈ s.opened, sock < k := by
  induction k with
  | zero =>
    refine ⟨ipcInitClients n, .nil, ?_, by simp [ipcInitClients]⟩
    rw [occupied, Slots.count, Finset.card_eq_zero, Finset.filter_eq_empty_iff]
    intro i _
    simp [ipcInitClients, Client.connected]
  | succ k ih =>
    obtain ⟨s, hr, hcount, hopened⟩ := ih (by omega)
    have hnew : (k : ℤ) ∉ s.opened := fun hmem => lt_irrefl _ (hopened k hmem)
    have hstep : PoolStep s (.accept ⟨k, [], 0, []⟩) (s.accept ⟨k, [], 0, []⟩) :=
      accept_step (Int.natCast_nonneg k) hnew
    have harrivals : (arrivals (k + 1) : List (PoolEvent n)) =
        arrivals k ++ [.accept ⟨k, [], 0, []⟩] := by
      simp [arrivals, List.range_succ]
    have hlt : s.occupied < n := by omega
    obtain ⟨j, hj⟩ := Slots.count_lt_iff.1 hlt
    obtain ⟨i, hslot⟩ := exists_freeSlot ⟨j, not_le.1 (of_decide_eq_false hj)⟩
    have hseated := (tidy_run hr).accept_seated (a := ⟨k, [], 0, []⟩) hslot
    have hi : (s.clients i).connected = false :=
      decide_eq_false (not_le.2 (sock_neg_of_freeSlot hslot))
    have hnewconn : (newClient ⟨k, [], 0, []⟩).connected = true :=
      decide_eq_true (Int.natCast_nonneg k)
    refine ⟨_, harrivals ▸ hr.snoc hstep, ?_, ?_⟩
    · rw [hseated, occupied, Slots.count_update_taken hi hnewconn]
      exact congrArg (· + 1) hcount
    · rw [hseated]
      intro sock hmem
      rcases List.mem_cons.1 hmem with rfl | hmem
      · exact Int.lt_succ k
      · have hlt := hopened sock hmem
        omega

/-- After `IPC_MAX_CLIENT_COUNT` connections the next one is reported as a success, but it is
neither kept nor destroyed. -/
theorem full_pool_loses_socket :
    ∃ s t : Pool ipcMaxClientCount,
      Run PoolStep (ipcInitClients ipcMaxClientCount) (arrivals ipcMaxClientCount) s ∧
        PoolStep s (.accept ⟨1024, [], 0, []⟩) t ∧ (∀ i, (t.clients i).sock ≠ 1024) ∧
        1024 ∈ t.opened ∧ t.calls.getLast? = some ⟨0, false, 0⟩ := by
  obtain ⟨s, hr, hcount, hopened⟩ := exists_run_arrivals (n := ipcMaxClientCount) le_rfl
  have hnew : (1024 : ℤ) ∉ s.opened := fun hmem => lt_irrefl _ (hopened 1024 hmem)
  have htidy := tidy_run hr
  have hslot : s.freeSlot = none := by
    rw [freeSlot_eq_none_iff]
    rintro ⟨i, hi⟩
    have hlt := (Slots.count_lt_iff (p := Client.connected)).2
      ⟨i, decide_eq_false (not_le.2 hi)⟩
    rw [occupied] at hcount
    omega
  have hfull := htidy.accept_full (a := ⟨1024, [], 0, []⟩) hslot
  refine ⟨s, s.accept ⟨1024, [], 0, []⟩, hr, accept_step (by decide) hnew, ?_, ?_, ?_⟩
  · rw [hfull]
    intro i heq
    have hmem := htidy.stored i (by rw [heq]; decide)
    rw [heq] at hmem
    exact hnew hmem
  · rw [hfull]
    exact List.mem_cons_self
  · rw [hfull, htidy.holders_eq_zero (by decide) hnew]
    exact List.getLast?_concat

end Pool

end WebTester.IpcPool
