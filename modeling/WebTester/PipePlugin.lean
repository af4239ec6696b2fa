import Mathlib.Data.List.FinRange
import Mathlib.Logic.Function.Basic
import WebTester.CString
import WebTester.Transition

/-!
# Output of the core for clients

The plugin `pipe` keeps a table of its own, with an entry for every slot of the table of
clients, and sends what the core prints to the slots that are registered in it. A slot
whose uid is not the stored one has a new client; `review_clients` then resets the entry
and writes the stored uid over that of the client. The statistics have such a table too
and review it the same way.

`asked` tells whether the present client of a slot has executed `pipe register` as an
administrator and not `pipe unregister` since; the server does not keep it.
-/
namespace WebTester.Pipe
open CString Transition

/-- An entry of a plugin's table of clients. -/
structure Entry where
  registered : Bool
  uid : CStr
  deriving DecidableEq, Repr

/-- A slot: the client, and its entries in the tables of `pipe` and of the statistics. -/
structure Slot where
  /-- Is `sock` a socket? -/
  connected : Bool
  authontificated : Bool
  access : ℤ
  uid : CStr
  pipe : Entry
  stat : Entry
  asked : Bool
  deriving DecidableEq, Repr

namespace Slot

/-- `ipc_init_clients` and both `clients_init`. -/
def free : Slot := ⟨false, false, 0, [], ⟨false, []⟩, ⟨false, []⟩, false⟩

/-- `ipc_init_client` for the slot that was found. -/
def connect (uid : CStr) (c : Slot) : Slot :=
  { c with connected := true, authontificated := false, access := 0, uid := uid, asked := false }

/-- `ipc_disconnect_client`. -/
def disconnect (c : Slot) : Slot :=
  { c with connected := false, authontificated := false, access := 0, uid := [], asked := false }

/-- `review_clients` of `pipe`, for one slot. -/
def reviewPipe (c : Slot) : Slot :=
  if c.uid ≠ c.pipe.uid then
    { c with pipe := { c.pipe with registered := false }, uid := c.pipe.uid }
  else c

/-- `review_clients` of the statistics, for one slot. -/
def reviewStat (c : Slot) : Slot :=
  if c.uid ≠ c.stat.uid then
    { c with stat := { c.stat with registered := false }, uid := c.stat.uid }
  else c

/-- `ipc_login` with the right password. -/
def login (access : ℤ) (c : Slot) : Slot :=
  if c.authontificated then c else { c with authontificated := true, access := access }

/-- `ipc_logout`. -/
def logout (c : Slot) : Slot :=
  if c.authontificated then { c with authontificated := false, access := 0 } else c

/-- `pipe register` and `pipe unregister` after the review. -/
def setPipe (on : Bool) (c : Slot) : Slot :=
  if c.access < 7 then c
  else { c with pipe := { c.pipe with registered := on }, asked := on }

/-- `stat register` and `stat unregister` after the review. -/
def setStat (on : Bool) (c : Slot) : Slot :=
  if c.access < 7 then c else { c with stat := { c.stat with registered := on } }

end Slot

/-- The argument of `pipe` or `stat`: to register, to unregister, or anything else. -/
inductive Arg
  | register
  | unregister
  | other
  deriving DecidableEq, Repr

inductive Event (n : ℕ)
  /-- A connection, with the uid that `uid_gen` gives it. -/
  | connect (uid : CStr)
  | disconnect (i : Fin n)
  | login (i : Fin n) (access : ℤ)
  | logout (i : Fin n)
  | pipe (i : Fin n) (arg : Arg)
  | stat (i : Fin n) (arg : Arg)
  /-- A variable of the statistics is set. -/
  | statSet
  /-- `CORE.Print`. -/
  | print

variable {n : ℕ}

abbrev Table (n : ℕ) := Fin n → Slot

namespace Table

def update (s : Table n) (i : Fin n) (f : Slot → Slot) : Table n :=
  Function.update s i (f (s i))

/-- The first slot that `ipc_init_client` finds free. -/
def firstFree (s : Table n) : Option (Fin n) :=
  (List.finRange n).find? fun i => !(s i).connected

def onArg (set : Bool → Slot → Slot) : Arg → Slot → Slot
  | .register => set true
  | .unregister => set false
  | .other => id

/-- Commands come from connected clients, and a new uid is not empty. -/
def next (s : Table n) : Event n → Option (Table n)
  | .connect uid =>
    if uid = [] then none
    else match s.firstFree with
      | none => some s
      | some i => some (s.update i (Slot.connect uid))
  | .disconnect i => if (s i).connected then some (s.update i Slot.disconnect) else none
  | .login i access => if (s i).connected then some (s.update i (Slot.login access)) else none
  | .logout i => if (s i).connected then some (s.update i Slot.logout) else none
  | .pipe i arg =>
    if (s i).connected then some (update (fun j => (s j).reviewPipe) i (onArg Slot.setPipe arg))
    else none
  | .stat i arg =>
    if (s i).connected then some (update (fun j => (s j).reviewStat) i (onArg Slot.setStat arg))
    else none
  | .statSet => some fun j => (s j).reviewStat
  | .print => some s

/-- Does the core print in a step? Connections and their loss are reported. -/
def prints : Event n → Bool
  | .connect _ => true
  | .disconnect _ => true
  | .print => true
  | _ => false

/-- Does the step review the table of the statistics? -/
def reviewsStat : Event n → Bool
  | .stat _ _ => true
  | .statSet => true
  | _ => false

/-- `kprint_hook`: is the output of a step written to the socket of a slot? The socket of a
new connection is stored after the report, that of a lost one is removed after it. -/
def writes (s : Table n) (e : Event n) (i : Fin n) : Bool :=
  prints e && (s i).connected && (s i).pipe.registered

end Table

open Table

abbrev Step : Table n → Event n → Table n → Prop := StepOf Table.next

/-- The slot is in use and registered, and `review_clients` of `pipe` would reset it. -/
def Slot.due (c : Slot) : Bool := c.connected && c.pipe.registered && c.uid ≠ c.pipe.uid

/-- No slot is due for a review when the core prints, or when the statistics would be the
first to review it. -/
def Reviewed (s : Table n) (e : Event n) : Prop :=
  prints e || reviewsStat e → ∀ i, (s i).due = false

instance (s : Table n) (e : Event n) : Decidable (Reviewed s e) :=
  inferInstanceAs (Decidable (_ → _))

/-! ## Who is registered -/

/-- Neither plugin ever stores a uid. A registered slot that is not due belongs to a client
that asked for the output. -/
structure Slot.Invariant (c : Slot) : Prop where
  pipe_uid : c.pipe.uid = []
  stat_uid : c.stat.uid = []
  asked : c.connected → c.pipe.registered → c.uid = [] → c.asked

namespace Slot

variable {c : Slot}

lemma invariant_free : free.Invariant := ⟨rfl, rfl, nofun⟩

lemma Invariant.connect (h : c.Invariant) {uid : CStr} (hu : uid ≠ []) :
    (c.connect uid).Invariant :=
  ⟨h.pipe_uid, h.stat_uid, fun _ _ he => absurd he hu⟩

lemma Invariant.disconnect (h : c.Invariant) : c.disconnect.Invariant :=
  ⟨h.pipe_uid, h.stat_uid, nofun⟩

lemma Invariant.login (h : c.Invariant) (access : ℤ) : (c.login access).Invariant := by
  unfold Slot.login
  split
  · exact h
  · exact ⟨h.pipe_uid, h.stat_uid, h.asked⟩

lemma Invariant.logout (h : c.Invariant) : c.logout.Invariant := by
  unfold Slot.logout
  split
  · exact ⟨h.pipe_uid, h.stat_uid, h.asked⟩
  · exact h

lemma Invariant.reviewPipe (h : c.Invariant) : c.reviewPipe.Invariant := by
  unfold Slot.reviewPipe
  split
  · exact ⟨h.pipe_uid, h.stat_uid, nofun⟩
  · exact h

/-- The review of the statistics would make a slot that is due look reviewed. -/
lemma Invariant.reviewStat (h : c.Invariant) (hdue : c.due = false) : c.reviewStat.Invariant := by
  unfold Slot.reviewStat
  split
  · next hu =>
    refine ⟨h.pipe_uid, h.stat_uid, fun hc hr _ => ?_⟩
    have hsame : c.uid = [] := by
      have hcr : c.connected = true ∧ c.pipe.registered = true := ⟨hc, hr⟩
      simpa [due, hcr, h.pipe_uid] using hdue
    exact absurd (hsame.trans h.stat_uid.symm) hu
  · exact h

lemma Invariant.setPipe (h : c.Invariant) (on : Bool) : (c.setPipe on).Invariant := by
  unfold Slot.setPipe
  split
  · exact h
  · exact ⟨h.pipe_uid, h.stat_uid, fun _ hon _ => hon⟩

lemma Invariant.setStat (h : c.Invariant) (on : Bool) : (c.setStat on).Invariant := by
  unfold Slot.setStat
  split
  · exact h
  · exact ⟨h.pipe_uid, h.stat_uid, h.asked⟩

end Slot

lemma invariant_update {s : Table n} (h : ∀ i, (s i).Invariant) {f : Slot → Slot}
    (hf : ∀ c : Slot, c.Invariant → (f c).Invariant) (i j : Fin n) :
    (s.update i f j).Invariant := by
  unfold Table.update
  by_cases hj : j = i
  · subst hj
    rw [Function.update_self]
    exact hf _ (h j)
  · rw [Function.update_of_ne hj]
    exact h j

lemma invariant_onArg {set : Bool → Slot → Slot}
    (hset : ∀ on (c : Slot), c.Invariant → (set on c).Invariant) (arg : Arg) (c : Slot)
    (h : c.Invariant) : (onArg set arg c).Invariant := by
  cases arg
  · exact hset true c h
  · exact hset false c h
  · exact h

theorem invariant_step {s t : Table n} {e : Event n} (h : ∀ i, (s i).Invariant)
    (hs : Guarded Reviewed Step s e t) : ∀ i, (t i).Invariant := by
  obtain ⟨hg, hs⟩ := hs
  intro j
  cases e with
  | connect uid =>
    change (if uid = [] then none else _) = some t at hs
    split at hs
    · cases hs
    · next hu =>
      split at hs
      · cases hs
        exact h j
      · cases hs
        exact invariant_update h (fun c hc => hc.connect hu) _ j
  | disconnect i =>
    change (if _ then _ else _) = some t at hs
    split at hs <;> cases hs
    exact invariant_update h (fun c hc => hc.disconnect) i j
  | login i access =>
    change (if _ then _ else _) = some t at hs
    split at hs <;> cases hs
    exact invariant_update h (fun c hc => hc.login access) i j
  | logout i =>
    change (if _ then _ else _) = some t at hs
    split at hs <;> cases hs
    exact invariant_update h (fun c hc => hc.logout) i j
  | pipe i arg =>
    change (if _ then _ else _) = some t at hs
    split at hs <;> cases hs
    exact invariant_update (fun k => (h k).reviewPipe)
      (invariant_onArg (fun on c hc => hc.setPipe on) arg) i j
  | stat i arg =>
    change (if _ then _ else _) = some t at hs
    split at hs <;> cases hs
    exact invariant_update (fun k => (h k).reviewStat (hg rfl k))
      (invariant_onArg (fun on c hc => hc.setStat on) arg) i j
  | statSet =>
    cases hs
    exact (h j).reviewStat (hg rfl j)
  | print =>
    cases hs
    exact h j

/-- When every slot is reviewed in time, the output of the core goes only to clients that
asked for it. -/
theorem writes_only_asked {s t : Table n} {es : List (Event n)} {e : Event n} {i : Fin n}
    (hr : Run (Guarded Reviewed Step) (fun _ => Slot.free) es s)
    (hs : Guarded Reviewed Step s e t) (hw : s.writes e i) : (s i).asked := by
  have h : ∀ i, (s i).Invariant := hr.invariant (I := fun s => ∀ i, (s i).Invariant)
    (fun _ _ _ => invariant_step) fun _ => Slot.invariant_free
  unfold Table.writes at hw
  rw [Bool.and_eq_true, Bool.and_eq_true] at hw
  obtain ⟨⟨hp, hc⟩, hreg⟩ := hw
  have hdue := hs.1 (by rw [hp]; rfl) i
  have huid : (s i).uid = [] := by
    simpa [Slot.due, hc, hreg, (h i).pipe_uid] using hdue
  exact (h i).asked hc hreg huid

/-- `IPC_MAX_CLIENT_COUNT`. -/
def ipcMaxClientCount : ℕ := 1024

/-- The first slot. -/
def slot0 : Fin ipcMaxClientCount := ⟨0, by decide⟩

/-- An administrator connects to the first slot and registers. -/
def registerRun : List (Event ipcMaxClientCount) :=
  [.connect "u1".toList, .login slot0 7, .pipe slot0 .register]

lemma registerRun_isSome :
    (registerRun.foldlM (restrict Reviewed Table.next) fun _ => Slot.free).isSome := by
  decide +kernel

theorem writes_only_asked_registered :
    ((registerRun.foldlM (restrict Reviewed Table.next) fun _ => Slot.free).get
      registerRun_isSome slot0).asked := by
  have hr := (Run.get_foldlM _ _ registerRun_isSome).mono fun _ _ _ h => stepOf_restrict.1 h
  refine writes_only_asked hr (e := .print) ⟨?_, rfl⟩ ?_
  · decide +kernel
  · decide +kernel

/-- The administrator leaves, and someone else gets the slot. -/
def reuseRun : List (Event ipcMaxClientCount) :=
  registerRun ++ [.disconnect slot0, .connect "u2".toList]

lemma reuseRun_isSome : (reuseRun.foldlM Table.next fun _ => Slot.free).isSome := by
  decide +kernel

theorem writes_to_new_client : ¬∀ (es : List (Event ipcMaxClientCount))
    (s t : Table ipcMaxClientCount) (e : Event ipcMaxClientCount) (i : Fin ipcMaxClientCount),
    Run Step (fun _ => Slot.free) es s → Step s e t → s.writes e i → (s i).asked := by
  intro h
  have hasked := h _ _ _ .print slot0 (Run.get_foldlM _ _ reuseRun_isSome) rfl (by decide +kernel)
  exact absurd hasked (by decide +kernel)

end WebTester.Pipe
